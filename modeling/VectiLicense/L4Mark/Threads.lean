import VectiLicense.L4Mark.Device
import VectiLicense.L4Mark.Protocol

/-!
# Calls that share the mark

`vl_verify` is documented as reentrant: "two threads may verify different
blobs simultaneously" (docs/API.md:418-422). Here any number of calls run over
one HAL, one callback being one atomic step (`Core.Pool`); the mark store is
faithful, identity and clock answer anything.

The high-water mark step is a load, a compare and a store in three callbacks,
so two calls can load the same mark, and the one with the older reading can
store last. `InOrder` is the condition on a step, on the state before it, that
excludes exactly this:

* `marks_kept`: where every store is in order, no step lowers the mark, and at
  the end it has reached the reading of every call that returned `VL_OK`; and
  when every call has returned, the converse.
* `update_lost`: two calls, both accepted, and the mark goes back.
-/
namespace VectiLicense.L4.Mark

open VectiLicense.Core VectiLicense.L0 VectiLicense.L1.Base32 VectiLicense.L3

/-- A faithful mark store; every other callback answers anything. -/
def sharedEnv : Env HalCall.Resp UInt32
  | .hwmLoad, m, r, m' => r = (.ok, m) ∧ m' = m
  | .hwmStore v, _, r, m' => r = .ok ∧ m' = v
  | _, m, _, m' => m' = m

/-- Calls in flight, and the mark. -/
abbrev Verifies := Pool HalCall HalCall.Resp UInt32 (VlStatus × Option VlLicense)

/-- The arguments of one call. -/
structure VerifyArgs where
  blob : Option CStr
  cfg : VlConfig
  hal : Option HalMask
  out : Option VlLicense

/-- All calls at their start. -/
def Verifies.start [Target] (cr : Crypto) (m : UInt32) (calls : List VerifyArgs) : Verifies :=
  ⟨m, calls.map fun c => vlVerify cr c.blob (some c.cfg) c.hal c.out⟩

/-- If the step stores `v`, every other call that is about to store is about
to store at least `v`. -/
def InOrder (s : Verifies) (l : Nat × HalEvent) : Prop :=
  ∀ v, l.2.1 = .hwmStore v → ∀ j w k, j ≠ l.1 → s.threads[j]? = some (.call (.hwmStore w) k) →
    v ≤ w

/-! ## The invariant -/

/-- What a call in phase `ph` with the program `p` left knows of the mark. -/
def Knows (mark : UInt32) (p : HalProg (VlStatus × Option VlLicense)) : Phase → Prop
  | .loaded _ m => m ≤ mark ∧ ∀ v k, p = .call (.hwmStore v) k → mark ≤ v
  | .stored now => now ≤ mark
  | _ => True

/-- The mark may grow as long as it does not pass a pending store. -/
theorem Knows.mono {mark mark' : UInt32} {p : HalProg (VlStatus × Option VlLicense)} {ph : Phase}
    (h : Knows mark p ph) (hle : mark ≤ mark')
    (hpend : ∀ v k, p = .call (.hwmStore v) k → mark' ≤ v) : Knows mark' p ph := by
  cases ph with
  | loaded now m => exact ⟨UInt32.le_trans h.1 hle, hpend⟩
  | stored now => exact UInt32.le_trans h hle
  | _ => trivial

/-- Every call's knowledge is right. -/
def Consistent (s : Verifies) (φ : Nat → Phase) : Prop :=
  ∀ i p, s.threads[i]? = some p → Knows s.shared p (φ i)

theorem sharedEnv_keeps {e : HalCall} {m m' : UInt32} {r : e.Resp} (h : sharedEnv e m r m')
    (hne : ∀ v, e ≠ .hwmStore v) : m' = m := by
  cases e with
  | hwmLoad => exact h.2
  | hwmStore v => exact absurd rfl (hne v)
  | _ => exact h

theorem knows_own {e : HalCall} {m m' : UInt32} {r : e.Resp} {ph : Phase}
    {p : HalProg (VlStatus × Option VlLicense)} (henv : sharedEnv e m r m') (ha : ph.allowed e)
    (hwp : markProtocol.wp p CallOk (ph.next e r)) : Knows m' p (ph.next e r) := by
  have hpend : ∀ {now mark : UInt32}, markProtocol.wp p CallOk (.loaded now mark) →
      ∀ v k, p = .call (.hwmStore v) k → mark ≤ v := by
    intro now mark hwp v k hp
    subst hp
    obtain ⟨rfl, hlt⟩ := hwp.1
    exact UInt32.le_of_lt hlt
  have hstep := Phase.step (r := r) ha
  generalize ph.next e r = ph' at hstep hwp ⊢
  cases hstep with
  | load =>
    obtain ⟨hmark, rfl⟩ := henv
    cases hmark
    exact ⟨UInt32.le_refl _, hpend hwp⟩
  | store =>
    obtain ⟨-, rfl⟩ := henv
    exact UInt32.le_refl _
  | _ => trivial

theorem step_consistent {s s' : Verifies} {φ : Nat → Phase} {l : Nat × HalEvent}
    (hstep : Pool.Step sharedEnv s l s') (hord : InOrder s l)
    (ht : Pool.Tracks markProtocol CallOk s φ) (ha : (φ l.1).allowed l.2.1)
    (ht' : Pool.Tracks markProtocol CallOk s' (Pool.advance markProtocol φ l))
    (hc : Consistent s φ) :
    Consistent s' (Pool.advance markProtocol φ l) ∧ s.shared ≤ s'.shared := by
  obtain ⟨i, e, r⟩ := l
  obtain ⟨k, hk, henv, hts⟩ := hstep
  have hle : s.shared ≤ s'.shared := by
    by_cases hst : ∃ v, e = .hwmStore v
    · obtain ⟨v, rfl⟩ := hst
      rw [show s'.shared = v from henv.2]
      have hknows := hc i _ hk
      cases hph : φ i with
      | loaded now mark =>
        rw [hph] at hknows
        exact hknows.2 v k rfl
      | _ =>
        rw [hph] at ha
        exact ha.elim
    · rw [sharedEnv_keeps henv fun v hv => hst ⟨v, hv⟩]
      exact UInt32.le_refl _
  refine ⟨fun j p hp => ?_, hle⟩
  by_cases hj : i = j
  · subst hj
    have hwp := ht' i p hp
    rw [Pool.advance, if_pos rfl] at hwp ⊢
    exact knows_own henv ha hwp
  · rw [Pool.advance, if_neg hj]
    rw [hts, List.getElem?_set_ne hj] at hp
    refine (hc j p hp).mono hle fun v k' hpend => ?_
    by_cases hst : ∃ w, e = .hwmStore w
    · obtain ⟨w, rfl⟩ := hst
      rw [show s'.shared = w from henv.2]
      exact hord w rfl j v k' (Ne.symm hj) (by rw [hp, hpend])
    · rw [sharedEnv_keeps henv fun v hv => hst ⟨v, hv⟩]
      have hwp := ht j p hp
      have hknows := hc j p hp
      subst hpend
      cases hph : φ j with
      | loaded now mark =>
        rw [hph] at hknows
        exact hknows.2 v k' rfl
      | _ =>
        rw [hph] at hwp
        exact hwp.1.elim

/-- A call about to store less than the mark, in a run that lowers nothing,
has not returned at its end. -/
theorem stale_store_stuck {s s' : Verifies} {ls : List (Nat × HalEvent)}
    (h : Run (fun s l s' => Pool.Step sharedEnv s l s' ∧ s.shared ≤ s'.shared) s ls s') {j : Nat}
    {w : UInt32} {k : VlStatus → HalProg (VlStatus × Option VlLicense)}
    (hj : s.threads[j]? = some (.call (.hwmStore w) k)) (hw : w < s.shared) :
    s'.threads[j]? = some (.call (.hwmStore w) k) := by
  induction h with
  | nil => exact hj
  | @cons s s₁ s' l ls h₁ _ ih =>
    obtain ⟨⟨k', hk', henv, hts⟩, hle⟩ := h₁
    by_cases hi : l.1 = j
    · rw [hi, hj, Option.some.injEq] at hk'
      obtain ⟨i, e, r⟩ := l
      cases hk'
      rw [show s₁.shared = w from henv.2] at hle
      exact absurd hw (UInt32.not_lt.mpr hle)
    · exact ih (by rw [hts, List.getElem?_set_ne hi, hj]) (UInt32.lt_of_lt_of_le hw hle)

/-- While no other call is about to store, what one call does is in order. -/
theorem solo_inOrder {i : Nat} {t : List HalEvent} {s s' : Verifies}
    (h : Run (Pool.Step sharedEnv) s (t.map (i, ·)) s')
    (hothers : ∀ j w k, j ≠ i → s.threads[j]? ≠ some (.call (.hwmStore w) k)) :
    Run (fun s l s' => Pool.Step sharedEnv s l s' ∧ InOrder s l) s (t.map (i, ·)) s' := by
  induction t generalizing s with
  | nil =>
    obtain rfl := Run.nil_iff.mp h
    exact .nil _
  | cons ev t ih =>
    obtain ⟨s₁, hstep, htail⟩ := Run.cons_iff.mp h
    have hts : ∀ j, j ≠ i → s₁.threads[j]? = s.threads[j]? := by
      intro j hj
      obtain ⟨k, -, -, hts⟩ := hstep
      rw [hts, List.getElem?_set_ne (Ne.symm hj)]
    refine .cons ⟨hstep, fun v _ j w k hj hpend => absurd hpend (hothers j w k hj)⟩
      (ih htail fun j w k hj => ?_)
    rw [hts j hj]
    exact hothers j w k hj

/-- Every call has returned. -/
def Verifies.Returned (s : Verifies) : Prop := ∀ p ∈ s.threads, ∃ v, p = .ret v

/-- A run that lowers nothing and in which every call returns is in order. -/
theorem inOrder_of_kept {s s' : Verifies} {ls : List (Nat × HalEvent)}
    (h : Run (fun s l s' => Pool.Step sharedEnv s l s' ∧ s.shared ≤ s'.shared) s ls s')
    (hdone : s'.Returned) :
    Run (fun s l s' => Pool.Step sharedEnv s l s' ∧ InOrder s l) s ls s' := by
  induction h with
  | nil s => exact .nil s
  | @cons s s₁ s' l ls h₁ htail ih =>
    refine .cons ⟨h₁.1, fun v hv j w k hj hpend => ?_⟩ (ih hdone)
    obtain ⟨i, e, r⟩ := l
    obtain ⟨⟨k', -, henv, hts⟩, -⟩ := h₁
    cases hv
    rw [← UInt32.not_lt]
    intro hlt
    have hstuck := stale_store_stuck htail (j := j) (k := k)
      (by rw [hts, List.getElem?_set_ne (Ne.symm hj), hpend])
      (by rw [show s₁.shared = v from henv.2]; exact hlt)
    obtain ⟨_, hret⟩ := hdone _ (List.mem_of_getElem? hstuck)
    cases hret

/-! ## Runs -/

variable [Target] {cr : Crypto}

theorem start_tracks {m : UInt32} {calls : List VerifyArgs}
    (hflag : ∀ c ∈ calls, c.cfg.enforceHwm) :
    Pool.Tracks markProtocol CallOk (Verifies.start cr m calls) fun _ => .identity := by
  intro i p hp
  obtain ⟨c, hc, rfl⟩ := List.mem_map.mp (List.mem_of_getElem? hp)
  exact vlVerify_wp (hflag c hc) c.blob c.hal c.out

/-- **When concurrent calls lose no update.** -/
theorem marks_kept {m : UInt32} {calls : List VerifyArgs}
    (hflag : ∀ c ∈ calls, c.cfg.enforceHwm) {ls : List (Nat × HalEvent)} {s' : Verifies} :
    (Run (fun s l s' => Pool.Step sharedEnv s l s' ∧ InOrder s l) (Verifies.start cr m calls) ls s' →
      Run (fun s l s' => Pool.Step sharedEnv s l s' ∧ s.shared ≤ s'.shared)
        (Verifies.start cr m calls) ls s' ∧
      ∀ i o, s'.threads[i]? = some (.ret (.ok, o)) →
        ∀ now, ⟨.nowEpoch, (.ok, now)⟩ ∈ Pool.proj i ls → now ≤ s'.shared) ∧
    (s'.Returned →
      Run (fun s l s' => Pool.Step sharedEnv s l s' ∧ s.shared ≤ s'.shared)
        (Verifies.start cr m calls) ls s' →
      Run (fun s l s' => Pool.Step sharedEnv s l s' ∧ InOrder s l) (Verifies.start cr m calls)
        ls s') := by
  refine ⟨fun h => ?_, fun hdone h => inOrder_of_kept h hdone⟩
  have hstart := @start_tracks _ cr m calls hflag
  obtain ⟨hrun, ht, hc⟩ := Pool.run_inv markProtocol
    (fun s φ l s' hstep hord ht ha ht' hc => step_consistent hstep hord ht ha ht' hc) h hstart
    (fun _ _ _ => trivial)
  refine ⟨hrun, fun i o hi now hnow => ?_⟩
  have hfollows := Pool.follows_run markProtocol (hrun.imp fun _ _ _ h => h.1) hstart i
  have hreached := ht i _ hi rfl
  have hknows := hc i _ hi
  rcases reading_unique hfollows hnow with hph | hph
  · rw [Pool.phases, hph] at hreached
    exact hreached.elim
  · rw [Pool.phases] at hreached hknows
    cases hafter : markProtocol.after .identity (Pool.proj i ls) with
    | loaded now' mark =>
      rw [hafter] at hph hreached hknows
      cases hph
      rw [show now = mark from hreached]
      exact hknows.1
    | stored now' =>
      rw [hafter] at hph hknows
      cases hph
      exact hknows
    | _ =>
      rw [hafter] at hreached
      exact hreached.elim

theorem vlVerify_no_store {cfg : VlConfig} (hflag : cfg.enforceHwm) (blob : Option CStr)
    (hal : Option HalMask) (out : Option VlLicense) (w : UInt32)
    (k : VlStatus → HalProg (VlStatus × Option VlLicense)) :
    vlVerify cr blob (some cfg) hal out ≠ .call (.hwmStore w) k := by
  intro h
  have hwp := @vlVerify_wp cfg _ cr hflag blob hal out
  rw [h] at hwp
  exact hwp.1

/-- A call of the test suite's device, without an output pointer. -/
def windowedArgs : VerifyArgs := ⟨some FIX_BLOB_WINDOWED, fixConfig, some vltHalFull, none⟩

abbrev windowedVerify : HalProg (VlStatus × Option VlLicense) :=
  @vlVerify host64 fixCrypto (some FIX_BLOB_WINDOWED) (some fixConfig) (some vltHalFull) none

omit [Target] in
theorem exec_windowed {m now : UInt32} (hlt : m < now) (hearly : ¬ tooEarly windowedLicense now)
    (hlate : ¬ tooLate windowedLicense now) :
    ∃ t, Prog.Exec sharedEnv windowedVerify m
      (t ++ [⟨.nowEpoch, (.ok, now)⟩, ⟨.hwmLoad, (.ok, m)⟩, ⟨.hwmStore now, .ok⟩]) (.ok, none)
      now :=
  @exec_of_entitled host64 _ _ _ _ _ sharedEnv (fun _ _ => rfl) _ none _ _ _ _ _ windowed_entitled
    (.marked rfl (show sharedEnv .nowEpoch m (.ok, now) m from rfl) hearly hlate (by decide)
      (.stored ⟨rfl, rfl⟩ hlt ⟨rfl, rfl⟩))

omit [Target] in
/-- In a pool, such a call can read the clock and stand before its load; the
load and the store of the reading are then all it does. -/
theorem windowed_clocked {m now : UInt32} (hlt : m < now) (hearly : ¬ tooEarly windowedLicense now)
    (hlate : ¬ tooLate windowedLicense now) {i : Nat}
    {ts : List (HalProg (VlStatus × Option VlLicense))} (hi : ts[i]? = some windowedVerify) :
    ∃ t k k', Run (Pool.Step sharedEnv) ⟨m, ts⟩ ((t ++ [⟨.nowEpoch, (.ok, now)⟩]).map (i, ·))
        ⟨m, ts.set i (.call .hwmLoad k)⟩ ∧
      k (.ok, m) = .call (.hwmStore now) k' ∧ k' .ok = .ret (.ok, none) := by
  obtain ⟨t, hexec⟩ := exec_windowed hlt hearly hlate
  rw [List.append_cons] at hexec
  obtain ⟨q, m', hrun, hq⟩ := Pool.run_of_exec hexec hi
  cases hq with
  | @call _ k _ _ _ _ _ _ hload hq =>
  obtain ⟨hm, rfl⟩ := hload
  cases hm
  have hstore : ∃ k', k (.ok, m) = .call (.hwmStore now) k' ∧ k' .ok = .ret (.ok, none) := by
    generalize k (.ok, m) = p at hq
    cases hq with
    | @call _ k' _ _ _ _ _ _ _ hq =>
    refine ⟨k', rfl, ?_⟩
    generalize k' .ok = p at hq
    cases hq
    rfl
  obtain ⟨k', hk, hk'⟩ := hstore
  exact ⟨t, k, k', hrun, hk, hk'⟩

omit [Target] in
/-- Two calls load the same mark. The one that read 1750000050 stores it, then
the one that read 1750000100 stores that: in order, and nothing is lost. -/
theorem marks_kept_windowed : ∃ pre ls s',
    ls = pre ++ [(0, ⟨.hwmLoad, (.ok, 1750000000)⟩), (1, ⟨.hwmLoad, (.ok, 1750000000)⟩),
      (0, ⟨.hwmStore 1750000050, .ok⟩), (1, ⟨.hwmStore 1750000100, .ok⟩)] ∧
    Run (fun s l s' => Pool.Step sharedEnv s l s' ∧ s.shared ≤ s'.shared)
      (@Verifies.start host64 fixCrypto 1750000000 [windowedArgs, windowedArgs]) ls s' ∧
    s'.threads = [.ret (.ok, none), .ret (.ok, none)] ∧ s'.shared = 1750000100 ∧
    (⟨.nowEpoch, (.ok, 1750000050)⟩ ∈ Pool.proj 0 ls ∧ 1750000050 ≤ s'.shared) ∧
    (⟨.nowEpoch, (.ok, 1750000100)⟩ ∈ Pool.proj 1 ls ∧ 1750000100 ≤ s'.shared) ∧
    Run (fun s l s' => Pool.Step sharedEnv s l s' ∧ InOrder s l)
      (@Verifies.start host64 fixCrypto 1750000000 [windowedArgs, windowedArgs]) ls s' := by
  have hflag : ∀ c ∈ [windowedArgs, windowedArgs], c.cfg.enforceHwm := by
    intro c hc
    obtain rfl : c = windowedArgs := by simpa using hc
    decide
  -- Each reads the clock while the other stands at its start or before its load.
  obtain ⟨t₀, k₀, k₀', hrun₀, hload₀, hret₀⟩ := @windowed_clocked 1750000000 1750000050
    (by decide) (by decide) (by decide) 0 [windowedVerify, windowedVerify] rfl
  obtain ⟨t₁, k₁, k₁', hrun₁, hload₁, hret₁⟩ := @windowed_clocked 1750000000 1750000100
    (by decide) (by decide) (by decide) 1 [.call .hwmLoad k₀, windowedVerify] rfl
  replace hrun₀ := solo_inOrder hrun₀ fun j w k hj hpend => by
    rcases j with _ | _ | j
    · exact hj rfl
    · exact @vlVerify_no_store host64 fixCrypto fixConfig (by decide) _ _ _ w k
        (Option.some.inj hpend)
    · cases hpend
  replace hrun₁ := solo_inOrder hrun₁ fun j w k hj hpend => by
    rcases j with _ | _ | j
    · cases hpend
    · exact hj rfl
    · cases hpend
  -- Both load before either stores.
  have hload : Pool.Step sharedEnv ⟨1750000000, [.call .hwmLoad k₀, .call .hwmLoad k₁]⟩
      (0, ⟨.hwmLoad, (.ok, 1750000000)⟩)
      ⟨1750000000, [.call (.hwmStore 1750000050) k₀', .call .hwmLoad k₁]⟩ :=
    ⟨k₀, rfl, ⟨rfl, rfl⟩, by rw [hload₀]; rfl⟩
  have hload' : Pool.Step sharedEnv
      ⟨1750000000, [.call (.hwmStore 1750000050) k₀', .call .hwmLoad k₁]⟩
      (1, ⟨.hwmLoad, (.ok, 1750000000)⟩)
      ⟨1750000000, [.call (.hwmStore 1750000050) k₀', .call (.hwmStore 1750000100) k₁']⟩ :=
    ⟨k₁, rfl, ⟨rfl, rfl⟩, by rw [hload₁]; rfl⟩
  have hstore : Pool.Step sharedEnv
      ⟨1750000000, [.call (.hwmStore 1750000050) k₀', .call (.hwmStore 1750000100) k₁']⟩
      (0, ⟨.hwmStore 1750000050, .ok⟩)
      ⟨1750000050, [.ret (.ok, none), .call (.hwmStore 1750000100) k₁']⟩ :=
    ⟨k₀', rfl, ⟨rfl, rfl⟩, by rw [hret₀]; rfl⟩
  have hstore' : Pool.Step sharedEnv
      ⟨1750000050, [.ret (.ok, none), .call (.hwmStore 1750000100) k₁']⟩
      (1, ⟨.hwmStore 1750000100, .ok⟩)
      ⟨1750000100, [.ret (.ok, none), .ret (.ok, none)]⟩ :=
    ⟨k₁', rfl, ⟨rfl, rfl⟩, by rw [hret₁]; rfl⟩
  -- The first store is below the one the other call stands before.
  have hbelow : InOrder
      ⟨1750000000, [.call (.hwmStore 1750000050) k₀', .call (.hwmStore 1750000100) k₁']⟩
      (0, ⟨.hwmStore 1750000050, .ok⟩) := by
    intro v hv j w k hj hpend
    cases hv
    rcases j with _ | _ | j
    · exact absurd rfl hj
    · cases Option.some.inj hpend
      decide
    · cases hpend
  have hlast : InOrder ⟨1750000050, [.ret (.ok, none), .call (.hwmStore 1750000100) k₁']⟩
      (1, ⟨.hwmStore 1750000100, .ok⟩) := by
    intro v _ j w k hj hpend
    rcases j with _ | _ | j
    · cases hpend
    · exact absurd rfl hj
    · cases hpend
  have hrun := Run.append_iff.mpr ⟨_, hrun₀, Run.append_iff.mpr ⟨_, hrun₁,
    Run.cons ⟨hload, nofun⟩ (Run.cons ⟨hload', nofun⟩
      (Run.cons ⟨hstore, hbelow⟩ (Run.cons ⟨hstore', hlast⟩ (.nil _))))⟩⟩
  rw [← List.append_assoc] at hrun
  obtain ⟨hkeep, hconv⟩ := @marks_kept host64 fixCrypto 1750000000 [windowedArgs, windowedArgs]
    hflag _ _
  obtain ⟨hkept, hreached⟩ := hkeep hrun
  have hdone : Verifies.Returned ⟨1750000100, [.ret (.ok, none), .ret (.ok, none)]⟩ := by
    simp [Verifies.Returned]
  refine ⟨_, _, _, rfl, hkept, rfl, rfl, ⟨?_, hreached 0 none rfl _ ?_⟩,
    ⟨?_, hreached 1 none rfl _ ?_⟩, hconv hdone hkept⟩
  all_goals simp [Pool.proj]

omit [Target] in
/-- Two calls load the same mark. The one that read 1750000100 stores it and
is accepted; then the one that read 1750000050 stores that and is accepted. -/
theorem update_lost : ∃ ls s',
    Run (Pool.Step sharedEnv)
      (@Verifies.start host64 fixCrypto 1750000000 [windowedArgs, windowedArgs]) ls s' ∧
    s'.threads = [.ret (.ok, none), .ret (.ok, none)] ∧
    ⟨.nowEpoch, (.ok, 1750000100)⟩ ∈ Pool.proj 1 ls ∧ s'.shared = 1750000050 := by
  obtain ⟨t₀, k₀, k₀', hrun₀, hload₀, hret₀⟩ := @windowed_clocked 1750000000 1750000050
    (by decide) (by decide) (by decide) 0 [windowedVerify, windowedVerify] rfl
  have hload : Pool.Step sharedEnv ⟨1750000000, [.call .hwmLoad k₀, windowedVerify]⟩
      (0, ⟨.hwmLoad, (.ok, 1750000000)⟩)
      ⟨1750000000, [.call (.hwmStore 1750000050) k₀', windowedVerify]⟩ :=
    ⟨k₀, rfl, ⟨rfl, rfl⟩, by rw [hload₀]; rfl⟩
  -- Thread 1 from start to end, while thread 0 stands before its store.
  obtain ⟨t₁, k₁, k₁', hrun₁, hload₁, hret₁⟩ := @windowed_clocked 1750000000 1750000100
    (by decide) (by decide) (by decide) 1 [.call (.hwmStore 1750000050) k₀', windowedVerify] rfl
  have hload' : Pool.Step sharedEnv
      ⟨1750000000, [.call (.hwmStore 1750000050) k₀', .call .hwmLoad k₁]⟩
      (1, ⟨.hwmLoad, (.ok, 1750000000)⟩)
      ⟨1750000000, [.call (.hwmStore 1750000050) k₀', .call (.hwmStore 1750000100) k₁']⟩ :=
    ⟨k₁, rfl, ⟨rfl, rfl⟩, by rw [hload₁]; rfl⟩
  have hstore' : Pool.Step sharedEnv
      ⟨1750000000, [.call (.hwmStore 1750000050) k₀', .call (.hwmStore 1750000100) k₁']⟩
      (1, ⟨.hwmStore 1750000100, .ok⟩)
      ⟨1750000100, [.call (.hwmStore 1750000050) k₀', .ret (.ok, none)]⟩ :=
    ⟨k₁', rfl, ⟨rfl, rfl⟩, by rw [hret₁]; rfl⟩
  have hstore : Pool.Step sharedEnv
      ⟨1750000100, [.call (.hwmStore 1750000050) k₀', .ret (.ok, none)]⟩
      (0, ⟨.hwmStore 1750000050, .ok⟩) ⟨1750000050, [.ret (.ok, none), .ret (.ok, none)]⟩ :=
    ⟨k₀', rfl, ⟨rfl, rfl⟩, by rw [hret₀]; rfl⟩
  have hrun := Run.append_iff.mpr ⟨_, hrun₀, Run.cons hload (Run.append_iff.mpr
    ⟨_, hrun₁, Run.cons hload' (Run.cons hstore' (Run.cons hstore (.nil _)))⟩)⟩
  refine ⟨_, _, hrun, rfl, ?_, rfl⟩
  simp [Pool.proj]

end VectiLicense.L4.Mark
