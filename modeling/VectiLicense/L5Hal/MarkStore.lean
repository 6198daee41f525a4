import VectiLicense.L4Mark.Protocol

/-!
# What a mark store must do

The contract that a HAL's storage has to meet for rollback protection to hold
over time, whatever fails. `persisted` is the mark that a fault-free read of
the medium would report, `none` where it reports an error:

* `MarkStore`: a load that succeeds reports what is persisted; a store leaves
  what was there, the new value, or something unreadable, and not the first of
  these once it has reported success.
* `step_atLeast`: over such a store no callback of `vl_verify` brings the
  persisted mark below anything it was at least.
* `never_forgets`: over whole runs, an acknowledged mark is never forgotten.
-/
namespace VectiLicense.L5

open VectiLicense.Core VectiLicense.L0 VectiLicense.L1.Base32 VectiLicense.L3 VectiLicense.L4.Mark

variable {σ : Type}

structure MarkStore (env : Env HalCall.Resp σ) (persisted : σ → Option UInt32) : Prop where
  load : ∀ s v s', env .hwmLoad s (.ok, v) s' → persisted s = some v
  store : ∀ v s r s', env (.hwmStore v) s r s' →
    persisted s' = persisted s ∨ persisted s' = none ∨ persisted s' = some v
  stored : ∀ v s s', env (.hwmStore v) s .ok s' → persisted s' = none ∨ persisted s' = some v
  keep : ∀ e s r s', (∀ v, e ≠ .hwmStore v) → env e s r s' → persisted s' = persisted s

/-- Whatever is readable is at least `u`. -/
def AtLeast (persisted : σ → Option UInt32) (u : UInt32) (s : σ) : Prop :=
  ∀ m, persisted s = some m → u ≤ m

/-- A store only of more than is persisted. -/
def StoresMore (persisted : σ → Option UInt32) (s : σ) (ev : HalEvent) : Prop :=
  ∀ v, ev.1 = .hwmStore v → ∃ m, persisted s = some m ∧ m < v

variable {env : Env HalCall.Resp σ} {persisted : σ → Option UInt32}

theorem step_atLeast (hs : MarkStore env persisted) {u : UInt32} {s s' : σ} {ev : HalEvent}
    (h : env ev.1 s ev.2 s') (hmore : StoresMore persisted s ev) (hu : AtLeast persisted u s) :
    AtLeast persisted u s' := by
  intro m hm
  by_cases hst : ∃ v, ev.1 = .hwmStore v
  · obtain ⟨e, r⟩ := ev
    obtain ⟨v, rfl⟩ := hst
    obtain ⟨m₀, hm₀, hlt⟩ := hmore v rfl
    rcases hs.store v s r s' h with hp | hp | hp
    · exact hu m (hp ▸ hm)
    · rw [hp] at hm
      cases hm
    · rw [hp, Option.some.injEq] at hm
      rw [← hm]
      exact UInt32.le_trans (hu m₀ hm₀) (UInt32.le_of_lt hlt)
  · rw [hs.keep _ _ _ _ (fun v hv => hst ⟨v, hv⟩) h] at hm
    exact hu m hm

/-! ## Calls -/

/-- What a call in phase `ph` knows: a loaded mark is still the persisted one. -/
def LoadedIsPersisted (persisted : σ → Option UInt32) : Phase → σ → Prop
  | .loaded _ mark, s => persisted s = some mark
  | _, _ => True

theorem loadedIsPersisted_step (hs : MarkStore env persisted) {ph : Phase} {e : HalCall} {s s' : σ}
    {r : e.Resp} (ha : ph.allowed e) (h : env e s r s') :
    LoadedIsPersisted persisted (ph.next e r) s' := by
  have hstep := Phase.step (r := r) ha
  generalize ph.next e r = ph' at hstep ⊢
  cases hstep with
  | load =>
    change persisted s' = some _
    rw [hs.keep .hwmLoad _ _ _ (fun _ hv => nomatch hv) h]
    exact hs.load _ _ _ h
  | _ => trivial

theorem loadedIsPersisted_stores {ph : Phase} {e : HalCall} {s : σ} {r : e.Resp}
    (hp : LoadedIsPersisted persisted ph s) (ha : ph.allowed e) :
    StoresMore persisted s ⟨e, r⟩ := by
  rintro v rfl
  cases ph with
  | loaded now mark => exact ⟨mark, hp, by rw [ha.1]; exact ha.2⟩
  | _ => exact ha.elim

/-- One `vl_verify` call as it happened. -/
structure Verified where
  blob : Option CStr
  cfg : VlConfig
  hal : Option HalMask
  out : Option VlLicense
  trace : List HalEvent
  val : VlStatus × Option VlLicense

/-- One call under `VL_FLAG_ENFORCE_HWM`, on the storage `env`. -/
def VerifyOn [Target] (cr : Crypto) (env : Env HalCall.Resp σ) (s : σ) (l : Verified) (s' : σ) :
    Prop :=
  l.cfg.enforceHwm ∧ Prog.Exec env (vlVerify cr l.blob (some l.cfg) l.hal l.out) s l.trace l.val s'

/-- The callbacks of a run, in order. -/
def callbacks (calls : List Verified) : List HalEvent := calls.flatMap Verified.trace

variable [Target] {cr : Crypto}

theorem verifyOn_events (hs : MarkStore env persisted) {s s' : σ} {l : Verified}
    (h : VerifyOn cr env s l s') :
    Run (fun s ev s' => env ev.1 s ev.2 s' ∧ StoresMore persisted s ev) s l.trace s' :=
  Protocol.wp_run markProtocol (I := LoadedIsPersisted persisted)
    (fun _ _ _ _ _ _ ha he => loadedIsPersisted_step hs ha he)
    (fun _ _ _ _ hp ha => loadedIsPersisted_stores hp ha)
    (vlVerify_wp h.1 l.blob l.hal l.out) h.2 trivial

theorem run_events (hs : MarkStore env persisted) {s s' : σ} {calls : List Verified}
    (h : Run (VerifyOn cr env) s calls s') :
    Run (fun s ev s' => env ev.1 s ev.2 s' ∧ StoresMore persisted s ev) s (callbacks calls) s' := by
  induction h with
  | nil s => exact .nil s
  | cons h₁ _ ih => exact Run.append_iff.mpr ⟨_, verifyOn_events hs h₁, ih⟩

/-- Once `hwm_store(v)` has returned `VL_OK`, no `hwm_load` returns `VL_OK` with less. -/
def NeverForgets (t : List HalEvent) : Prop :=
  ∀ t₁ t₂ t₃ v r, t = t₁ ++ ⟨.hwmStore v, .ok⟩ :: (t₂ ++ ⟨.hwmLoad, (.ok, r)⟩ :: t₃) → v ≤ r

/-- No callback brings the persisted mark below anything it was at least. -/
def NeverDecreases (env : Env HalCall.Resp σ) (persisted : σ → Option UInt32) :
    σ → List HalEvent → σ → Prop :=
  Run fun s ev s' => env ev.1 s ev.2 s' ∧ ∀ u, AtLeast persisted u s → AtLeast persisted u s'

omit [Target] in
theorem NeverDecreases.atLeast {s s' : σ} {t : List HalEvent}
    (h : NeverDecreases env persisted s t s') {u : UInt32} (hu : AtLeast persisted u s) :
    AtLeast persisted u s' :=
  Run.inv (fun _ _ _ hstep => hstep.2 u) h hu

/-- **An acknowledged mark is never forgotten**, and the persisted one never decreases. -/
theorem never_forgets (hs : MarkStore env persisted) {s s' : σ} {calls : List Verified}
    (h : Run (VerifyOn cr env) s calls s') :
    NeverForgets (callbacks calls) ∧ NeverDecreases env persisted s (callbacks calls) s' := by
  have hrun : NeverDecreases env persisted s (callbacks calls) s' :=
    (run_events hs h).imp fun _ _ _ hstep =>
      ⟨hstep.1, fun _ => step_atLeast hs hstep.1 hstep.2⟩
  refine ⟨fun t₁ t₂ t₃ v r ht => ?_, hrun⟩
  rw [ht] at hrun
  obtain ⟨s₁, -, hrun⟩ := Run.append_iff.mp hrun
  obtain ⟨s₂, hstore, hrun⟩ := Run.cons_iff.mp hrun
  obtain ⟨s₃, hmid, hrun⟩ := Run.append_iff.mp hrun
  obtain ⟨s₄, hload, -⟩ := Run.cons_iff.mp hrun
  have hv : AtLeast persisted v s₂ := by
    intro m hm
    rcases hs.stored v s₁ s₂ hstore.1 with hp | hp
    · rw [hp] at hm
      cases hm
    · rw [hp, Option.some.injEq] at hm
      rw [hm]
      exact UInt32.le_refl _
  exact NeverDecreases.atLeast hmid hv r (hs.load s₃ r s₄ hload.1)

end VectiLicense.L5
