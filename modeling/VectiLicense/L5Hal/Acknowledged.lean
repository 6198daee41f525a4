import VectiLicense.L4Mark.Device
import VectiLicense.L5Hal.Posix
import VectiLicense.L5Hal.Esp32

/-!
# Acknowledged marks on the shipped HALs

A mark that `hwm_store` has acknowledged must not be lost to a fault of the
storage under it. Both HALs report a mark of 0 for storage that was "never
written", and both decide that from the mere failure of an open call; the next
`vl_verify` then takes any clock for an advance and overwrites the mark.

* `acknowledged_kept`: without such false misses, and under every other fault,
  no acknowledged mark is forgotten and the persisted one never decreases.
* `acknowledged_forgotten`: one false miss is enough on either HAL.
-/
namespace VectiLicense.L5

open VectiLicense.Core VectiLicense.L0 VectiLicense.L1.Base32 VectiLicense.L3 VectiLicense.L4.Mark

/-! ## Runs of the test suite's licence -/

/-- A call on the storage `env` whose load reports `m` and whose store succeeds. -/
theorem verifyOn_windowed {σ : Type} {env : Env HalCall.Resp σ}
    (hids : ∀ idx s, env (.readIdSegment idx) s (vltReadIdSegment idx) s) {m now : UInt32}
    {s s₁ s' : σ} (hclock : env .nowEpoch s (.ok, now) s) (hload : env .hwmLoad s (.ok, m) s₁)
    (hstore : env (.hwmStore now) s₁ .ok s') (hlt : m < now)
    (hearly : ¬ tooEarly windowedLicense now) (hlate : ¬ tooLate windowedLicense now) :
    ∃ l t, @VerifyOn _ host64 fixCrypto env s l s' ∧ l.val = (.ok, none) ∧
      l.trace = t ++ [⟨.nowEpoch, (.ok, now)⟩, ⟨.hwmLoad, (.ok, m)⟩, ⟨.hwmStore now, .ok⟩] := by
  obtain ⟨t, hexec⟩ := @exec_of_entitled host64 _ _ _ _ _ env hids _ none _ _ _ _ _
    windowed_entitled (.marked rfl hclock hearly hlate (by decide) (.stored hload hlt hstore))
  exact ⟨⟨some FIX_BLOB_WINDOWED, fixConfig, some vltHalFull, none, _, _⟩, t,
    ⟨show fixConfig.enforceHwm by decide, hexec⟩, rfl, rfl⟩

theorem two_calls {σ : Type} {env : Env HalCall.Resp σ}
    (hids : ∀ idx s, env (.readIdSegment idx) s (vltReadIdSegment idx) s)
    (hclock : ∀ now s, env .nowEpoch s (.ok, now) s) {m v r v' : UInt32} {s s₁ s₂ s₃ s' : σ}
    (hload : env .hwmLoad s (.ok, m) s₁) (hstore : env (.hwmStore v) s₁ .ok s₂)
    (hload' : env .hwmLoad s₂ (.ok, r) s₃) (hstore' : env (.hwmStore v') s₃ .ok s')
    (hv : m < v ∧ ¬ tooEarly windowedLicense v ∧ ¬ tooLate windowedLicense v)
    (hv' : r < v' ∧ ¬ tooEarly windowedLicense v' ∧ ¬ tooLate windowedLicense v') :
    ∃ calls t₁ t₂, Run (@VerifyOn _ host64 fixCrypto env) s calls s' ∧
      (∀ l ∈ calls, l.val.1 = .ok) ∧
      callbacks calls = t₁ ++ ⟨.hwmStore v, .ok⟩ :: (t₂ ++ ⟨.hwmLoad, (.ok, r)⟩ ::
        [⟨.hwmStore v', .ok⟩]) := by
  obtain ⟨l, t, hrun, hval, ht⟩ :=
    verifyOn_windowed hids (hclock v s) hload hstore hv.1 hv.2.1 hv.2.2
  obtain ⟨l', t', hrun', hval', ht'⟩ :=
    verifyOn_windowed hids (hclock v' s₂) hload' hstore' hv'.1 hv'.2.1 hv'.2.2
  refine ⟨[l, l'], t ++ [⟨.nowEpoch, (.ok, v)⟩, ⟨.hwmLoad, (.ok, m)⟩],
    t' ++ [⟨.nowEpoch, (.ok, v')⟩], .cons hrun (.cons hrun' (.nil _)), ?_, ?_⟩
  · simp [hval, hval']
  · simp [callbacks, ht, ht']

/-- mirrors hal/posix/vl_hal_posix.c:15 -/
def VL_POSIX_DEFAULT_STATE : List UInt8 := ascii [
  '/', 'v', 'a', 'r', '/', 'l', 'i', 'b', '/', 'v', 'e', 'c', 't', 'i', 'l', 'i', 'c', 'e', 'n',
  's', 'e', '/', 's', 't', 'a', 't', 'e']

def defaultHwmPath : Posix.Path := VL_POSIX_DEFAULT_STATE ++ Posix.HWM_SUFFIX

theorem defaultHwmPath_eq : Posix.statePath VL_POSIX_DEFAULT_STATE Posix.HWM_SUFFIX
    Posix.HWM_PATH_CAP = some defaultHwmPath := by
  decide +kernel

theorem posix_fixed {C : Posix.Fs → Posix.OsEvent → Prop} (hC : ∀ s e r, C s ⟨.other e, r⟩)
    (state : List UInt8) (s : Posix.Fs) :
    (∀ idx, (Posix.posixOs.given C).lower (Posix.hal state) (.readIdSegment idx) s
      (vltReadIdSegment idx) s) ∧
    ∀ now, (Posix.posixOs.given C).lower (Posix.hal state) .nowEpoch s (.ok, now) s :=
  ⟨fun _ => ⟨_, Prog.exec_ask.mpr ⟨rfl, rfl, hC _ _ _⟩⟩,
    fun _ => ⟨_, Prog.exec_ask.mpr ⟨rfl, rfl, hC _ _ _⟩⟩⟩

theorem esp32_fixed {C : Esp32.Flash → Esp32.NvsEvent → Prop} (hC : ∀ s e r, C s ⟨.other e, r⟩)
    (s : Esp32.Flash) :
    (∀ idx, (Esp32.nvs.given C).lower Esp32.hal (.readIdSegment idx) s (vltReadIdSegment idx) s) ∧
    ∀ now, (Esp32.nvs.given C).lower Esp32.hal .nowEpoch s (.ok, now) s :=
  ⟨fun _ => ⟨_, Prog.exec_ask.mpr ⟨rfl, rfl, hC _ _ _⟩⟩,
    fun _ => ⟨_, Prog.exec_ask.mpr ⟨rfl, rfl, hC _ _ _⟩⟩⟩

/-! ## The shipped HALs -/

/-- **When the shipped HALs keep an acknowledged mark.** -/
theorem acknowledged_kept [Target] (cr : Crypto) :
    (∀ state s calls s',
      Run (VerifyOn cr ((Posix.posixOs.given Posix.MissMeansAbsent).lower (Posix.hal state)))
        s calls s' →
      NeverForgets (callbacks calls) ∧
      NeverDecreases ((Posix.posixOs.given Posix.MissMeansAbsent).lower (Posix.hal state))
        (Posix.persisted state) s (callbacks calls) s') ∧
    (∀ s calls s',
      Run (VerifyOn cr ((Esp32.nvs.given Esp32.MissMeansAbsent).lower Esp32.hal)) s calls s' →
      NeverForgets (callbacks calls) ∧
      NeverDecreases ((Esp32.nvs.given Esp32.MissMeansAbsent).lower Esp32.hal)
        Esp32.persisted s (callbacks calls) s') :=
  ⟨fun state _ _ _ h => never_forgets (Posix.posix_store state) h,
    fun _ _ _ h => never_forgets Esp32.esp32_store h⟩

/-- A first call at 1750000000, a second one a second later. -/
theorem acknowledged_kept_windowed :
    (∃ calls s', Run (@VerifyOn _ host64 fixCrypto
        ((Posix.posixOs.given Posix.MissMeansAbsent).lower (Posix.hal VL_POSIX_DEFAULT_STATE)))
        ⟨fun _ => none, []⟩ calls s' ∧ NeverForgets (callbacks calls) ∧
      Posix.persisted VL_POSIX_DEFAULT_STATE s' = some 1750000001) ∧
    (∃ calls s', Run (@VerifyOn _ host64 fixCrypto
        ((Esp32.nvs.given Esp32.MissMeansAbsent).lower Esp32.hal)) ⟨none, none⟩ calls s' ∧
      NeverForgets (callbacks calls) ∧ Esp32.persisted s' = some 1750000001) := by
  refine ⟨?_, ?_⟩
  · have hfixed := @posix_fixed Posix.MissMeansAbsent (fun _ _ _ => Posix.miss_other fun _ => nofun)
      VL_POSIX_DEFAULT_STATE
    have hnone : Posix.persisted VL_POSIX_DEFAULT_STATE ⟨fun _ => none, []⟩ = some 0 := by
      simp only [Posix.persisted, defaultHwmPath_eq]
    obtain ⟨_, hload⟩ := Posix.load_persisted hnone
    obtain ⟨_, s₁, hstore, hp₁⟩ := Posix.store_ok defaultHwmPath_eq ⟨fun _ => none, []⟩ 1750000000
    obtain ⟨_, hload'⟩ := Posix.load_persisted (m := 1750000000) (hp₁.trans (by decide +kernel))
    obtain ⟨_, s₂, hstore', hp₂⟩ := Posix.store_ok defaultHwmPath_eq s₁ 1750000001
    obtain ⟨calls, _, _, hrun, -, -⟩ := two_calls (fun idx s => (hfixed s).1 idx)
      (fun now s => (hfixed s).2 now) ⟨_, hload⟩ ⟨_, hstore⟩ ⟨_, hload'⟩ ⟨_, hstore'⟩ (by decide)
      (by decide)
    exact ⟨calls, s₂, hrun, ((@acknowledged_kept host64 fixCrypto).1 _ _ _ _ hrun).1,
      hp₂.trans (by decide +kernel)⟩
  · have hfixed := @esp32_fixed Esp32.MissMeansAbsent (fun _ _ _ => trivial)
    obtain ⟨_, s₀, hload⟩ := Esp32.load_persisted (s := ⟨none, none⟩) rfl
    obtain ⟨_, s₁, hstore, hp₁⟩ := Esp32.store_ok s₀ 1750000000
    obtain ⟨_, s₂, hload'⟩ := Esp32.load_persisted hp₁
    obtain ⟨_, s₃, hstore', hp₂⟩ := Esp32.store_ok s₂ 1750000001
    obtain ⟨calls, _, _, hrun, -, -⟩ := two_calls (fun idx s => (hfixed s).1 idx)
      (fun now s => (hfixed s).2 now) ⟨_, hload⟩ ⟨_, hstore⟩ ⟨_, hload'⟩ ⟨_, hstore'⟩ (by decide)
      (by decide)
    exact ⟨calls, s₃, hrun, ((@acknowledged_kept host64 fixCrypto).2 _ _ _ hrun).1, hp₂⟩

/-- A store that can report 0 in any state forgets what it acknowledged. -/
theorem forgets_of_false_miss {σ : Type} {env : Env HalCall.Resp σ}
    (hids : ∀ idx s, env (.readIdSegment idx) s (vltReadIdSegment idx) s)
    (hclock : ∀ now s, env .nowEpoch s (.ok, now) s)
    (hload : ∀ s, env .hwmLoad s (.ok, 0) s) (hstore : ∀ v s, ∃ s', env (.hwmStore v) s .ok s')
    (s : σ) :
    ∃ calls s', Run (@VerifyOn _ host64 fixCrypto env) s calls s' ∧ (∀ l ∈ calls, l.val.1 = .ok) ∧
      ¬ NeverForgets (callbacks calls) := by
  obtain ⟨s₁, hstore₁⟩ := hstore 1750000000 s
  obtain ⟨s₂, hstore₂⟩ := hstore 1740000000 s₁
  obtain ⟨calls, t₁, t₂, hrun, hok, ht⟩ := two_calls hids hclock (hload s) hstore₁ (hload s₁)
    hstore₂ (by decide) (by decide)
  refine ⟨calls, s₂, hrun, hok, fun hnever => ?_⟩
  exact absurd (hnever t₁ t₂ _ _ _ ht) (by decide)

/-- A first call at 1750000000 finds no mark and stores one. When the second
opens the storage, the open fails; it stores its own, earlier reading. -/
theorem acknowledged_forgotten :
    (∃ calls s', Run (@VerifyOn _ host64 fixCrypto
        (Posix.posixOs.lower (Posix.hal VL_POSIX_DEFAULT_STATE))) ⟨fun _ => none, []⟩ calls s' ∧
      (∀ l ∈ calls, l.val.1 = .ok) ∧ ¬ NeverForgets (callbacks calls)) ∧
    (∃ calls s', Run (@VerifyOn _ host64 fixCrypto (Esp32.nvs.lower Esp32.hal)) ⟨none, none⟩
        calls s' ∧
      (∀ l ∈ calls, l.val.1 = .ok) ∧ ¬ NeverForgets (callbacks calls)) := by
  refine ⟨?_, ?_⟩
  · refine forgets_of_false_miss (fun _ _ => ⟨_, Prog.exec_ask.mpr ⟨rfl, rfl⟩⟩)
      (fun _ _ => ⟨_, Prog.exec_ask.mpr ⟨rfl, rfl⟩⟩)
      (fun s => ⟨_, (Posix.load_miss (C := fun _ _ => True) defaultHwmPath_eq trivial).given⟩) (fun v s => ?_) _
    obtain ⟨t, s', h, -⟩ := Posix.store_ok defaultHwmPath_eq s v
    exact ⟨s', t, h.given⟩
  · refine forgets_of_false_miss (fun _ _ => ⟨_, Prog.exec_ask.mpr ⟨rfl, rfl⟩⟩)
      (fun _ _ => ⟨_, Prog.exec_ask.mpr ⟨rfl, rfl⟩⟩)
      (fun s => ⟨_, (Esp32.load_miss (C := fun _ _ => True)
        (by decide : Esp32.EspErr.other 0x101 ≠ .espOk) trivial).given⟩) (fun v s => ?_) _
    obtain ⟨t, s', h, -⟩ := Esp32.store_ok s v
    exact ⟨s', t, h.given⟩

end VectiLicense.L5
