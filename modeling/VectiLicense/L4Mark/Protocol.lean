import VectiLicense.L3Verify.Accept

/-!
# How one call uses the mark

Under `VL_FLAG_ENFORCE_HWM` every call of `vl_verify` follows one protocol,
whatever the callbacks answer: identity reads, then the clock, then `hwm_load`,
then, if the clock is above what was loaded, one `hwm_store` of the clock.

* `markProtocol`: that automaton; its phase remembers what was read.
* `Phase.step`: the ways an allowed call can move it (`PhaseStep`).
* `vlVerify_wp`: `vl_verify` follows it, and returns `VL_OK` only in a phase
  where the mark is known to have reached the reading.
* `reading_unique`: the phase's reading is the one the clock gave.
-/
namespace VectiLicense.L4.Mark

open VectiLicense.Core VectiLicense.L0 VectiLicense.L1.Base32 VectiLicense.L3

/-- How far step 6 has come. -/
inductive Phase where
  | identity
  | clocked (now : UInt32)
  | loaded (now mark : UInt32)
  | stored (now : UInt32)
  | failed
  deriving DecidableEq, Repr

/-- The calls a phase leaves. -/
def Phase.allowed : Phase → HalCall → Prop
  | .identity, .readIdSegment _ => True
  | .identity, .nowEpoch => True
  | .clocked _, .hwmLoad => True
  | .loaded now mark, .hwmStore v => v = now ∧ mark < now
  | _, _ => False

def Phase.next : Phase → (e : HalCall) → e.Resp → Phase
  | ph, .readIdSegment _, _ => ph
  | _, .nowEpoch, r => if r.1 = .ok then .clocked r.2 else .failed
  | .clocked now, .hwmLoad, r => if r.1 = .ok then .loaded now r.2 else .failed
  | .loaded now _, .hwmStore _, r => if r = .ok then .stored now else .failed
  | ph, _, _ => ph

def markProtocol : Protocol HalCall.Resp Phase := ⟨Phase.allowed, Phase.next⟩

/-- The ways an allowed call and its answer move a phase. -/
inductive PhaseStep : Phase → HalEvent → Phase → Prop where
  | read {idx : UInt32} {r : SegRead} : PhaseStep .identity ⟨.readIdSegment idx, r⟩ .identity
  | clock {now : UInt32} : PhaseStep .identity ⟨.nowEpoch, (.ok, now)⟩ (.clocked now)
  | clockFailed {st : VlStatus} {now : UInt32} : st ≠ .ok →
      PhaseStep .identity ⟨.nowEpoch, (st, now)⟩ .failed
  | load {now mark : UInt32} :
      PhaseStep (.clocked now) ⟨.hwmLoad, (.ok, mark)⟩ (.loaded now mark)
  | loadFailed {now mark : UInt32} {st : VlStatus} : st ≠ .ok →
      PhaseStep (.clocked now) ⟨.hwmLoad, (st, mark)⟩ .failed
  | store {now mark : UInt32} : mark < now →
      PhaseStep (.loaded now mark) ⟨.hwmStore now, .ok⟩ (.stored now)
  | storeFailed {now mark : UInt32} {st : VlStatus} : mark < now → st ≠ .ok →
      PhaseStep (.loaded now mark) ⟨.hwmStore now, st⟩ .failed

theorem Phase.step {ph : Phase} {e : HalCall} {r : e.Resp} (ha : ph.allowed e) :
    PhaseStep ph ⟨e, r⟩ (ph.next e r) := by
  cases ph with
  | identity =>
    cases e with
    | readIdSegment idx => exact .read
    | nowEpoch =>
      obtain ⟨st, now⟩ := r
      by_cases hst : st = .ok
      · subst hst
        exact .clock
      · rw [show Phase.identity.next .nowEpoch (st, now) = .failed from if_neg hst]
        exact .clockFailed hst
    | _ => exact ha.elim
  | clocked now =>
    cases e with
    | hwmLoad =>
      obtain ⟨st, mark⟩ := r
      by_cases hst : st = .ok
      · subst hst
        exact .load
      · rw [show (Phase.clocked now).next .hwmLoad (st, mark) = .failed from if_neg hst]
        exact .loadFailed hst
    | _ => exact ha.elim
  | loaded now mark =>
    cases e with
    | hwmStore v =>
      obtain ⟨rfl, hlt⟩ := ha
      by_cases hst : r = .ok
      · subst hst
        exact .store hlt
      · rw [show (Phase.loaded v mark).next (.hwmStore v) r = .failed from if_neg hst]
        exact .storeFailed hlt hst
    | _ => exact ha.elim
  | stored | failed => exact ha.elim

/-- The clock reading behind a phase. -/
def Phase.reading? : Phase → Option UInt32
  | .clocked now | .loaded now _ | .stored now => some now
  | .identity | .failed => none

/-- The mark has reached the reading: it was there already, or was stored. -/
def Phase.Reached : Phase → Prop
  | .loaded now mark => now = mark
  | .stored _ => True
  | _ => False

/-- A stage of `vl_verify` passes in a phase with `C`, or fails with a status
that is not `VL_OK`. -/
def StageOk {α : Type} (C : Phase → Prop) (ph : Phase) : Except VlStatus α → Prop
  | .ok _ => C ph
  | .error rc => rc ≠ .ok

theorem StageOk.failed {α : Type} {C : Phase → Prop} {ph : Phase} {rc : VlStatus} (h : rc ≠ .ok) :
    StageOk C ph (.error rc : Except VlStatus α) := h

/-- `VL_OK` stands for a mark that reached the reading. -/
def CallOk (ph : Phase) (v : VlStatus × Option VlLicense) : Prop := v.1 = .ok → ph.Reached

variable {cfg : VlConfig} {hal : HalMask}

theorem advanceMark_wp {now mark : UInt32} (h : ¬ now < mark) :
    markProtocol.wp (advanceMark now mark).run (StageOk Phase.Reached) (.loaded now mark) := by
  unfold advanceMark
  split
  · rename_i hlt
    rw [Protocol.wp_liftE_bind]
    refine ⟨⟨rfl, hlt⟩, fun st => ?_⟩
    rw [Protocol.wp_ret, Protocol.wp_failIf]
    refine ⟨fun _ => .failed (fun h => by cases h), fun hst => ?_⟩
    rw [Decidable.not_not.mp hst]
    exact trivial
  · rename_i hlt
    exact UInt32.le_antisymm (UInt32.not_lt.mp hlt) (UInt32.not_lt.mp h)

theorem checkMark_wp {lic : VlLicense} {now : UInt32} :
    markProtocol.wp (checkMark lic now).run (StageOk Phase.Reached) (.clocked now) := by
  unfold checkMark
  rw [Protocol.wp_liftE_bind]
  refine ⟨trivial, fun ⟨st, mark⟩ => ?_⟩
  rw [Protocol.wp_ret, Protocol.wp_failIf_bind]
  refine ⟨fun _ => .failed (fun h => by cases h), fun hst => ?_⟩
  obtain rfl : st = .ok := Decidable.not_not.mp hst
  rw [Protocol.wp_failIf_bind]
  refine ⟨fun _ => .failed (fun h => by cases h), fun hlt => ?_⟩
  rw [Protocol.wp_bindE]
  refine Protocol.wp_mono _ (fun ph r hr => ?_) (advanceMark_wp hlt)
  cases r with
  | ok => exact hr
  | error => exact hr

theorem checkTime_wp {lic : VlLicense} (hflag : cfg.enforceHwm) (hclock : hal.nowEpoch = true) :
    markProtocol.wp (checkTime cfg hal lic).run (StageOk Phase.Reached) .identity := by
  unfold checkTime
  rw [if_neg (by simp [hclock]), Protocol.wp_liftE_bind]
  refine ⟨trivial, fun ⟨st, now⟩ => ?_⟩
  rw [Protocol.wp_ret, Protocol.wp_failIf_bind]
  refine ⟨fun _ => .failed (fun h => by cases h), fun hst => ?_⟩
  obtain rfl : st = .ok := Decidable.not_not.mp hst
  rw [Protocol.wp_failIf_bind]
  refine ⟨fun _ => .failed (fun h => by cases h), fun _ => ?_⟩
  rw [Protocol.wp_failIf_bind]
  refine ⟨fun _ => .failed (fun h => by cases h), fun _ => ?_⟩
  rw [if_pos hflag]
  exact checkMark_wp

variable [Target] {cr : Crypto}

omit [Target] in
theorem bindDevice_wp {lic : VlLicense} :
    markProtocol.wp (bindDevice cr hal lic).run (StageOk (· = .identity)) .identity := by
  have hread : ∀ e, IsIdRead e →
      markProtocol.allowed .identity e ∧ ∀ r, markProtocol.next .identity e r = .identity := by
    intro e he
    cases e with
    | readIdSegment idx => exact ⟨trivial, fun _ => rfl⟩
    | _ => exact he.elim
  unfold bindDevice
  rw [Protocol.wp_liftE_bind]
  refine Protocol.wp_only _ (fingerprint_only _ _) hread fun ⟨rc, fp⟩ => ?_
  rw [Protocol.wp_failIf_bind]
  refine ⟨fun hrc => hrc, fun _ => ?_⟩
  rw [Protocol.wp_failIf_bind]
  exact ⟨fun _ => .failed (fun h => by cases h), fun _ => rfl⟩

theorem verifySteps_wp {keys : List VlPubkey} {blob : CStr} (hflag : cfg.enforceHwm)
    (hclock : hal.nowEpoch = true) :
    markProtocol.wp (verifySteps cr cfg keys hal blob).run (StageOk Phase.Reached) .identity := by
  unfold verifySteps
  rw [Protocol.wp_ofExcept_bind]
  refine ⟨fun rc hauth => (authenticate_error hauth).1, fun lic _ => ?_⟩
  rw [Protocol.wp_bindE]
  refine Protocol.wp_mono _ (fun ph r hr => ?_) bindDevice_wp
  cases r with
  | error rc => exact hr
  | ok lic =>
    obtain rfl : ph = .identity := hr
    dsimp only
    rw [Protocol.wp_ofExcept_bind]
    refine ⟨fun rc hrev => ?_, fun lic _ => checkTime_wp hflag hclock⟩
    rw [checkRevocation_error hrev]
    exact .failed (fun h => by cases h)

/-- **Every call follows the protocol.** -/
theorem vlVerify_wp (hflag : cfg.enforceHwm) (blob : Option CStr) (hal : Option HalMask)
    (out : Option VlLicense) :
    markProtocol.wp (vlVerify cr blob (some cfg) hal out) CallOk .identity := by
  unfold vlVerify
  cases hargs : checkArgs blob (some cfg) hal with
  | error rc =>
    intro hok
    rw [checkArgs_error hargs] at hok
    cases hok
  | ok a =>
    obtain ⟨str, c, keys, m⟩ := a
    obtain ⟨-, hc, -, -, -, -, hhwm⟩ := checkArgs_ok_iff.mp hargs
    cases hc
    dsimp only
    rw [Protocol.wp_bind]
    refine Protocol.wp_mono _ (fun ph r hr => ?_) (verifySteps_wp hflag (hhwm hflag).1)
    cases r with
    | ok lic => exact fun _ => hr
    | error rc => exact fun hok => absurd hok hr

omit [Target] in
theorem Phase.next_reading {ph : Phase} {e : HalCall} {r : e.Resp} {now : UInt32}
    (ha : ph.allowed e) (h : ph = .failed ∨ ph.reading? = some now) :
    ph.next e r = .failed ∨ (ph.next e r).reading? = some now := by
  have hstep := Phase.step (r := r) ha
  generalize ph.next e r = ph' at hstep ⊢
  cases hstep with
  | read | clock | clockFailed => rcases h with h | h <;> cases h
  | load | store => exact h.imp_left nofun
  | loadFailed | storeFailed => exact .inl rfl

omit [Target] in
/-- A reading in a followed trace is the phase's, unless the call has failed. -/
theorem reading_unique {t : List HalEvent} (h : markProtocol.Follows .identity t) {now : UInt32}
    (hnow : ⟨.nowEpoch, (.ok, now)⟩ ∈ t) :
    markProtocol.after .identity t = .failed ∨
      (markProtocol.after .identity t).reading? = some now := by
  obtain ⟨u, v, rfl⟩ := List.append_of_mem hnow
  have htail := ((Protocol.follows_append _).mp h).2.2
  rw [Protocol.after_append, Protocol.after_cons]
  exact Protocol.Follows.inv markProtocol (I := fun ph => ph = .failed ∨ ph.reading? = some now)
    (fun _ _ _ ha hph => Phase.next_reading ha hph) htail (.inr rfl)

end VectiLicense.L4.Mark
