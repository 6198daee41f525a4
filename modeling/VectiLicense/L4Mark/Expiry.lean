import VectiLicense.L4Mark.Device

/-!
# Expired licences and the clock

`VL_FLAG_ENFORCE_HWM` is there so that "winding the clock back does not
resurrect an expired licence" (examples/posix/vl_activate.c:218-223). The mark
it keeps is not "the highest timestamp ever seen" (docs/THREAT_MODEL.md): the
window check stands before the high-water mark step and leaves by `fail:`, so
a reading past `not_after` is never remembered. Over a faithful mark store:

* `step_expected`: an entitled call's status is a function of clock and mark.
* `expired_iff_overtaken`: no expired licence comes back exactly when every
  later reading inside its window is below the mark already.
* `resurrected`: the shortest run in which one does come back.
* `expired_iff_readings`: the condition in terms of the first mark and the
  clock readings alone.
* `forward_clock`: a clock that only moves forward resurrects nothing.
-/
namespace VectiLicense.L4.Mark

open VectiLicense.Core VectiLicense.L0 VectiLicense.L1.Base32 VectiLicense.L3

/-! ## A faithful store -/

variable [Target] {cr : Crypto} {cfg : VlConfig} {hal : HalMask} {ids : UInt32 → SegRead}

theorem step_expected (he : Enforced cfg hal) {m m' : UInt32} {l : Call}
    (h : Step cr cfg hal ids False m l m') :
    (∃ rc, entitled cr cfg hal ids l.blob = .error rc ∧ l.status ≠ .ok ∧ m' = m) ∨
    (∃ lic, entitled cr cfg hal ids l.blob = .ok lic ∧
      (l.status, l.result) = verdict l.out (expected lic l.clock m).1 ∧
      m' = (expected lic l.clock m).2) := by
  rcases call_cases h with ⟨rc, hent, hrej, -, hv, hm⟩ | ⟨lic, t₁, t₂, r, hent, -, -, ht, hv⟩
  · exact .inl ⟨rc, hent, by rw [(Prod.mk.inj hv).1]; exact hrej.1, hm⟩
  · have hok : ∀ ev ∈ t₂, ¬ StorageFails ev := fun ev hev => by
      obtain ⟨_, _, hans⟩ := (exec_checkTime.mpr ht).answered ev hev
      exact devEnv_noFault hans
    have hexp := timeStep_expected he ht hok
    exact .inr ⟨lic, hent, by rw [hv, ← hexp], by rw [← hexp]⟩

/-- The clock was read, at or past `not_before`, and past `not_after`. -/
def Expires (lic : VlLicense) (l : Call) : Prop :=
  l.clock.1 = .ok ∧ ¬ tooEarly lic l.reading ∧ tooLate lic l.reading

/-- The clock was read, inside the window. -/
def InWindow (lic : VlLicense) (l : Call) : Prop :=
  l.clock.1 = .ok ∧ ¬ tooEarly lic l.reading ∧ ¬ tooLate lic l.reading

omit [Target] in
theorem expected_expired_iff {lic : VlLicense} {l : Call} {m : UInt32} :
    (verdict l.out (expected lic l.clock m).1).1 = .errExpired ↔ Expires lic l := by
  unfold expected Expires Call.reading
  by_cases h₁ : l.clock.1 = .ok
  · by_cases h₂ : tooEarly lic l.clock.2
    · simp [h₁, h₂, verdict]
    by_cases h₃ : tooLate lic l.clock.2
    · simp [h₁, h₂, h₃, verdict]
    by_cases h₄ : l.clock.2 < m <;> simp [h₁, h₂, h₃, h₄, verdict]
  · simp [h₁, verdict]

omit [Target] in
theorem expected_ok_iff {lic : VlLicense} {l : Call} {m : UInt32} :
    (verdict l.out (expected lic l.clock m).1).1 = .ok ↔ InWindow lic l ∧ m ≤ l.reading := by
  unfold expected InWindow Call.reading
  by_cases h₁ : l.clock.1 = .ok
  · by_cases h₂ : tooEarly lic l.clock.2
    · simp [h₁, h₂, verdict]
    by_cases h₃ : tooLate lic l.clock.2
    · simp [h₁, h₂, h₃, verdict]
    by_cases h₄ : l.clock.2 < m <;> simp [h₁, h₂, h₃, h₄, verdict, ← UInt32.not_lt]
  · simp [h₁, verdict]

omit [Target] in
theorem expected_mark_le_iff {lic : VlLicense} {l : Call} {m v : UInt32} :
    (expected lic l.clock m).2 ≤ v ↔ m ≤ v ∧ (InWindow lic l → l.reading ≤ v) := by
  unfold expected InWindow Call.reading
  by_cases h₁ : l.clock.1 = .ok
  · by_cases h₂ : tooEarly lic l.clock.2
    · simp [h₁, h₂]
    by_cases h₃ : tooLate lic l.clock.2
    · simp [h₁, h₂, h₃]
    by_cases h₄ : l.clock.2 < m
    · simp only [h₁, h₂, h₃, h₄, ne_eq, not_true, not_false_eq_true, if_true, if_false, true_and,
        forall_const]
      exact ⟨fun h => ⟨h, UInt32.le_trans (UInt32.le_of_lt h₄) h⟩, And.left⟩
    · simp only [h₁, h₂, h₃, h₄, ne_eq, not_true, not_false_eq_true, if_false, true_and,
        forall_const]
      exact ⟨fun h => ⟨UInt32.le_trans (UInt32.not_lt.mp h₄) h, h⟩, And.right⟩
  · simp [h₁]

/-! ## Runs -/

/-- `l₁` comes before `l₂` in the run. -/
def Before (calls : List Call) (l₁ l₂ : Call) : Prop :=
  ∃ as bs cs, calls = as ++ l₁ :: (bs ++ l₂ :: cs)

/-- Once `VL_ERR_EXPIRED`, never again `VL_OK` for the same blob. -/
def NeverResurrected (calls : List Call) : Prop :=
  ∀ l₁ l₂, Before calls l₁ l₂ → l₂.blob = l₁.blob → l₁.status = .errExpired → l₂.status ≠ .ok

/-- After a call whose clock was past the end of its entitled blob, every call
for that blob whose clock is back inside the window comes when the mark is
already above that reading. -/
def Overtaken (cr : Crypto) (cfg : VlConfig) (hal : HalMask) (ids : UInt32 → SegRead)
    (calls : List Call) : Prop :=
  ∀ l₁ l₂ lic, Before calls l₁ l₂ → l₂.blob = l₁.blob →
    entitled cr cfg hal ids l₁.blob = .ok lic → Expires lic l₁ → InWindow lic l₂ →
    l₂.reading < l₂.before

/-- Two calls of a run, one before the other, are two steps. -/
theorem Before.steps {faults : Prop} {m m' : UInt32} {calls : List Call} {l₁ l₂ : Call}
    (hb : Before calls l₁ l₂) (h : Run (Step cr cfg hal ids faults) m calls m') :
    (∃ m₁, Step cr cfg hal ids faults l₁.before l₁ m₁) ∧
      ∃ m₂, Step cr cfg hal ids faults l₂.before l₂ m₂ := by
  obtain ⟨as, bs, cs, rfl⟩ := hb
  obtain ⟨s₁, -, htail⟩ := Run.append_iff.mp h
  obtain ⟨s₂, hstep₁, htail⟩ := Run.cons_iff.mp htail
  obtain ⟨s₃, -, htail⟩ := Run.append_iff.mp htail
  obtain ⟨s₄, hstep₂, -⟩ := Run.cons_iff.mp htail
  exact ⟨⟨s₂, by rw [hstep₁.1]; exact hstep₁⟩, ⟨s₄, by rw [hstep₂.1]; exact hstep₂⟩⟩

/-- An expired licence comes back when the clock is back inside the window and
the mark has not passed it. -/
theorem Before.revived_iff (he : Enforced cfg hal) {m m' : UInt32} {calls : List Call}
    (h : Run (Step cr cfg hal ids False) m calls m') {l₁ l₂ : Call} (hb : Before calls l₁ l₂)
    (hblob : l₂.blob = l₁.blob) :
    (l₁.status = .errExpired ∧ l₂.status = .ok) ↔
      ∃ lic, entitled cr cfg hal ids l₁.blob = .ok lic ∧ Expires lic l₁ ∧ InWindow lic l₂ ∧
        l₂.before ≤ l₂.reading := by
  obtain ⟨⟨m₁, hstep₁⟩, m₂, hstep₂⟩ := hb.steps h
  rcases step_expected he hstep₂ with ⟨rc, hent, hne, -⟩ | ⟨lic, hent, hv₂, -⟩
  · rw [hblob] at hent
    refine ⟨fun hst => absurd hst.2 hne, fun ⟨lic, hent', _⟩ => ?_⟩
    rw [hent] at hent'
    cases hent'
  rw [hblob] at hent
  rcases step_expected he hstep₁ with ⟨rc, hent', -⟩ | ⟨lic', hent', hv₁, -⟩
  · rw [hent] at hent'
    cases hent'
  rw [hent, Except.ok.injEq] at hent'
  subst hent'
  rw [show l₁.status = _ from congrArg Prod.fst hv₁, show l₂.status = _ from congrArg Prod.fst hv₂,
    expected_expired_iff, expected_ok_iff]
  refine ⟨fun ⟨hexp, hin, hle⟩ => ⟨lic, hent, hexp, hin, hle⟩, ?_⟩
  rintro ⟨lic', hent', hexp, hin, hle⟩
  rw [hent, Except.ok.injEq] at hent'
  subst hent'
  exact ⟨hexp, hin, hle⟩

/-- **When an expired licence stays expired.** -/
theorem expired_iff_overtaken (he : Enforced cfg hal) {m m' : UInt32} {calls : List Call}
    (h : Run (Step cr cfg hal ids False) m calls m') :
    NeverResurrected calls ↔ Overtaken cr cfg hal ids calls := by
  refine ⟨?_, ?_⟩
  · intro hnever l₁ l₂ lic hb hblob hent hexp hin
    rw [← UInt32.not_le]
    intro hle
    obtain ⟨hst₁, hst₂⟩ := (hb.revived_iff he h hblob).mpr ⟨lic, hent, hexp, hin, hle⟩
    exact hnever l₁ l₂ hb hblob hst₁ hst₂
  · intro hover l₁ l₂ hb hblob hst₁ hst₂
    obtain ⟨lic, hent, hexp, hin, hle⟩ := (hb.revived_iff he h hblob).mp ⟨hst₁, hst₂⟩
    exact UInt32.not_lt.mpr hle (hover l₁ l₂ lic hb hblob hent hexp hin)

omit [Target] in
/-- One second past the end, then back. -/
theorem expired_iff_overtaken_windowed : ∃ l₁ l₂ : Call,
    @Run _ _ (@Step host64 fixCrypto fixConfig vltHalFull vltReadIdSegment False) 1750000000
      [l₁, l₂] 1750000000 ∧
    l₁.status = .errExpired ∧ l₂.reading = 1740000000 ∧
    (NeverResurrected [l₁, l₂] ↔
      @Overtaken host64 fixCrypto fixConfig vltHalFull vltReadIdSegment [l₁, l₂]) := by
  obtain ⟨l₁, hstep₁, -, -, -, -, hv₁⟩ := @exists_call host64 _ _ _ _ vltHalFull_enforced _ _
    windowed_entitled False (.ok, 1800000001) none 1750000000
  obtain ⟨l₂, hstep₂, -, hclock, -⟩ := @exists_call host64 _ _ _ _ vltHalFull_enforced _ _
    windowed_entitled False (.ok, 1740000000) none 1750000000
  have hrun := Run.cons hstep₁ (.cons hstep₂ (.nil _))
  exact ⟨l₁, l₂, hrun, (congrArg Prod.fst hv₁).trans (by decide), congrArg Prod.snd hclock,
    @expired_iff_overtaken host64 _ _ _ _ vltHalFull_enforced _ _ _ hrun⟩

omit [Target] in
/-- `FIX_BLOB_WINDOWED` ends at 1800000000. One second later it is expired;
with the clock turned back by that second it is accepted again. -/
theorem resurrected : ∃ l₁ l₂ : Call,
    @Run _ _ (@Step host64 fixCrypto fixConfig vltHalFull vltReadIdSegment False) 1700000000
      [l₁, l₂] 1800000000 ∧
    l₁.clock = (.ok, 1800000001) ∧ l₂.clock = (.ok, 1800000000) ∧
    ¬ NeverResurrected [l₁, l₂] := by
  obtain ⟨l₁, hstep₁, hb₁, hc₁, -, -, hv₁⟩ := @exists_call host64 _ _ _ _ vltHalFull_enforced _ _
    windowed_entitled False (.ok, 1800000001) none 1700000000
  obtain ⟨l₂, hstep₂, hb₂, hc₂, -, -, hv₂⟩ := @exists_call host64 _ _ _ _ vltHalFull_enforced _ _
    windowed_entitled False (.ok, 1800000000) none 1700000000
  refine ⟨l₁, l₂, Run.cons hstep₁ (.cons hstep₂ (.nil _)), hc₁, hc₂, fun hnever => ?_⟩
  exact hnever l₁ l₂ ⟨[], [], [], rfl⟩ (hb₂.trans hb₁.symm)
    ((congrArg Prod.fst hv₁).trans (by decide)) ((congrArg Prod.fst hv₂).trans (by decide))

/-- The mark after a run is the least bound of the first mark and of the
readings inside the window of an entitled blob. -/
theorem run_mark_le_iff (he : Enforced cfg hal) {m m' v : UInt32} {calls : List Call}
    (h : Run (Step cr cfg hal ids False) m calls m') :
    m' ≤ v ↔ m ≤ v ∧ ∀ l ∈ calls, ∀ lic, entitled cr cfg hal ids l.blob = .ok lic →
      InWindow lic l → l.reading ≤ v := by
  induction h with
  | nil m => simp
  | @cons m m₁ m' l ls hstep _ ih =>
    have hone : m₁ ≤ v ↔ m ≤ v ∧ ∀ lic, entitled cr cfg hal ids l.blob = .ok lic →
        InWindow lic l → l.reading ≤ v := by
      rcases step_expected he hstep with ⟨rc, hent, -, rfl⟩ | ⟨lic, hent, -, rfl⟩
      · simp [hent]
      · simp [hent, expected_mark_le_iff]
    rw [ih, hone, List.forall_mem_cons, and_assoc]

/-- The same from the first mark and the readings alone: every reading back
inside the window is below the first mark or below an earlier reading that was
inside the window of its own entitled blob. -/
theorem expired_iff_readings (he : Enforced cfg hal) {m m' : UInt32} {calls : List Call}
    (h : Run (Step cr cfg hal ids False) m calls m') :
    NeverResurrected calls ↔
      ∀ as l₁ bs l₂ cs lic, calls = as ++ l₁ :: (bs ++ l₂ :: cs) → l₂.blob = l₁.blob →
        entitled cr cfg hal ids l₁.blob = .ok lic → Expires lic l₁ → InWindow lic l₂ →
        l₂.reading < m ∨ ∃ l ∈ as ++ l₁ :: bs, ∃ lic', entitled cr cfg hal ids l.blob = .ok lic' ∧
          InWindow lic' l ∧ l₂.reading < l.reading := by
  have hbefore : ∀ {as l₁ bs l₂ cs}, calls = as ++ l₁ :: (bs ++ l₂ :: cs) →
      ∀ v, l₂.before ≤ v ↔ m ≤ v ∧ ∀ l ∈ as ++ l₁ :: bs, ∀ lic,
        entitled cr cfg hal ids l.blob = .ok lic → InWindow lic l → l.reading ≤ v := by
    intro as l₁ bs l₂ cs hcalls v
    rw [hcalls, ← List.cons_append, ← List.append_assoc] at h
    obtain ⟨m₂, hpre, htail⟩ := Run.append_iff.mp h
    obtain ⟨_, hstep, -⟩ := Run.cons_iff.mp htail
    rw [hstep.1]
    exact run_mark_le_iff he hpre
  refine ⟨fun hnever as l₁ bs l₂ cs lic hcalls hblob hent hexp hin => ?_,
    fun hread l₁ l₂ hb hblob hst₁ hst₂ => ?_⟩
  · by_contra hno
    simp only [not_or, not_exists, not_and, UInt32.not_lt] at hno
    have hle := (hbefore hcalls l₂.reading).mpr hno
    have hb : Before calls l₁ l₂ := ⟨as, bs, cs, hcalls⟩
    obtain ⟨hst₁, hst₂⟩ := (hb.revived_iff he h hblob).mpr ⟨lic, hent, hexp, hin, hle⟩
    exact hnever l₁ l₂ hb hblob hst₁ hst₂
  · obtain ⟨lic, hent, hexp, hin, hle⟩ := (hb.revived_iff he h hblob).mp ⟨hst₁, hst₂⟩
    obtain ⟨as, bs, cs, hcalls⟩ := hb
    obtain ⟨hm, hreads⟩ := (hbefore hcalls l₂.reading).mp hle
    rcases hread as l₁ bs l₂ cs lic hcalls hblob hent hexp hin with hlt | ⟨l, hl, lic', he', hin', hlt⟩
    · exact UInt32.not_lt.mpr hm hlt
    · exact UInt32.not_lt.mpr (hreads l hl lic' he' hin') hlt

/-- Where the clock does not go back, nothing comes back with it. -/
theorem forward_clock (he : Enforced cfg hal) {m m' : UInt32} {calls : List Call}
    (h : Run (Step cr cfg hal ids False) m calls m')
    (hfwd : ∀ l₁ l₂, Before calls l₁ l₂ → l₁.reading ≤ l₂.reading) : NeverResurrected calls := by
  intro l₁ l₂ hb hblob hst₁ hst₂
  obtain ⟨lic, -, hexp, hin, -⟩ := (hb.revived_iff he h hblob).mp ⟨hst₁, hst₂⟩
  exact hin.2.2 ⟨hexp.2.2.1, UInt32.lt_of_lt_of_le hexp.2.2.2 (hfwd l₁ l₂ hb)⟩

end VectiLicense.L4.Mark
