import VectiLicense.Core.Checks
import VectiLicense.L3Verify.NoOracle

/-!
# Failure precedence of `vl_verify`

`docs/API.md` lists the checks in order and promises that the first failing
one names the status. `checks` is that list, each entry saying what it asks of
the blob's bytes, the configuration and the HAL's answers.

The entries behind the decode speak of the bytes the blob decodes to, those
behind the fingerprint of the HAL in the state the identity reads left it in:
in that order these exist whenever the entry is reached.

* `IdentityFailure`: how reading the identity can fail, with its status.
* `verifyOn_cases`: every call ends in the verdict of the list, so that the
  list decides it (`verifyOn_first`, `verifyOn_passes`).
* `failure_precedence`: the status of a refusal, and the output it leaves.
-/
namespace VectiLicense.L3

open VectiLicense.Core VectiLicense.L0 VectiLicense.L1.Base32

/-! ## Reading the identity -/

/-- A segment that goes into the fingerprint. -/
def IsSegment (ev : HalEvent) : Prop :=
  ∃ idx r, ev = ⟨.readIdSegment idx, r⟩ ∧ r.status = .ok ∧ r.segLen ≤ VL_ID_SEGMENT_MAX

/-- Reads that end in a failed fingerprint: the HAL's own error behind accepted
segments, a segment longer than the buffer, or no segment at all. -/
inductive IdentityFailure : List HalEvent → VlStatus → Prop where
  | halError {pre : List HalEvent} {idx : UInt32} {r : SegRead} : (∀ ev ∈ pre, IsSegment ev) →
      r.status ≠ .ok → r.status ≠ .errNoMoreSegments →
      IdentityFailure (pre ++ [⟨.readIdSegment idx, r⟩]) r.status
  | overlong {pre : List HalEvent} {idx : UInt32} {r : SegRead} : (∀ ev ∈ pre, IsSegment ev) →
      r.status = .ok → r.segLen > VL_ID_SEGMENT_MAX →
      IdentityFailure (pre ++ [⟨.readIdSegment idx, r⟩]) .errPlatform
  | noSegments {r : SegRead} : r.status = .errNoMoreSegments →
      IdentityFailure [⟨.readIdSegment 0, r⟩] .errPlatform

section
variable {σ : Type} {cr : Crypto} {env : Env HalCall.Resp σ} {s s' : σ} {t : List HalEvent}

/-- A loop that stops with an error read accepted segments up to the faulty one. -/
theorem segmentLoop_failure {n idx : Nat} {ctx : cr.Sha} {accepted : Nat} {rc : VlStatus}
    (h : Prog.Exec env (segmentLoop cr n idx ctx accepted) s t (.error rc) s') :
    ∃ pre i r, (∀ ev ∈ pre, IsSegment ev) ∧ t = pre ++ [⟨.readIdSegment i, r⟩] ∧
      ((r.status ≠ .ok ∧ r.status ≠ .errNoMoreSegments ∧ rc = r.status) ∨
        (r.status = .ok ∧ r.segLen > VL_ID_SEGMENT_MAX ∧ rc = .errPlatform)) := by
  induction n generalizing idx ctx accepted s t with
  | zero =>
    obtain ⟨-, h, -⟩ := Prog.exec_ret.mp h
    cases h
  | succ n ih =>
    obtain ⟨r, s₁, t', rfl, -, h⟩ := Prog.exec_call.mp h
    split at h
    · obtain ⟨-, h, -⟩ := Prog.exec_ret.mp h
      cases h
    rename_i hmore
    split at h
    · rename_i hok
      obtain ⟨rfl, h, -⟩ := Prog.exec_ret.mp h
      cases h
      exact ⟨[], _, r, by simp, rfl, .inl ⟨hok, hmore, rfl⟩⟩
    rename_i hok
    rw [Decidable.not_not] at hok
    split at h
    · rename_i hlen
      obtain ⟨rfl, h, -⟩ := Prog.exec_ret.mp h
      cases h
      exact ⟨[], _, r, by simp, rfl, .inr ⟨hok, hlen, rfl⟩⟩
    · rename_i hlen
      obtain ⟨pre, i, r', hpre, rfl, hr⟩ := ih h
      have hseg : IsSegment ⟨.readIdSegment (UInt32.ofNat idx), r⟩ :=
        ⟨_, r, rfl, hok, Nat.not_lt.mp hlen⟩
      exact ⟨_, i, r', List.forall_mem_cons.mpr ⟨hseg, hpre⟩, rfl, hr⟩

/-- A loop that accepts nothing was told so at once. -/
theorem segmentLoop_accepted {n idx : Nat} {ctx ctx' : cr.Sha} {accepted accepted' : Nat}
    (h : Prog.Exec env (segmentLoop cr n idx ctx accepted) s t (.ok (ctx', accepted')) s') :
    accepted ≤ accepted' ∧ (0 < n → accepted' = accepted →
      ∃ r, t = [⟨.readIdSegment (UInt32.ofNat idx), r⟩] ∧ r.status = .errNoMoreSegments) := by
  induction n generalizing idx ctx accepted s t with
  | zero =>
    obtain ⟨-, h, -⟩ := Prog.exec_ret.mp h
    cases h
    exact ⟨Nat.le_refl _, fun h0 => absurd h0 (Nat.lt_irrefl 0)⟩
  | succ n ih =>
    obtain ⟨r, s₁, t', rfl, -, h⟩ := Prog.exec_call.mp h
    split at h
    · rename_i hmore
      obtain ⟨rfl, h, -⟩ := Prog.exec_ret.mp h
      cases h
      exact ⟨Nat.le_refl _, fun _ _ => ⟨r, rfl, hmore⟩⟩
    split at h
    · obtain ⟨-, h, -⟩ := Prog.exec_ret.mp h
      cases h
    split at h
    · obtain ⟨-, h, -⟩ := Prog.exec_ret.mp h
      cases h
    · obtain ⟨hle, -⟩ := ih h
      exact ⟨by omega, by omega⟩

theorem exec_fingerprint_failure {hal : HalMask} (hid : hal.readIdSegment = true)
    {out : Vector UInt8 32} {rc : VlStatus} {fp : Option (Vector UInt8 32)}
    (h : Prog.Exec env (vlComputeFingerprint cr (some hal) (some out)) s t (rc, fp) s')
    (hrc : rc ≠ .ok) : IdentityFailure t rc := by
  simp only [vlComputeFingerprint, hid, if_true] at h
  obtain ⟨r, s₁, t₁, t₂, rfl, hloop, h⟩ := Prog.exec_bind.mp h
  split at h
  · obtain ⟨rfl, h, -⟩ := Prog.exec_ret.mp h
    cases h
    obtain ⟨pre, i, r, hpre, rfl, hr⟩ := segmentLoop_failure hloop
    rw [List.append_nil]
    rcases hr with ⟨hok, hmore, rfl⟩ | ⟨hok, hlen, rfl⟩
    · exact .halError hpre hok hmore
    · exact .overlong hpre hok hlen
  · split at h
    · rename_i hnone
      obtain ⟨rfl, h, -⟩ := Prog.exec_ret.mp h
      cases h
      obtain ⟨r, rfl, hmore⟩ := (segmentLoop_accepted hloop).2 (by decide) hnone
      exact .noSegments hmore
    · obtain ⟨-, h, -⟩ := Prog.exec_ret.mp h
      cases h
      exact absurd rfl hrc

end

/-! ## The list -/

section
variable {σ : Type} [Target]

/-- Steps 2 and 3 of the source: the blob alone. -/
def blobChecks (cr : Crypto) (str : CStr) (c : VlConfig) (keys : List VlPubkey) :
    List (Check VlStatus) :=
  [⟨∃ b, DecodesTo str b, .errBadFormat⟩,
   ⟨∀ b, DecodesTo str b → b.getD 0 0 = 0x56, .errBadMagic⟩,
   ⟨∀ b, DecodesTo str b → b.getD 1 0 = 1, .errBadVersion⟩,
   ⟨∀ b, DecodesTo str b → b.getD 3 0 = c.family, .errBadFamily⟩,
   ⟨∀ b, DecodesTo str b → ∃ k ∈ keys, k.keyId = b.getD 2 0, .errUnknownKey⟩,
   ⟨∀ b pk, DecodesTo str b → keys.find? (fun k => k.keyId = b.getD 2 0) = some pk →
      cr.vlEd25519Verify ((b.drop 36).take 64) (VL_SIGN_PREFIX ++ [0] ++ b.take 36) pk.key = true,
    .errBadSignature⟩]

/-- The identity reads of a HAL. -/
def identityRun (cr : Crypto) (hal : VlHal σ) (s : σ) :
    Prog.Outcome HalCall.Resp σ (VlStatus × Option (Vector UInt8 32)) :=
  (vlComputeFingerprint cr (some hal.mask) (some (Vector.replicate 32 0))).run hal.handler s

omit [Target] in
theorem identityRun_provided {cr : Crypto} {hal : VlHal σ} {s : σ}
    (h : (identityRun cr hal s).val.1 = .ok) : hal.readIdSegment.isSome := by
  by_contra hno
  have hmask : hal.mask.readIdSegment = false := by simpa [VlHal.mask] using hno
  simp only [identityRun, vlComputeFingerprint, hmask] at h
  cases h

/-- Steps 4 and 5: the device and the deny-list. -/
def deviceChecks (cr : Crypto) (str : CStr) (c : VlConfig) (hal : VlHal σ) (s : σ) :
    List (Check VlStatus) :=
  [⟨(identityRun cr hal s).val.1 = .ok, (identityRun cr hal s).val.1⟩,
   ⟨∀ b fp, DecodesTo str b → (identityRun cr hal s).val.2 = some fp →
      fp.toList.take 16 = (b.drop 8).take 16, .errDeviceMismatch⟩,
   ⟨∀ b, DecodesTo str b → NotRevoked c (le32 b 32), .errRevoked⟩]

/-- Step 6 up to the window, with the clock asked in state `s`. -/
def clockChecks (str : CStr) (c : VlConfig) (hal : VlHal σ) (s : σ) : List (Check VlStatus) :=
  [⟨hal.nowEpoch = none → ¬ c.requireClock, .errNoClock⟩,
   ⟨hal.nowEpoch.isSome → (hal.handler .nowEpoch s).1.1 = .ok, .errPlatform⟩,
   ⟨hal.nowEpoch.isSome → ∀ b, DecodesTo str b →
      le32 b 24 = 0 ∨ le32 b 24 ≤ (hal.handler .nowEpoch s).1.2, .errNotYetValid⟩,
   ⟨hal.nowEpoch.isSome → ∀ b, DecodesTo str b →
      le32 b 28 = 0 ∨ (hal.handler .nowEpoch s).1.2 ≤ le32 b 28, .errExpired⟩]

/-- The mark, asked for in state `s` with the clock at `now`. -/
def markChecks (c : VlConfig) (hal : VlHal σ) (now : UInt32) (s : σ) : List (Check VlStatus) :=
  [⟨hal.nowEpoch.isSome → c.enforceHwm → (hal.handler .hwmLoad s).1.1 = .ok, .errPlatform⟩,
   ⟨hal.nowEpoch.isSome → c.enforceHwm → (hal.handler .hwmLoad s).1.2 ≤ now, .errClockRollback⟩,
   ⟨hal.nowEpoch.isSome → c.enforceHwm → (hal.handler .hwmLoad s).1.2 < now →
      (hal.handler (.hwmStore now) (hal.handler .hwmLoad s).2).1 = .ok, .errPlatform⟩]

/-- The checks behind the arguments, in the documented order. -/
def laterChecks (cr : Crypto) (str : CStr) (c : VlConfig) (keys : List VlPubkey) (hal : VlHal σ)
    (s : σ) : List (Check VlStatus) :=
  let s₁ := (identityRun cr hal s).st
  blobChecks cr str c keys ++ (deviceChecks cr str c hal s ++ (clockChecks str c hal s₁ ++
    markChecks c hal (hal.handler .nowEpoch s₁).1.2 (hal.handler .nowEpoch s₁).2))

/-- The arguments: no NULL pointer, a key, the identity callback, and what
`VL_FLAG_ENFORCE_HWM` needs. -/
def ArgsOk (blob : Option CStr) (cfg : Option VlConfig) (hal : Option (VlHal σ)) : Prop :=
  blob.isSome ∧ ∃ c h keys, cfg = some c ∧ hal = some h ∧ c.keys = some keys ∧ keys ≠ [] ∧
    h.readIdSegment.isSome ∧
    (c.enforceHwm → h.nowEpoch.isSome ∧ h.hwmLoad.isSome ∧ h.hwmStore.isSome)

/-- **The documented order.** mirrors docs/API.md:243-258 -/
def checks (cr : Crypto) (blob : Option CStr) (cfg : Option VlConfig) (hal : Option (VlHal σ))
    (s : σ) : List (Check VlStatus) :=
  ⟨ArgsOk blob cfg hal, .errInvalidArg⟩ :: match blob, cfg, hal with
    | some str, some c, some h => laterChecks cr str c (c.keys.getD []) h s
    | _, _, _ => []

end

/-! ## Each stage ends in the verdict of its checks -/

section
variable [Target] {cr : Crypto} {str : CStr} {c : VlConfig} {keys : List VlPubkey}

theorem authenticate_error_checks {rc : VlStatus} (h : authenticate cr c keys str = .error rc) :
    FirstFailure (blobChecks cr str c keys) rc := by
  cases hdec : decodeBlob str with
  | error e =>
    have he : e = .errBadFormat := by
      unfold decodeBlob at hdec
      simp only at hdec
      split at hdec
      · exact (Except.error.inj hdec).symm
      · cases hdec
    simp only [authenticate, hdec, Except.error.injEq] at h
    refine .of_error (fun hb => ?_) (he.symm.trans h)
    obtain ⟨b, hb⟩ := hb
    rw [decodeBlob_ok_iff.mpr hb] at hdec
    cases hdec
  | ok b =>
    have hb := decodeBlob_ok_iff.mp hdec
    have hall : ∀ P : List UInt8 → Prop, (∀ b', DecodesTo str b' → P b') ↔ P b := fun P =>
      ⟨fun h => h b hb, fun h b' hb' => hb.unique hb' ▸ h⟩
    refine .next ⟨b, hb⟩ ?_
    simp only [authenticate, hdec, checkHeader] at h
    by_cases hmagic : b.getD OFF_MAGIC 0 = VL_MAGIC
    case neg =>
      rw [if_pos hmagic] at h
      exact .of_error (mt (hall _).mp hmagic) (Except.error.inj h)
    rw [if_neg (not_not_intro hmagic)] at h
    refine .next ((hall _).mpr hmagic) ?_
    by_cases hversion : b.getD OFF_VERSION 0 = VL_FORMAT_VERSION
    case neg =>
      rw [if_pos hversion] at h
      exact .of_error (mt (hall _).mp hversion) (Except.error.inj h)
    rw [if_neg (not_not_intro hversion)] at h
    refine .next ((hall _).mpr hversion) ?_
    by_cases hfamily : (readPayload b).family = c.family
    case neg =>
      rw [if_pos hfamily] at h
      exact .of_error (mt (hall _).mp hfamily) (Except.error.inj h)
    rw [if_neg (not_not_intro hfamily)] at h
    refine .next ((hall _).mpr hfamily) ?_
    cases hkey : findKey keys (readPayload b).keyId with
    | none =>
      rw [hkey] at h
      refine .of_error (mt (hall _).mp fun hk => ?_) (Except.error.inj h)
      obtain ⟨k, hmem, hid⟩ := hk
      have hno := List.find?_eq_none.mp hkey k hmem
      exact hno (decide_eq_true hid)
    | some pk =>
      rw [hkey] at h
      have hid : pk.keyId = b.getD 2 0 := by
        unfold findKey at hkey
        have hfound := List.find?_some hkey
        exact of_decide_eq_true hfound
      refine .next ((hall _).mpr ⟨pk, List.mem_of_find?_eq_some hkey, hid⟩) ?_
      simp only [checkSignature] at h
      split at h
      · cases h
      · rename_i hsig
        exact .of_error (fun hall' => hsig (hall' b pk hb hkey)) (Except.error.inj h)

/-- Nothing the blob alone is refused for is a fault of the platform. -/
theorem authenticate_ne_platform {rc : VlStatus}
    (h : authenticate cr c keys str = .error rc) : rc ≠ .errPlatform := by
  obtain ⟨ck, hck, rfl⟩ := (authenticate_error_checks h).mem
  simp only [blobChecks, List.mem_cons, List.not_mem_nil, or_false] at hck
  rcases hck with rfl | rfl | rfl | rfl | rfl | rfl <;> simp

theorem authenticate_ok_checks {lic : VlLicense} (h : authenticate cr c keys str = .ok lic) :
    PassAll (blobChecks cr str c keys) := by
  obtain ⟨b, pk, ha, -⟩ := authenticate_ok_iff.mp h
  have hall : ∀ P : List UInt8 → Prop, P b → ∀ b', DecodesTo str b' → P b' := fun P hP b' hb' =>
    ha.decodes.unique hb' ▸ hP
  have hid : pk.keyId = b.getD 2 0 := by simpa using List.find?_some ha.key
  simp only [blobChecks, passAll_cons, passAll_nil, and_true]
  refine ⟨⟨b, ha.decodes⟩, hall _ ha.magic, hall _ ha.version, hall _ ha.family,
    hall _ ⟨pk, List.mem_of_find?_eq_some ha.key, hid⟩, fun b' pk' hb' hpk' => ?_⟩
  obtain rfl := ha.decodes.unique hb'
  rw [ha.key, Option.some.injEq] at hpk'
  subst hpk'
  exact ha.signature

variable {σ : Type} {hal : VlHal σ} {s s' : σ} {t : List HalEvent}

omit [Target] in
/-- The mark's answers are what its checks speak of. -/
theorem markStep_checks {lic : VlLicense} {now : UInt32} {r : Except VlStatus VlLicense}
    (hclock : hal.nowEpoch.isSome) (hf : c.enforceHwm)
    (h : MarkStep hal.handler.env lic now s t r s') : Verdict (markChecks c hal now s) r := by
  cases h with
  | loadFailed hload hst =>
    have hval : hal.handler .hwmLoad s = _ := hload
    refine .of_error (fun hp => hst ?_) rfl
    have hok := hp hclock hf
    rw [hval] at hok
    exact hok
  | rollback hload hlt =>
    have hval : hal.handler .hwmLoad s = _ := hload
    refine .next (fun _ _ => by simp only [hval]) (.of_error (fun hp => ?_) rfl)
    have hle := hp hclock hf
    rw [hval] at hle
    exact absurd hlt (UInt32.not_lt.mpr hle)
  | level hload heq =>
    have hval : hal.handler .hwmLoad s = _ := hload
    simp only [Verdict, markChecks, passAll_cons, passAll_nil, and_true, hval]
    refine ⟨fun _ _ => trivial, fun _ _ => ?_, fun _ _ hlt => ?_⟩
    · rw [heq]
      exact UInt32.le_refl _
    · rw [heq] at hlt
      exact absurd hlt (UInt32.lt_irrefl _)
  | storeFailed hload hlt hstore hst =>
    have hval : hal.handler .hwmLoad s = _ := hload
    have hput : hal.handler (.hwmStore now) _ = _ := hstore
    refine .next (fun _ _ => by simp only [hval]) (.next (fun _ _ => ?_)
      (.of_error (fun hp => hst ?_) rfl))
    · rw [hval]
      exact UInt32.le_of_lt hlt
    · have hok := hp hclock hf
      rw [hval, hput] at hok
      exact hok hlt
  | stored hload hlt hstore =>
    have hval : hal.handler .hwmLoad s = _ := hload
    have hput : hal.handler (.hwmStore now) _ = _ := hstore
    simp only [Verdict, markChecks, passAll_cons, passAll_nil, and_true, hval, hput]
    exact ⟨fun _ _ => trivial, fun _ _ => UInt32.le_of_lt hlt, fun _ _ _ => trivial⟩

/-- Step 6 ends in the verdict of the clock's and the mark's checks, for a
licence with the window of the bytes `b`. -/
theorem timeStep_checks {lic : VlLicense} {b : List UInt8} (hb : DecodesTo str b)
    (hbefore : lic.notBefore = le32 b 24) (hafter : lic.notAfter = le32 b 28)
    {r : Except VlStatus VlLicense} (h : TimeStep hal.handler.env c hal.mask lic s t r s') :
    Verdict (clockChecks str c hal s ++
      markChecks c hal (hal.handler .nowEpoch s).1.2 (hal.handler .nowEpoch s).2) r := by
  have hall : ∀ P : List UInt8 → Prop, (∀ b', DecodesTo str b' → P b') ↔ P b := fun P =>
    ⟨fun h => h b hb, fun h b' hb' => hb.unique hb' ▸ h⟩
  have hearly : ∀ now, ¬ tooEarly lic now ↔ le32 b 24 = 0 ∨ le32 b 24 ≤ now := fun now => by
    rw [not_tooEarly_iff, hbefore]
  have hlate : ∀ now, ¬ tooLate lic now ↔ le32 b 28 = 0 ∨ now ≤ le32 b 28 := fun now => by
    rw [not_tooLate_iff, hafter]
  have hsome : hal.mask.nowEpoch = true → hal.nowEpoch.isSome := fun h => h
  have hnone : hal.mask.nowEpoch = false → hal.nowEpoch = none := fun h =>
    Option.not_isSome_iff_eq_none.mp (by simpa [VlHal.mask] using h)
  have hthere : hal.mask.nowEpoch = true → hal.nowEpoch = none → ¬ c.requireClock := by
    intro hclock hno
    have hpresent := hsome hclock
    rw [hno] at hpresent
    cases hpresent
  have hwindow : ∀ {now s₁}, hal.mask.nowEpoch = true →
      hal.handler .nowEpoch s = ((.ok, now), s₁) → ¬ tooEarly lic now → ¬ tooLate lic now →
      PassAll (clockChecks str c hal s) := by
    intro now s₁ hclock hval he hl
    simp only [clockChecks, passAll_cons, passAll_nil, and_true, hval]
    exact ⟨hthere hclock, fun _ => trivial, fun _ => (hall _).mpr ((hearly _).mp he),
      fun _ => (hall _).mpr ((hlate _).mp hl)⟩
  cases h with
  | noClock hclock hreq =>
    exact FirstFailure.append (.of_error (fun hp => absurd hreq (hp (hnone hclock))) rfl)
  | unchecked hclock hreq =>
    have hno := hnone hclock
    simp only [Verdict, clockChecks, markChecks, List.cons_append, List.nil_append, passAll_cons,
      passAll_nil, and_true, hno, Option.isSome_none, Bool.false_eq_true, false_implies]
    exact fun _ => hreq
  | clockFailed hclock hn hst =>
    have hval : hal.handler .nowEpoch s = _ := hn
    refine FirstFailure.append (.next (hthere hclock) (.of_error (fun hp => hst ?_) rfl))
    have hok := hp (hsome hclock)
    rw [hval] at hok
    exact hok
  | notYetValid hclock hn he =>
    have hval : hal.handler .nowEpoch s = _ := hn
    refine FirstFailure.append (.next (hthere hclock) (.next (fun _ => by simp only [hval]) ?_))
    refine .of_error (fun hp => (hearly _).mpr ?_ he) rfl
    rw [hval] at hp
    exact hp (hsome hclock) b hb
  | expired hclock hn he hl =>
    have hval : hal.handler .nowEpoch s = _ := hn
    refine FirstFailure.append (.next (hthere hclock) (.next (fun _ => by simp only [hval])
      (.next (fun _ => (hall _).mpr ?_) (.of_error (fun hp => (hlate _).mpr ?_ hl) rfl))))
    · rw [hval]
      exact (hearly _).mp he
    · rw [hval] at hp
      exact hp (hsome hclock) b hb
  | inWindow hclock hn he hl hf =>
    have hval : hal.handler .nowEpoch s = _ := hn
    refine Verdict.after (hwindow hclock hval he hl) ?_
    simp only [Verdict, markChecks, passAll_cons, passAll_nil, hf, false_implies, implies_true,
      and_self]
  | marked hclock hn he hl hf hm =>
    have hval : hal.handler .nowEpoch s = _ := hn
    refine Verdict.after (hwindow hclock hval he hl) ?_
    rw [hval]
    exact markStep_checks (hsome hclock) hf hm

/-- The fingerprint was read, and its first bytes are the device id. -/
theorem device_passes {lic : VlLicense} {fp : Option (Vector UInt8 32)}
    (hauth : authenticate cr c keys str = .ok lic)
    (hfp : Prog.Exec hal.handler.env (vlComputeFingerprint cr (some hal.mask)
      (some (Vector.replicate 32 0))) s t (.ok, fp) s') (hdev : deviceMatches fp lic) :
    (identityRun cr hal s).val.1 = .ok ∧
      ∀ b v, DecodesTo str b → (identityRun cr hal s).val.2 = some v →
        v.toList.take 16 = (b.drop 8).take 16 := by
  have hrun : identityRun cr hal s = _ := Prog.exec_env_iff.mp hfp
  obtain ⟨b, pk, ha, rfl⟩ := authenticate_ok_iff.mp hauth
  rw [hrun]
  refine ⟨rfl, fun b' v hb' hv => ?_⟩
  obtain rfl := ha.decodes.unique hb'
  obtain rfl : fp = some v := hv
  rw [← readPayload_deviceId ha.decodes.1]
  exact deviceMatches_iff.mp hdev

theorem verifyStep_checks {r : Except VlStatus VlLicense}
    (h : VerifyStep cr hal.handler.env c keys hal.mask str s t r s') :
    Verdict (laterChecks cr str c keys hal s) r := by
  cases h with
  | rejected hauth => exact FirstFailure.append (authenticate_error_checks hauth)
  | identityFailed hauth hfp hrc =>
    have hrun : identityRun cr hal s = _ := Prog.exec_env_iff.mp hfp
    refine Verdict.after (authenticate_ok_checks hauth) (FirstFailure.append ?_)
    refine .of_error (fun hp => hrc ?_) ?_
    · rw [hrun] at hp
      exact hp
    · rw [hrun]
  | otherDevice hauth hfp hdev =>
    have hrun : identityRun cr hal s = _ := Prog.exec_env_iff.mp hfp
    refine Verdict.after (authenticate_ok_checks hauth) (FirstFailure.append ?_)
    refine .next (by simp only [hrun]) (.of_error (fun hp => hdev ?_) rfl)
    obtain ⟨b, pk, ha, rfl⟩ := authenticate_ok_iff.mp hauth
    obtain ⟨⟨fp, rfl⟩, -⟩ := exec_fingerprint_cases hfp
    rw [deviceMatches_iff, VlLicense.withChecked_deviceId, readPayload_deviceId ha.decodes.1]
    exact hp b fp ha.decodes (by rw [hrun])
  | revoked hauth hfp hdev hrev =>
    refine Verdict.after (authenticate_ok_checks hauth) (FirstFailure.append ?_)
    refine .next (device_passes hauth hfp hdev).1 (.next (device_passes hauth hfp hdev).2
      (.of_error (fun hp => ?_) (checkRevocation_error hrev).symm))
    obtain ⟨b, hb, hserial⟩ := authenticate_serial hauth
    obtain ⟨lic', hok⟩ := checkRevocation_ok_iff.mpr
      (show NotRevoked c (VlLicense.withChecked _ VL_CHECKED_DEVICE).serial from
        hserial ▸ hp b hb)
    rw [hrev] at hok
    cases hok
  | timed hauth hfp hdev hrev ht =>
    have hrun : identityRun cr hal s = _ := Prog.exec_env_iff.mp hfp
    obtain ⟨b, pk, ha, rfl⟩ := authenticate_ok_iff.mp hauth
    have hlen := ha.decodes.1
    refine Verdict.after (authenticate_ok_checks hauth) (Verdict.after ?_ ?_)
    · simp only [deviceChecks, passAll_cons, passAll_nil, and_true]
      refine ⟨(device_passes hauth hfp hdev).1, (device_passes hauth hfp hdev).2, fun b' hb' => ?_⟩
      obtain rfl := ha.decodes.unique hb'
      have hnot := checkRevocation_ok_iff.mp ⟨_, hrev⟩
      rwa [VlLicense.withChecked_serial, VlLicense.withChecked_serial,
        show (readPayload b).serial = le32 b 32 from rdLe32_eq (by simp [hlen, OFF_SERIAL])] at hnot
    · rcases checkRevocation_cases c (((readPayload b).withChecked
          VL_CHECKED_SIGNATURE).withChecked VL_CHECKED_DEVICE) with
        ⟨-, lic', heq, hnb, hna⟩ | ⟨-, heq⟩
      · rw [hrev, Except.ok.injEq] at heq
        subst heq
        rw [hrun]
        exact timeStep_checks ha.decodes
          (hnb.trans (rdLe32_eq (by simp [hlen, OFF_NOT_BEFORE])))
          (hna.trans (rdLe32_eq (by simp [hlen, OFF_NOT_AFTER]))) ht
      · rw [hrev] at heq
        cases heq

/-! ## The call -/

omit [Target] in
theorem argsOk_iff {blob : Option CStr} {cfg : Option VlConfig} {hal : Option (VlHal σ)} :
    ArgsOk blob cfg hal ↔
      ∃ a, checkArgs blob cfg (hal.map VlHal.mask) = .ok a := by
  refine ⟨?_, ?_⟩
  · intro h
    obtain ⟨hblob, c, h, keys, rfl, rfl, hkeys, hne, hid, hhwm⟩ := h
    obtain ⟨str, rfl⟩ := Option.isSome_iff_exists.mp hblob
    exact ⟨(str, c, keys, h.mask), checkArgs_ok_iff.mpr ⟨rfl, rfl, rfl, hkeys, hne, hid, hhwm⟩⟩
  · intro h
    obtain ⟨⟨str, c, keys, m⟩, h⟩ := h
    obtain ⟨rfl, rfl, hm, hkeys, hne, hid, hhwm⟩ := checkArgs_ok_iff.mp h
    obtain ⟨hal, rfl, rfl⟩ := Option.map_eq_some_iff.mp hm
    exact ⟨rfl, c, hal, keys, rfl, rfl, hkeys, hne, hid, hhwm⟩

/-- A call ends in the verdict of the list, and a refusal leaves a zeroed output. -/
theorem verifyOn_cases (cr : Crypto) (blob : Option CStr) (cfg : Option VlConfig)
    (hal : Option (VlHal σ)) (out : Option VlLicense) (s : σ) :
    ∃ r, Verdict (checks cr blob cfg hal s) r ∧ (verifyOn cr blob cfg hal out s).val = verdict out r ∧
      ∀ rc, r = .error rc → Rejects rc := by
  have hexec := Prog.exec_run (hal.getD ⟨none, none, none, none, none, none, none⟩).handler
    (vlVerify cr blob cfg (hal.map VlHal.mask) out) s
  rcases exec_vlVerify.mp hexec with ⟨rc, hargs, -, hv, -⟩ | ⟨str, c, keys, m, r, hargs, hstep, hv⟩
  · refine ⟨.error rc, ?_, hv, fun rc' hrc => ?_⟩
    · refine .of_error (fun hp => ?_) (checkArgs_error hargs).symm
      obtain ⟨a, ha⟩ := argsOk_iff.mp hp
      rw [hargs] at ha
      cases ha
    · rw [← Except.error.inj hrc, checkArgs_error hargs]
      decide
  · obtain ⟨rfl, rfl, hm, hkeys, -⟩ := checkArgs_ok_iff.mp hargs
    obtain ⟨h, rfl, rfl⟩ := Option.map_eq_some_iff.mp hm
    rw [Option.getD_some] at hstep
    refine ⟨r, ?_, hv, fun rc hrc => (hrc ▸ hstep).rejects⟩
    have hlater := verifyStep_checks hstep
    refine Verdict.after (l := [⟨_, VlStatus.errInvalidArg⟩]) ?_ ?_
    · simpa using argsOk_iff.mpr ⟨_, hargs⟩
    · rwa [hkeys]

/-- The first failing check decides the call. -/
theorem verifyOn_first {cr : Crypto} {blob : Option CStr} {cfg : Option VlConfig}
    {hal : Option (VlHal σ)} {s : σ} {e : VlStatus} (he : FirstFailure (checks cr blob cfg hal s) e)
    (out : Option VlLicense) :
    (verifyOn cr blob cfg hal out s).val = (e, out.map fun _ => VlLicense.zero) := by
  obtain ⟨r, hverdict, hval, -⟩ := verifyOn_cases cr blob cfg hal out s
  rw [hval, hverdict.eq_error he]
  rfl

/-- Nothing but a failing check refuses. -/
theorem verifyOn_passes {cr : Crypto} {blob : Option CStr} {cfg : Option VlConfig}
    {hal : Option (VlHal σ)} {s : σ} (hall : PassAll (checks cr blob cfg hal s))
    (out : Option VlLicense) : (verifyOn cr blob cfg hal out s).val.1 = .ok := by
  obtain ⟨r, hverdict, hval, -⟩ := verifyOn_cases cr blob cfg hal out s
  obtain ⟨lic, hr⟩ := hverdict.eq_ok hall
  rw [hval, hr]
  rfl

/-- **A refusal names the first failing check, and hands back nothing.** -/
theorem failure_precedence (cr : Crypto) (blob : Option CStr) (cfg : Option VlConfig)
    (hal : Option (VlHal σ)) (out : Option VlLicense) (s : σ)
    (hno : (verifyOn cr blob cfg hal out s).val.1 ≠ .ok) :
    FirstFailure (checks cr blob cfg hal s) (verifyOn cr blob cfg hal out s).val.1 ∧
    (∀ h, hal = some h → h.readIdSegment.isSome → (identityRun cr h s).val.1 ≠ .ok →
      IdentityFailure (identityRun cr h s).trace (identityRun cr h s).val.1) ∧
    (verifyOn cr blob cfg hal out s).val.1 ≠ .errNoMoreSegments ∧
    (verifyOn cr blob cfg hal out s).val.2 = out.map fun _ => VlLicense.zero := by
  obtain ⟨r, hverdict, hval, hrej⟩ := verifyOn_cases cr blob cfg hal out s
  rw [hval] at hno ⊢
  cases r with
  | ok lic => exact absurd rfl hno
  | error rc =>
    refine ⟨hverdict, fun h _ hid hrc => ?_, (hrej rc rfl).2, rfl⟩
    exact exec_fingerprint_failure hid (Prog.exec_run h.handler _ s) hrc

end

/-- Every signature is valid. -/
def anySignature : Crypto := { noSignature with vlEd25519Verify := fun _ _ _ => true }

/-- A revoked and expired licence on another device is refused for the device. -/
theorem failure_precedence_otherDevice :
    (∃ b, @DecodesTo host64 FIX_BLOB_EXPIRED b ∧ ¬ NotRevoked denyConfig (le32 b 32) ∧
      le32 b 28 = 1600000000) ∧
    FirstFailure (@checks _ host64 anySignature (some FIX_BLOB_EXPIRED) (some denyConfig)
      (some (tinyHal 1 1800000000)) ()) .errDeviceMismatch ∧
    (@verifyOn host64 _ anySignature (some FIX_BLOB_EXPIRED) (some denyConfig)
      (some (tinyHal 1 1800000000)) (some ⟨1, 7, 2, 9, Vector.replicate 16 1, 0, 0, 42, 7⟩)
      ()).val = (.errDeviceMismatch, some VlLicense.zero) := by
  have hval : (@verifyOn host64 _ anySignature (some FIX_BLOB_EXPIRED) (some denyConfig)
      (some (tinyHal 1 1800000000)) (some ⟨1, 7, 2, 9, Vector.replicate 16 1, 0, 0, 42, 7⟩)
      ()).val.1 = .errDeviceMismatch := by
    decide +kernel
  have hfields : (@decodeBlob host64 FIX_BLOB_EXPIRED).map (fun b => (le32 b 28, le32 b 32)) =
      .ok (1600000000, 1003) := by
    decide +kernel
  have h := @failure_precedence host64 _ anySignature (some FIX_BLOB_EXPIRED) (some denyConfig)
    (some (tinyHal 1 1800000000)) (some ⟨1, 7, 2, 9, Vector.replicate 16 1, 0, 0, 42, 7⟩) ()
    (by rw [hval]; decide)
  rw [hval] at h
  refine ⟨?_, h.1, Prod.ext hval h.2.2.2⟩
  cases hdec : @decodeBlob host64 FIX_BLOB_EXPIRED with
  | error rc => rw [hdec] at hfields; cases hfields
  | ok b =>
    rw [hdec] at hfields
    obtain ⟨hend, hserial⟩ := Prod.mk.inj (Except.ok.inj hfields)
    refine ⟨b, (@decodeBlob_ok_iff host64 ..).mp hdec, ?_, hend⟩
    rw [hserial]
    exact fun hno => hno [1003] rfl (by decide)

end VectiLicense.L3
