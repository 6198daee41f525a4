import VectiLicense.L3Verify.NoOracle

/-!
# The clock high-water mark of one device

One device: fixed config, fixed identity segments, one stored mark. Its HAL is
an environment over the mark (`devEnv`): `hwm_load` answers with the mark,
`hwm_store` replaces it, and with `faults` either may fail and change nothing;
the clock is whatever the call's record says. A run is any sequence of
`vl_verify` calls (`Step`), one after another.

Steps 1 to 5 do not look at the clock or the mark, so on such a device they
are a function of the blob: `entitled`. What is left of a call is step 6.

* `call_cases`: a call is refused by `entitled`, or is `entitled` followed by a
  `TimeStep`; `step_mark` is what it does to the mark.
* `run_mark`: the mark is the maximum of the accepted readings.
* `mark_evolution`: the whole law, over runs.
-/
namespace VectiLicense.L4.Mark

open VectiLicense.Core VectiLicense.L0 VectiLicense.L1.Base32 VectiLicense.L3

/-! ## The device -/

/-- The HAL during one call: segments `ids`, clock `clock`, and the mark as
state. -/
def devEnv (faults : Prop) (ids : UInt32 → SegRead) (clock : VlStatus × UInt32) :
    Env HalCall.Resp UInt32
  | .readIdSegment idx, m, r, m' => r = ids idx ∧ m' = m
  | .nowEpoch, m, r, m' => r = clock ∧ m' = m
  | .hwmLoad, m, r, m' => (r = (.ok, m) ∨ (faults ∧ r.1 ≠ .ok)) ∧ m' = m
  | .hwmStore v, m, r, m' => (r = .ok ∧ m' = v) ∨ (faults ∧ r ≠ .ok ∧ m' = m)
  | .blobLoad _, m, _, m' => m' = m
  | .blobStore _, m, _, m' => m' = m
  | .securePosture, m, _, m' => m' = m

theorem devEnv_fixed (faults : Prop) (ids : UInt32 → SegRead) (clock : VlStatus × UInt32) :
    FixedIdentity (devEnv faults ids clock) ids := fun _ _ _ _ h => h

theorem devEnv_loaded {faults : Prop} {ids : UInt32 → SegRead} {clock : VlStatus × UInt32}
    {m m' mark : UInt32} (h : devEnv faults ids clock .hwmLoad m (.ok, mark) m') :
    mark = m ∧ m' = m := by
  obtain ⟨hl | ⟨-, hl⟩, hm⟩ := h
  · exact ⟨(Prod.mk.inj hl).2, hm⟩
  · exact absurd rfl hl

theorem devEnv_stored {faults : Prop} {ids : UInt32 → SegRead} {clock : VlStatus × UInt32}
    {m m' v : UInt32} (h : devEnv faults ids clock (.hwmStore v) m .ok m') : m' = v := by
  rcases h with ⟨-, hm⟩ | ⟨-, hst, -⟩
  · exact hm
  · exact absurd rfl hst

theorem devEnv_storeFailed {faults : Prop} {ids : UInt32 → SegRead} {clock : VlStatus × UInt32}
    {m m' v : UInt32} {st : VlStatus} (h : devEnv faults ids clock (.hwmStore v) m st m')
    (hst : st ≠ .ok) : m' = m := by
  rcases h with ⟨rfl, -⟩ | ⟨-, -, hm⟩
  · exact absurd rfl hst
  · exact hm

/-- A storage call that did not return `VL_OK`. -/
def StorageFails : HalEvent → Prop
  | ⟨.hwmLoad, r⟩ => r.1 ≠ .ok
  | ⟨.hwmStore _, r⟩ => r ≠ .ok
  | _ => False

/-- Without faults no storage call fails. -/
theorem devEnv_noFault {ids : UInt32 → SegRead} {clock : VlStatus × UInt32} {ev : HalEvent}
    {m m' : UInt32} (h : devEnv False ids clock ev.1 m ev.2 m') : ¬ StorageFails ev := by
  obtain ⟨e, r⟩ := ev
  cases e with
  | hwmLoad =>
    rcases h.1 with rfl | ⟨hf, -⟩
    · exact fun hne => hne rfl
    · exact hf.elim
  | hwmStore v =>
    rcases h with ⟨rfl, -⟩ | ⟨hf, -⟩
    · exact fun hne => hne rfl
    · exact hf.elim
  | _ => exact id

/-- A working storage is one that may fail and does not. -/
theorem devEnv_weaken {faults : Prop} {ids : UInt32 → SegRead} {clock : VlStatus × UInt32}
    {e : HalCall} {m m' : UInt32} {r : e.Resp} (h : devEnv False ids clock e m r m') :
    devEnv faults ids clock e m r m' := by
  cases e with
  | hwmLoad => exact ⟨.inl (h.1.resolve_right fun hf => hf.1), h.2⟩
  | hwmStore v => exact .inl (h.resolve_right fun hf => hf.1)
  | _ => exact h

theorem devEnv_total (faults : Prop) (ids : UInt32 → SegRead) (clock : VlStatus × UInt32)
    (e : HalCall) (m : UInt32) : ∃ r m', devEnv faults ids clock e m r m' := by
  cases e with
  | hwmLoad => exact ⟨_, _, .inl rfl, rfl⟩
  | hwmStore v => exact ⟨_, _, .inl ⟨rfl, rfl⟩⟩
  | readIdSegment idx => exact ⟨_, _, rfl, rfl⟩
  | nowEpoch => exact ⟨_, _, rfl, rfl⟩
  | blobLoad cap => exact ⟨(.ok, []), m, rfl⟩
  | blobStore blob => exact ⟨.ok, m, rfl⟩
  | securePosture => exact ⟨(.ok, ⟨.unknown, .unknown⟩), m, rfl⟩

/-- One call as it happened: its arguments and clock, then what it did. -/
structure Call where
  blob : Option CStr
  clock : VlStatus × UInt32
  out : Option VlLicense
  trace : List HalEvent
  status : VlStatus
  result : Option VlLicense
  before : UInt32
  after : UInt32

/-- The value of a clock that could be read. -/
def Call.reading (l : Call) : UInt32 := l.clock.2

/-- The values passed to `hwm_store`. -/
def storesOf (t : List HalEvent) : List UInt32 :=
  t.filterMap fun ev => match ev.1 with
    | .hwmStore v => some v
    | _ => none

/-- The flag, with the callbacks it needs. -/
structure Enforced (cfg : VlConfig) (hal : HalMask) : Prop where
  flag : cfg.enforceHwm
  nowEpoch : hal.nowEpoch = true
  hwmLoad : hal.hwmLoad = true
  hwmStore : hal.hwmStore = true

section
variable [Target] (cr : Crypto) (cfg : VlConfig) (hal : HalMask) (ids : UInt32 → SegRead)

/-- One `vl_verify` call on the device. -/
def Step (faults : Prop) (m : UInt32) (l : Call) (m' : UInt32) : Prop :=
  l.before = m ∧ l.after = m' ∧
    Prog.Exec (devEnv faults ids l.clock) (vlVerify cr l.blob (some cfg) (some hal) l.out) m
      l.trace (l.status, l.result) m'

/-- Steps 1 to 5 on this device: the licence so far, or the refusal. -/
def entitled (blob : Option CStr) : Except VlStatus VlLicense :=
  match checkArgs blob (some cfg) (some hal) with
  | .error rc => .error rc
  | .ok (b, c, keys, h) =>
    match authenticate cr c keys b with
    | .error rc => .error rc
    | .ok lic =>
      if (fingerprintOf cr ids h).1 ≠ .ok then .error (fingerprintOf cr ids h).1
      else if ¬ deviceMatches (fingerprintOf cr ids h).2 lic then .error .errDeviceMismatch
      else checkRevocation c (lic.withChecked VL_CHECKED_DEVICE)

end

/-! ## The test suite's device -/

/-- mirrors tests/vl_test_fixtures.h:6 -/
def FIX_PUBKEY : Vector UInt8 32 := #v[
  235, 216, 3, 17, 7, 250, 230, 65, 226, 51, 193, 118, 50, 229, 119, 114,
  152, 126, 172, 123, 194, 251, 152, 99, 213, 244, 29, 233, 164, 20, 223, 147]

/-- mirrors tests/vl_test_fixtures.h:7 -/
def FIX_FINGERPRINT : Vector UInt8 32 := #v[
  30, 201, 122, 113, 73, 231, 247, 190, 107, 231, 111, 131, 192, 47, 176, 34,
  231, 204, 107, 74, 155, 222, 52, 18, 35, 163, 193, 252, 68, 82, 154, 236]

/-- A licence from 1700000000 to 1800000000.
mirrors tests/vl_test_fixtures.h:10 -/
def FIX_BLOB_WINDOWED : CStr := .ofMem <| ascii [
  'A', 'R', '0', 'G', 'E', '0', 'G', '1', '0', '0', '0', '0', '0', '7', 'P', '9', 'F', '9', 'R', 'M',
  'K', 'S', 'Z', 'Q', 'Q', 'S', 'N', 'Y', 'E', 'V', 'W', '3', 'R', '0', 'Q', 'V', '0', '8', 'G', '0',
  'Y', '5', '9', 'P', 'A', '0', '6', 'J', '9', '5', 'N', 'Y', 'M', '0', 'R', '0', '0', '0', '6', '1',
  'Y', 'B', '0', 'W', 'Z', '8', '2', '1', 'V', '0', '6', 'G', 'A', 'Z', '9', 'G', 'E', '0', 'Q', 'B',
  'Q', 'Y', 'G', '4', 'V', '5', '4', 'S', 'R', '5', 'P', '3', 'G', '8', 'X', 'M', '1', 'Z', 'C', '4',
  '2', 'P', 'G', 'X', 'Y', '7', 'H', 'S', 'Y', '5', '7', 'T', 'N', 'J', 'Q', 'X', 'T', 'Z', 'X', 'H',
  'Y', 'H', 'V', 'Y', 'G', 'H', '8', '3', '7', 'E', 'G', '7', 'H', '9', '9', 'T', 'A', '0', '1', '1',
  'D', 'P', 'B', 'H', '7', '4', 'B', 'K', '3', 'G', 'B', '8', 'Z', 'Z', 'G', '9', '3', 'Q', 'G', '3']

/-- The payload that `FIX_BLOB_WINDOWED` carries. -/
def windowedPayload : List UInt8 := [
  86, 1, 7, 2, 1, 0, 0, 0, 30, 201, 122, 113, 73, 231, 247, 190, 107, 231,
  111, 131, 192, 47, 176, 34, 0, 241, 83, 101, 0, 210, 73, 107, 234, 3, 0, 0]

/-- The signature that `FIX_BLOB_WINDOWED` carries. -/
def windowedSig : List UInt8 := [
  12, 31, 44, 28, 250, 4, 29, 128, 208, 87, 211, 7, 2, 235, 191, 160,
  77, 148, 153, 193, 108, 56, 35, 180, 15, 216, 65, 90, 29, 241, 227, 159,
  20, 250, 172, 175, 221, 127, 177, 244, 119, 232, 69, 3, 59, 160, 120, 165,
  58, 80, 2, 22, 217, 113, 57, 23, 49, 193, 104, 255, 224, 145, 222, 3]

/-- mirrors tests/vl_test_hal.h:36-72 -/
def vltSegments : List (List UInt8) := [
  [0xde, 0xad, 0xbe, 0xef, 0x00, 0x11],
  ascii ['v', 'e', 'c', 't', 'i', '-', 't', 'e', 's', 't', '-', 'b', 'o', 'a', 'r', 'd'],
  []]

/-- mirrors tests/vl_test_hal.h:36-72 -/
def vltReadIdSegment (idx : UInt32) : SegRead :=
  match vltSegments[idx.toNat]? with
  | some bytes => ⟨.ok, Vector.ofFn fun i => bytes.getD i 0, bytes.length⟩
  | none => ⟨.errNoMoreSegments, Vector.replicate 255 0, 0⟩

/-- SHA-256 and Ed25519 where the fixtures need them: the fingerprint's
preimage hashes to `FIX_FINGERPRINT`, and `FIX_PUBKEY` signed the payload. -/
def fixCrypto : Crypto where
  Sha := List UInt8
  vlSha256Init := []
  vlSha256Update ctx bytes := ctx ++ bytes
  vlSha256Final ctx :=
    if ctx = VL_FP_DOMAIN ++ vltSegments.flatMap (fun s => UInt8.ofNat s.length :: s) then
      FIX_FINGERPRINT
    else Vector.replicate 32 0
  vlEd25519Verify sig msg pk :=
    sig = windowedSig ∧ msg = VL_SIGN_PREFIX ++ [0] ++ windowedPayload ∧ pk = FIX_PUBKEY

/-- The suite's config with the flag on.
mirrors tests/test_vl_core.c:731-744, 968-971 -/
def fixConfig : VlConfig := ⟨some [⟨7, FIX_PUBKEY⟩], 2, none, VL_FLAG_ENFORCE_HWM⟩

/-- mirrors tests/vl_test_hal.h:136-145 -/
def vltHalFull : HalMask := ⟨true, true, true, true, true, true, true⟩

theorem vltHalFull_enforced : Enforced fixConfig vltHalFull := ⟨by decide, rfl, rfl, rfl⟩

/-- What steps 1 to 5 make of `FIX_BLOB_WINDOWED`. -/
def windowedLicense : VlLicense :=
  ⟨1, 7, 2, 1, Vector.ofFn fun i => FIX_FINGERPRINT[i.val], 1700000000, 1800000000, 1002, 3⟩

theorem windowed_entitled :
    @entitled host64 fixCrypto fixConfig vltHalFull vltReadIdSegment (some FIX_BLOB_WINDOWED) =
      .ok windowedLicense := by
  decide +kernel

/-! ## Steps 1 to 5 -/

variable [Target] {cr : Crypto} {cfg : VlConfig} {hal : HalMask} {ids : UInt32 → SegRead}

theorem entitled_ok {blob : Option CStr} {lic : VlLicense} (h : entitled cr cfg hal ids blob = .ok lic) :
    ∃ str keys b pk, blob = some str ∧ cfg.keys = some keys ∧ HwmArgs cfg hal ∧
      Authentic cr cfg keys str b pk ∧
      (fingerprintOf cr ids hal).1 = .ok ∧ deviceMatches (fingerprintOf cr ids hal).2 (readPayload b) ∧
      NotRevoked cfg (le32 b 32) ∧ lic.notBefore = le32 b 24 ∧ lic.notAfter = le32 b 28 := by
  unfold entitled at h
  split at h
  · cases h
  rename_i str c keys m hargs
  obtain ⟨rfl, hc, hm, hkeys, -, -, hhwm⟩ := checkArgs_ok_iff.mp hargs
  cases hc
  cases hm
  split at h
  · cases h
  rename_i lic₀ hauth
  obtain ⟨b, pk, ha, rfl⟩ := authenticate_ok_iff.mp hauth
  have hlen := ha.decodes.1
  split at h
  · cases h
  split at h
  · cases h
  rename_i hfp hdev
  rcases checkRevocation_cases cfg _ with ⟨hnot, lic', hrev, hnb, hna⟩ | ⟨-, hrev⟩
  · rw [hrev, Except.ok.injEq] at h
    subst h
    refine ⟨str, keys, b, pk, rfl, hkeys, hhwm, ha, Decidable.not_not.mp hfp,
      Decidable.not_not.mp hdev, ?_, ?_, ?_⟩
    · rw [← rdLe32_eq (by simp [hlen])]
      exact hnot
    · rw [hnb]
      exact rdLe32_eq (by simp [hlen, OFF_NOT_BEFORE])
    · rw [hna]
      exact rdLe32_eq (by simp [hlen, OFF_NOT_AFTER])
  · rw [hrev] at h
    cases h

/-- **A call on a device with a fixed identity.** -/
theorem exec_fixed {σ : Type} {env : Env HalCall.Resp σ} (hids : FixedIdentity env ids)
    {blob : Option CStr} {out : Option VlLicense} {s s' : σ} {t : List HalEvent}
    {v : VlStatus × Option VlLicense}
    (h : Prog.Exec env (vlVerify cr blob (some cfg) (some hal) out) s t v s') :
    (∃ rc, entitled cr cfg hal ids blob = .error rc ∧ Rejects rc ∧ (∀ ev ∈ t, IsIdRead ev.1) ∧
      v = verdict out (.error rc) ∧ s' = s) ∨
    (∃ lic t₁ t₂ r, entitled cr cfg hal ids blob = .ok lic ∧ t = t₁ ++ t₂ ∧
      (∀ ev ∈ t₁, IsIdRead ev.1) ∧ TimeStep env cfg hal lic s t₂ r s' ∧ v = verdict out r) := by
  have honly := @fingerprint_only cr (some hal) (some (Vector.replicate 32 0))
  unfold entitled
  rcases exec_vlVerify.mp h with ⟨rc, hargs, rfl, hv, hs⟩ | ⟨b, c, keys, m, r, hargs, hstep, hv⟩
  · rw [hargs, checkArgs_error hargs]
    rw [checkArgs_error hargs] at hv
    exact .inl ⟨_, rfl, by decide, by simp, hv, hs⟩
  obtain ⟨-, hc, hm, -⟩ := checkArgs_ok_iff.mp hargs
  cases hc
  cases hm
  rw [hargs]
  have hrej : ∀ rc, r = .error rc → Rejects rc := fun rc hr => by
    subst hr; exact hstep.rejects
  cases hstep with
  | rejected hauth =>
    simp only [hauth]
    exact .inl ⟨_, rfl, hrej _ rfl, by simp, hv, trivial⟩
  | identityFailed hauth hfp hrc =>
    obtain ⟨hval, rfl⟩ := exec_fingerprint hids hfp
    simp only [hauth, ← hval, if_pos hrc]
    exact .inl ⟨_, rfl, hrej _ rfl, honly.trace hfp, hv, trivial⟩
  | otherDevice hauth hfp hdev =>
    obtain ⟨hval, rfl⟩ := exec_fingerprint hids hfp
    simp only [hauth, ← hval, ne_eq, not_true, if_false, if_pos hdev]
    exact .inl ⟨_, rfl, hrej _ rfl, honly.trace hfp, hv, trivial⟩
  | revoked hauth hfp hdev hrev =>
    obtain ⟨hval, rfl⟩ := exec_fingerprint hids hfp
    simp only [hauth, ← hval, ne_eq, not_true, if_false, if_neg (not_not_intro hdev), hrev]
    exact .inl ⟨_, rfl, hrej _ rfl, honly.trace hfp, hv, trivial⟩
  | timed hauth hfp hdev hrev htime =>
    obtain ⟨hval, rfl⟩ := exec_fingerprint hids hfp
    simp only [hauth, ← hval, ne_eq, not_true, if_false, if_neg (not_not_intro hdev), hrev]
    exact .inr ⟨_, _, _, r, rfl, rfl, honly.trace hfp, htime, hv⟩

/-- Every way step 6 can go for an entitled blob is a way the call can go. -/
theorem exec_of_entitled {σ : Type} {env : Env HalCall.Resp σ}
    (hids : ∀ idx s, env (.readIdSegment idx) s (ids idx) s) {blob : Option CStr}
    {out : Option VlLicense} {lic : VlLicense} {s s' : σ} {t : List HalEvent}
    {r : Except VlStatus VlLicense} (hent : entitled cr cfg hal ids blob = .ok lic)
    (h : TimeStep env cfg hal lic s t r s') :
    ∃ t₁, Prog.Exec env (vlVerify cr blob (some cfg) (some hal) out) s (t₁ ++ t)
      (verdict out r) s' := by
  unfold entitled at hent
  split at hent
  · cases hent
  rename_i str c keys m hargs
  obtain ⟨-, hc, hm, -⟩ := checkArgs_ok_iff.mp hargs
  cases hc
  cases hm
  split at hent
  · cases hent
  split at hent
  · cases hent
  split at hent
  · cases hent
  rename_i lic₀ hauth hfp hdev
  have hanswers : ∀ e, IsIdRead e → env e s (idAnswers ids e) s := by
    intro e he
    cases e with
    | readIdSegment idx => exact hids idx s
    | _ => exact he.elim
  obtain ⟨t₁, ht₁⟩ := (@fingerprint_only cr (some hal)
    (some (Vector.replicate 32 0))).exec_of_answer hanswers
  refine ⟨t₁, exec_vlVerify.mpr (.inr ⟨_, _, _, _, r, hargs, ?_, rfl⟩)⟩
  have hval : fingerprintOf cr ids hal = (.ok, (fingerprintOf cr ids hal).2) :=
    Prod.ext (Decidable.not_not.mp hfp) rfl
  change Prog.Exec env _ s t₁ (fingerprintOf cr ids hal) s at ht₁
  rw [hval] at ht₁
  exact .timed hauth ht₁ (Decidable.not_not.mp hdev) hent h

/-! ## One call -/

/-- A call: refused by `entitled`, or `entitled` and then step 6. -/
theorem call_cases {faults : Prop} {m m' : UInt32} {l : Call}
    (h : Step cr cfg hal ids faults m l m') :
    (∃ rc, entitled cr cfg hal ids l.blob = .error rc ∧ Rejects rc ∧
      (∀ ev ∈ l.trace, IsIdRead ev.1) ∧ (l.status, l.result) = verdict l.out (.error rc) ∧
      m' = m) ∨
    (∃ lic t₁ t₂ r, entitled cr cfg hal ids l.blob = .ok lic ∧ l.trace = t₁ ++ t₂ ∧
      (∀ ev ∈ t₁, IsIdRead ev.1) ∧
      TimeStep (devEnv faults ids l.clock) cfg hal lic m t₂ r m' ∧
      (l.status, l.result) = verdict l.out r) :=
  exec_fixed (devEnv_fixed faults ids l.clock) h.2.2

omit [Target] in
theorem timeStep_mark (he : Enforced cfg hal) {faults : Prop} {clock : VlStatus × UInt32}
    {lic : VlLicense} {m m' : UInt32} {t : List HalEvent} {r : Except VlStatus VlLicense}
    (h : TimeStep (devEnv faults ids clock) cfg hal lic m t r m') :
    (∃ rc, r = .error rc ∧ m' = m) ∨
    (∃ lic', r = .ok lic' ∧ clock.1 = .ok ∧ m ≤ clock.2 ∧ m' = clock.2 ∧
      ¬ tooEarly lic clock.2 ∧ ¬ tooLate lic clock.2) := by
  cases h with
  | noClock hc | unchecked hc => rw [he.nowEpoch] at hc; cases hc
  | clockFailed _ hn | notYetValid _ hn | expired _ hn => exact .inl ⟨_, rfl, hn.2⟩
  | inWindow _ _ _ _ hf => exact absurd he.flag hf
  | marked _ hn hearly hlate _ hm =>
    obtain ⟨rfl, rfl⟩ := hn
    cases hm with
    | loadFailed hl | rollback hl => exact .inl ⟨_, rfl, hl.2⟩
    | level hl heq =>
      obtain ⟨rfl, rfl⟩ := devEnv_loaded hl
      exact .inr ⟨_, rfl, rfl, by rw [heq]; exact UInt32.le_refl _, heq.symm, hearly, hlate⟩
    | storeFailed hl _ hs hst =>
      obtain ⟨-, rfl⟩ := devEnv_loaded hl
      exact .inl ⟨_, rfl, devEnv_storeFailed hs hst⟩
    | stored hl hlt hs =>
      obtain ⟨rfl, rfl⟩ := devEnv_loaded hl
      exact .inr ⟨_, rfl, rfl, UInt32.le_of_lt hlt, devEnv_stored hs, hearly, hlate⟩

omit [Target] in
theorem storesOf_idReads {t : List HalEvent} (h : ∀ ev ∈ t, IsIdRead ev.1) : storesOf t = [] := by
  refine List.filterMap_eq_nil_iff.mpr fun ev hev => ?_
  have := h ev hev
  revert this
  cases ev.1 <;> simp [IsIdRead]

omit [Target] in
/-- What is stored behind the identity reads is all that is stored. -/
theorem storesOf_after_idReads {t₁ t₂ : List HalEvent} (h : ∀ ev ∈ t₁, IsIdRead ev.1) :
    storesOf (t₁ ++ t₂) = storesOf t₂ := by
  rw [storesOf, List.filterMap_append]
  change storesOf t₁ ++ storesOf t₂ = _
  rw [storesOf_idReads h, List.nil_append]

omit [Target] in
/-- Step 6 stores nothing; or, in the window, it reads the clock, loads the
mark and stores the reading, which is above it. -/
theorem timeStep_stores {faults : Prop} {clock : VlStatus × UInt32} {lic : VlLicense}
    {m m' : UInt32} {t : List HalEvent} {r : Except VlStatus VlLicense}
    (h : TimeStep (devEnv faults ids clock) cfg hal lic m t r m') :
    storesOf t = [] ∨
    (∃ st, t = [⟨.nowEpoch, clock⟩, ⟨.hwmLoad, (.ok, m)⟩, ⟨.hwmStore clock.2, st⟩] ∧
      clock.1 = .ok ∧ m < clock.2 ∧ ¬ tooEarly lic clock.2 ∧ ¬ tooLate lic clock.2) := by
  cases h with
  | marked _ hn hearly hlate _ hm =>
    obtain ⟨rfl, rfl⟩ := hn
    cases hm with
    | loadFailed | rollback | level => exact .inl rfl
    | storeFailed hl hlt | stored hl hlt =>
      obtain ⟨rfl, rfl⟩ := devEnv_loaded hl
      exact .inr ⟨_, rfl, rfl, hlt, hearly, hlate⟩
  | _ => exact .inl rfl

theorem step_mark (he : Enforced cfg hal) {faults : Prop} {m m' : UInt32} {l : Call}
    (h : Step cr cfg hal ids faults m l m') :
    (l.status = .ok ∧ m ≤ l.reading ∧ m' = l.reading) ∨ (l.status ≠ .ok ∧ m' = m) := by
  rcases call_cases h with ⟨rc, -, hrej, -, hv, hm⟩ | ⟨lic, t₁, t₂, r, -, -, -, ht, hv⟩
  · exact .inr ⟨by rw [(Prod.mk.inj hv).1]; exact hrej.1, hm⟩
  · rcases timeStep_mark he ht with ⟨rc, rfl, hm⟩ | ⟨lic', rfl, -, hle, hm, -⟩
    · exact .inr ⟨by rw [(Prod.mk.inj hv).1]; exact ht.rejects.1, hm⟩
    · exact .inl ⟨(Prod.mk.inj hv).1, hle, hm⟩

/-! ## Repeating a call -/

/-- Step 6 when the storage works: the result, and the mark after it. -/
def expected (lic : VlLicense) (clock : VlStatus × UInt32) (m : UInt32) :
    Except VlStatus VlLicense × UInt32 :=
  if clock.1 ≠ .ok then (.error .errPlatform, m)
  else if tooEarly lic clock.2 then (.error .errNotYetValid, m)
  else if tooLate lic clock.2 then (.error .errExpired, m)
  else if clock.2 < m then (.error .errClockRollback, m)
  else (.ok ((lic.withChecked VL_CHECKED_TIME).withChecked VL_CHECKED_HWM), clock.2)

omit [Target] in
theorem timeStep_expected (he : Enforced cfg hal) {faults : Prop} {clock : VlStatus × UInt32}
    {lic : VlLicense} {m m' : UInt32} {t : List HalEvent} {r : Except VlStatus VlLicense}
    (h : TimeStep (devEnv faults ids clock) cfg hal lic m t r m')
    (hok : ∀ ev ∈ t, ¬ StorageFails ev) : (r, m') = expected lic clock m := by
  unfold expected
  cases h with
  | noClock hc | unchecked hc => rw [he.nowEpoch] at hc; cases hc
  | clockFailed _ hn hst =>
    obtain ⟨rfl, rfl⟩ := hn
    rw [if_pos hst]
  | notYetValid _ hn hearly =>
    obtain ⟨rfl, rfl⟩ := hn
    rw [if_neg (by simp), if_pos hearly]
  | expired _ hn hearly hlate =>
    obtain ⟨rfl, rfl⟩ := hn
    rw [if_neg (by simp), if_neg hearly, if_pos hlate]
  | inWindow _ _ _ _ hf => exact absurd he.flag hf
  | marked _ hn hearly hlate _ hm =>
    obtain ⟨rfl, rfl⟩ := hn
    rw [if_neg (by simp), if_neg hearly, if_neg hlate]
    cases hm with
    | loadFailed hl hst => exact (hok _ (.tail _ (.head _)) hst).elim
    | rollback hl hlt =>
      obtain ⟨rfl, rfl⟩ := devEnv_loaded hl
      rw [if_pos hlt]
    | level hl heq =>
      obtain ⟨rfl, rfl⟩ := devEnv_loaded hl
      rw [if_neg (by simp [heq])]
      simp only [heq]
    | storeFailed hl hlt hs hst => exact (hok _ (.tail _ (.tail _ (.head _))) hst).elim
    | stored hl hlt hs =>
      obtain ⟨rfl, rfl⟩ := devEnv_loaded hl
      obtain rfl := devEnv_stored hs
      rw [if_neg (UInt32.lt_asymm hlt)]

omit [Target] in
/-- Step 6 can always go as expected. -/
theorem timeStep_of_expected (he : Enforced cfg hal) (clock : VlStatus × UInt32)
    (lic : VlLicense) (m : UInt32) :
    ∃ t, TimeStep (devEnv False ids clock) cfg hal lic m t (expected lic clock m).1
      (expected lic clock m).2 := by
  have hload : devEnv False ids clock .hwmLoad m (.ok, m) m := ⟨.inl rfl, rfl⟩
  obtain ⟨st, now⟩ := clock
  by_cases h₁ : st ≠ .ok
  · rw [show expected lic (st, now) m = (.error .errPlatform, m) from if_pos h₁]
    exact ⟨_, .clockFailed he.nowEpoch ⟨rfl, rfl⟩ h₁⟩
  obtain rfl : st = .ok := Decidable.not_not.mp h₁
  have hnow : devEnv False ids (.ok, now) .nowEpoch m (.ok, now) m := ⟨rfl, rfl⟩
  by_cases h₂ : tooEarly lic now
  · simp only [expected, h₁, h₂, if_true, if_false]
    exact ⟨_, .notYetValid he.nowEpoch hnow h₂⟩
  by_cases h₃ : tooLate lic now
  · simp only [expected, h₁, h₂, h₃, if_true, if_false]
    exact ⟨_, .expired he.nowEpoch hnow h₂ h₃⟩
  by_cases h₄ : now < m
  · simp only [expected, h₁, h₂, h₃, h₄, if_true, if_false]
    exact ⟨_, .marked he.nowEpoch hnow h₂ h₃ he.flag (.rollback hload h₄)⟩
  simp only [expected, h₁, h₂, h₃, h₄, if_false]
  by_cases h₅ : now = m
  · subst h₅
    exact ⟨_, .marked he.nowEpoch hnow h₂ h₃ he.flag (.level hload rfl)⟩
  · have hlt : m < now := UInt32.lt_of_le_of_ne (UInt32.not_lt.mp h₄) (Ne.symm h₅)
    exact ⟨_, .marked he.nowEpoch hnow h₂ h₃ he.flag (.stored hload hlt (.inl ⟨rfl, rfl⟩))⟩

/-- The device can always make a call that goes as expected. -/
theorem exists_call (he : Enforced cfg hal) {blob : Option CStr} {lic : VlLicense}
    (hent : entitled cr cfg hal ids blob = .ok lic) (faults : Prop) (clock : VlStatus × UInt32)
    (out : Option VlLicense) (m : UInt32) :
    ∃ l : Call, Step cr cfg hal ids faults m l (expected lic clock m).2 ∧ l.blob = blob ∧
      l.clock = clock ∧ l.out = out ∧ (∀ ev ∈ l.trace, ¬ StorageFails ev) ∧
      (l.status, l.result) = verdict out (expected lic clock m).1 := by
  obtain ⟨t, ht⟩ := @timeStep_of_expected cfg hal ids he clock lic m
  obtain ⟨t₁, hexec⟩ := @exec_of_entitled _ cr cfg hal ids _ _ (fun _ _ => ⟨rfl, rfl⟩) _ out _ _ _ _ _
    hent ht
  have hok : ∀ ev ∈ t₁ ++ t, ¬ StorageFails ev := fun ev hev => by
    obtain ⟨_, _, hans⟩ := hexec.answered ev hev
    exact devEnv_noFault hans
  exact ⟨⟨blob, clock, out, t₁ ++ t, _, _, m, _⟩,
    ⟨rfl, rfl, hexec.mono fun _ _ _ _ => devEnv_weaken⟩, rfl, rfl, rfl, hok, rfl⟩

omit [Target] in
/-- From the mark a call leaves, the same call has the same result and no room to store. -/
theorem expected_again (lic : VlLicense) (clock : VlStatus × UInt32) (m : UInt32) :
    (expected lic clock (expected lic clock m).2).1 = (expected lic clock m).1 ∧
      (clock.1 = .ok → ¬ tooEarly lic clock.2 → ¬ tooLate lic clock.2 →
        ¬ (expected lic clock m).2 < clock.2) := by
  by_cases h₁ : clock.1 ≠ .ok
  · simp [expected, h₁]
  by_cases h₂ : tooEarly lic clock.2
  · simp [expected, h₁, h₂]
  by_cases h₃ : tooLate lic clock.2
  · simp [expected, h₁, h₂, h₃]
  by_cases h₄ : clock.2 < m
  · simp only [expected, h₁, h₂, h₃, h₄, if_false, if_true, true_and]
    exact fun _ _ _ => UInt32.lt_asymm h₄
  · simp [expected, h₁, h₂, h₃, h₄]

omit [Target] in
theorem verdict_congr {o o' : Option VlLicense} (h : o.isSome = o'.isSome)
    (r : Except VlStatus VlLicense) : verdict o r = verdict o' r := by
  cases o <;> cases o' <;> cases r <;> simp_all [verdict]

/-- The same arguments (up to what `*out` held) and the same clock. -/
def Call.Same (l l' : Call) : Prop :=
  l'.blob = l.blob ∧ l'.clock = l.clock ∧ l'.out.isSome = l.out.isSome

theorem step_repeat (he : Enforced cfg hal) {faults : Prop} {m m₁ m₂ : UInt32} {l l' : Call}
    (h : Step cr cfg hal ids faults m l m₁) (h' : Step cr cfg hal ids faults m₁ l' m₂)
    (hsame : l.Same l') (hok : ∀ ev ∈ l.trace, ¬ StorageFails ev)
    (hok' : ∀ ev ∈ l'.trace, ¬ StorageFails ev) :
    l'.status = l.status ∧ l'.result = l.result ∧ storesOf l'.trace = [] := by
  obtain ⟨hblob, hclock, hout⟩ := hsame
  rcases call_cases h with ⟨rc, ha, -, -, hv, -⟩ | ⟨lic, t₁, t₂, r, ha, ht, -, hstep, hv⟩
  · rcases call_cases h' with ⟨rc', ha', -, hid, hv', -⟩ | ⟨lic, _, _, _, ha', -⟩
    · rw [hblob, ha, Except.error.injEq] at ha'
      subst ha'
      rw [verdict_congr hout, ← hv] at hv'
      exact ⟨(Prod.mk.inj hv').1, (Prod.mk.inj hv').2, storesOf_idReads hid⟩
    · rw [hblob, ha] at ha'
      cases ha'
  · rcases call_cases h' with ⟨_, ha', -⟩ | ⟨lic', t₁', t₂', r', ha', ht', hid, hstep', hv'⟩
    · rw [hblob, ha] at ha'
      cases ha'
    · rw [hblob, ha, Except.ok.injEq] at ha'
      subst ha'
      rw [hclock] at hstep'
      have hr := timeStep_expected he hstep fun ev hev =>
        hok ev (by rw [ht]; exact List.mem_append_right _ hev)
      have hr' := timeStep_expected he hstep' fun ev hev =>
        hok' ev (by rw [ht']; exact List.mem_append_right _ hev)
      obtain ⟨hagain, hroom⟩ := expected_again lic l.clock m
      rw [← hr] at hagain hroom
      rw [← hr'] at hagain
      simp only at hagain hroom
      subst hagain
      rw [verdict_congr hout, ← hv] at hv'
      refine ⟨(Prod.mk.inj hv').1, (Prod.mk.inj hv').2, ?_⟩
      rw [ht', storesOf_after_idReads hid]
      rcases timeStep_stores hstep' with hs | ⟨-, -, hclk, hlt, hearly, hlate⟩
      · exact hs
      · exact absurd hlt (hroom hclk hearly hlate)

/-! ## Runs -/

/-- The readings of the accepted calls, in order. -/
def okReadings (calls : List Call) : List UInt32 :=
  (calls.filter fun l => l.status = .ok).map Call.reading

/-- **The mark is the maximum of the accepted readings**, which never go back. -/
theorem run_mark (he : Enforced cfg hal) {faults : Prop} {m m' : UInt32} {calls : List Call}
    (h : Run (Step cr cfg hal ids faults) m calls m') :
    m' = (okReadings calls).foldl max m ∧ (okReadings calls).Pairwise (· ≤ ·) ∧
      ∀ r ∈ okReadings calls, m ≤ r := by
  induction h with
  | nil m => exact ⟨rfl, .nil, by simp [okReadings]⟩
  | @cons m m₁ m' l ls hstep _ ih =>
    obtain ⟨ih₁, ih₂, ih₃⟩ := ih
    rcases step_mark he hstep with ⟨hst, hle, rfl⟩ | ⟨hst, rfl⟩
    · have hcons : okReadings (l :: ls) = l.reading :: okReadings ls := by
        simp [okReadings, hst]
      have hmax : max m l.reading = l.reading := if_pos hle
      rw [hcons]
      refine ⟨by rw [List.foldl_cons, hmax]; exact ih₁, List.pairwise_cons.mpr ⟨ih₃, ih₂⟩, ?_⟩
      intro r hr
      rcases List.mem_cons.mp hr with rfl | hr
      · exact hle
      · exact UInt32.le_trans hle (ih₃ r hr)
    · have hskip : okReadings (l :: ls) = okReadings ls := by
        simp [okReadings, hst]
      rw [hskip]
      exact ⟨ih₁, ih₂, ih₃⟩

/-- Without the flag, step 6 has nothing to do with the mark. -/
theorem no_flag_no_mark {σ : Type} {env : Env HalCall.Resp σ} (hflag : ¬ cfg.enforceHwm)
    {blob : Option CStr} {out : Option VlLicense} {s s' : σ} {t : List HalEvent}
    {hal : Option HalMask} {v : VlStatus × Option VlLicense}
    (h : Prog.Exec env (vlVerify cr blob (some cfg) hal out) s t v s') :
    ∀ ev ∈ t, ev.1 ≠ .hwmLoad ∧ ∀ x, ev.1 ≠ .hwmStore x := by
  rcases exec_vlVerify.mp h with ⟨-, -, rfl, -, -⟩ | ⟨b, c, keys, m, r, hargs, hstep, -⟩
  · simp
  obtain ⟨-, hc, -⟩ := checkArgs_ok_iff.mp hargs
  cases hc
  have hread : ∀ ev : HalEvent, IsIdRead ev.1 → ev.1 ≠ .hwmLoad ∧ ∀ x, ev.1 ≠ .hwmStore x := by
    rintro ⟨e, _⟩ he
    cases e <;> simp [IsIdRead] at he ⊢
  intro ev hev
  rcases hstep.split with hall | ⟨t₁, t₂, _, _, _, _, rfl, -, -, hall, -, -, lic, htime⟩
  · exact hread ev (hall ev hev)
  · rcases List.mem_append.mp hev with hev | hev
    · exact hread ev (hall ev hev)
    · cases htime with
      | noClock | unchecked => cases hev
      | marked _ _ _ _ hf => exact absurd hf hflag
      | _ => rw [List.mem_singleton.mp hev]; simp

/-- Signature, device, deny-list and window have passed for the clock value `v`. -/
def PassedBefore (cr : Crypto) (cfg : VlConfig) (hal : HalMask) (ids : UInt32 → SegRead)
    (blob : Option CStr) (v : UInt32) : Prop :=
  ∃ str keys b pk, blob = some str ∧ cfg.keys = some keys ∧ Authentic cr cfg keys str b pk ∧
    (fingerprintOf cr ids hal).1 = .ok ∧
    deviceMatches (fingerprintOf cr ids hal).2 (readPayload b) ∧ NotRevoked cfg (le32 b 32) ∧
    (le32 b 24 = 0 ∨ le32 b 24 ≤ v) ∧ (le32 b 28 = 0 ∨ v ≤ le32 b 28)

/-- A store of `v`: above the mark, after everything that must pass, and as the
last callback of the call, behind the identity, the clock and the load. -/
structure StoreAllowed (cr : Crypto) (cfg : VlConfig) (hal : HalMask) (ids : UInt32 → SegRead)
    (l : Call) (v : UInt32) : Prop where
  above : l.before < v
  clock : l.clock = (.ok, v)
  passed : PassedBefore cr cfg hal ids l.blob v
  last : ∃ t st, (∀ ev ∈ t, IsIdRead ev.1) ∧
    l.trace = t ++ [⟨.nowEpoch, (.ok, v)⟩, ⟨.hwmLoad, (.ok, l.before)⟩, ⟨.hwmStore v, st⟩]

theorem step_stores {faults : Prop} {m m' : UInt32} {l : Call}
    (h : Step cr cfg hal ids faults m l m') :
    (storesOf l.trace).length ≤ 1 ∧
      ∀ v ∈ storesOf l.trace, StoreAllowed cr cfg hal ids l v := by
  rcases call_cases h with ⟨rc, -, -, hid, -, -⟩ | ⟨lic, t₁, t₂, r, hent, ht, hid, hstep, -⟩
  · simp [storesOf_idReads hid]
  rw [ht, storesOf_after_idReads hid]
  rcases timeStep_stores hstep with hs | ⟨st, rfl, hclk, hlt, hearly, hlate⟩
  · simp [hs]
  have hclock : l.clock = (.ok, l.clock.2) := Prod.ext hclk rfl
  refine ⟨Nat.le_refl 1, fun v hv => ?_⟩
  obtain rfl : v = l.clock.2 := List.mem_singleton.mp hv
  obtain ⟨str, keys, b, pk, hblob, hkeys, -, ha, hfp, hdev, hrev, hnb, hna⟩ := entitled_ok hent
  rw [not_tooEarly_iff, hnb] at hearly
  rw [not_tooLate_iff, hna] at hlate
  refine ⟨by rw [h.1]; exact hlt, hclock,
    ⟨str, keys, b, pk, hblob, hkeys, ha, hfp, hdev, hrev, hearly, hlate⟩, t₁, st, hid, ?_⟩
  rw [ht, h.1, ← hclock]

/-- **Exact evolution of the mark**, over every run of calls on the device. -/
theorem mark_evolution (he : Enforced cfg hal) {m m' : UInt32} {calls : List Call}
    (h : Run (Step cr cfg hal ids True) m calls m') :
    m' = (okReadings calls).foldl max m ∧
    (∀ l ∈ calls, l.status ≠ .ok → l.after = l.before) ∧
    (okReadings calls).Pairwise (· ≤ ·) ∧
    (∀ l ∈ calls, (storesOf l.trace).length ≤ 1 ∧
      ∀ v ∈ storesOf l.trace, StoreAllowed cr cfg hal ids l v) ∧
    (∀ as l l' bs, calls = as ++ l :: l' :: bs → l.Same l' →
      (∀ ev ∈ l.trace ++ l'.trace, ¬ StorageFails ev) →
      l'.status = l.status ∧ l'.result = l.result ∧ storesOf l'.trace = []) ∧
    (∀ (cfg' : VlConfig) (hal' : HalMask) (faults : Prop) (m₀ m₁ : UInt32) (l : Call),
      ¬ cfg'.enforceHwm → Step cr cfg' hal' ids faults m₀ l m₁ →
      ∀ ev ∈ l.trace, ev.1 ≠ .hwmLoad ∧ ∀ x, ev.1 ≠ .hwmStore x) := by
  obtain ⟨hmax, hmono, -⟩ := run_mark he h
  refine ⟨hmax, fun l hl hst => ?_, hmono, fun l hl => ?_, fun as l l' bs heq hsame hok => ?_,
    fun cfg' hal' faults m₀ m₁ l hflag hstep => no_flag_no_mark hflag hstep.2.2⟩
  · obtain ⟨as, bs, m₀, m₁, -, -, hstep, -⟩ := h.mem_step hl
    rcases step_mark he hstep with ⟨hok, -⟩ | ⟨-, hm⟩
    · exact absurd hok hst
    · rw [hstep.1, hstep.2.1, hm]
  · obtain ⟨as, bs, m₀, m₁, -, -, hstep, -⟩ := h.mem_step hl
    exact step_stores hstep
  · rw [heq] at h
    obtain ⟨m₀, -, htail⟩ := Run.append_iff.mp h
    obtain ⟨m₁, hl, htail⟩ := Run.cons_iff.mp htail
    obtain ⟨m₂, hl', -⟩ := Run.cons_iff.mp htail
    exact step_repeat he hl hl' hsame (fun ev hev => hok ev (List.mem_append_left _ hev))
      (fun ev hev => hok ev (List.mem_append_right _ hev))

omit [Target] in
/-- Accepted, turned back, past the end, accepted, and the same again. -/
theorem mark_evolution_windowed : ∃ l₁ l₂ l₃ l₄ l₅ : Call,
    @Run _ _ (@Step host64 fixCrypto fixConfig vltHalFull vltReadIdSegment True) 1750000000
      [l₁, l₂, l₃, l₄, l₅] 1750000100 ∧
    [l₁, l₂, l₃, l₄, l₅].map (fun l => (l.status, l.reading)) =
      [(.ok, 1750000001), (.errClockRollback, 1749999999), (.errExpired, 1800000001),
        (.ok, 1750000100), (.ok, 1750000100)] ∧
    (1750000100 : UInt32) = (okReadings [l₁, l₂, l₃, l₄, l₅]).foldl max 1750000000 ∧
    l₂.after = l₂.before ∧ l₃.after = l₃.before ∧
    (okReadings [l₁, l₂, l₃, l₄, l₅]).Pairwise (· ≤ ·) ∧ storesOf l₅.trace = [] := by
  have hcall := @exists_call host64 _ _ _ _ vltHalFull_enforced _ _ windowed_entitled True
  obtain ⟨l₁, hstep₁, -, hc₁, -, -, hv₁⟩ := hcall (.ok, 1750000001) none 1750000000
  obtain ⟨l₂, hstep₂, -, hc₂, -, -, hv₂⟩ := hcall (.ok, 1749999999) none 1750000001
  obtain ⟨l₃, hstep₃, -, hc₃, -, -, hv₃⟩ := hcall (.ok, 1800000001) none 1750000001
  obtain ⟨l₄, hstep₄, hb₄, hc₄, ho₄, hok₄, hv₄⟩ := hcall (.ok, 1750000100) none 1750000001
  obtain ⟨l₅, hstep₅, hb₅, hc₅, ho₅, hok₅, hv₅⟩ := hcall (.ok, 1750000100) none 1750000100
  have hrun := Run.cons hstep₁ (.cons hstep₂ (.cons hstep₃ (.cons hstep₄ (.cons hstep₅ (.nil _)))))
  have hst₁ : l₁.status = .ok := (congrArg Prod.fst hv₁).trans (by decide)
  have hst₂ : l₂.status = .errClockRollback := (congrArg Prod.fst hv₂).trans (by decide)
  have hst₃ : l₃.status = .errExpired := (congrArg Prod.fst hv₃).trans (by decide)
  have hst₄ : l₄.status = .ok := (congrArg Prod.fst hv₄).trans (by decide)
  have hst₅ : l₅.status = .ok := (congrArg Prod.fst hv₅).trans (by decide)
  have hsame : l₄.Same l₅ := ⟨hb₅.trans hb₄.symm, hc₅.trans hc₄.symm, by rw [ho₅, ho₄]⟩
  obtain ⟨hmax, hkept, hmono, -, hrepeat, -⟩ :=
    @mark_evolution host64 _ _ _ _ vltHalFull_enforced _ _ _ hrun
  refine ⟨l₁, l₂, l₃, l₄, l₅, hrun, ?_, hmax, hkept l₂ (by simp) (by rw [hst₂]; decide),
    hkept l₃ (by simp) (by rw [hst₃]; decide), hmono,
    (hrepeat [l₁, l₂, l₃] l₄ l₅ [] rfl hsame ?_).2.2⟩
  · simp [Call.reading, hst₁, hst₂, hst₃, hst₄, hst₅, hc₁, hc₂, hc₃, hc₄, hc₅]
  · intro ev hev
    exact (List.mem_append.mp hev).elim (hok₄ ev) (hok₅ ev)

end VectiLicense.L4.Mark
