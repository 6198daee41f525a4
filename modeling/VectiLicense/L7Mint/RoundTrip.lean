import VectiLicense.L3Verify.Precedence
import VectiLicense.L4Mark.Device
import VectiLicense.L7Mint.Issue

/-!
# From the minting tool to the device

A licence goes through two programs in two languages: the device spells its
id, the tool reads it, packs and signs the terms and spells the blob, the
device reads that back, takes the fields apart and judges them. Everything
between the two ends is assumed of Ed25519 alone: what the library signs its
own check accepts, and `vl_ed25519_verify` too.

* `readPayload_bytes`: the device reads off the fields the tool packed.
* `verifyOn_first`, `verifyOn_passes`: the status of a call is the first
  failing check's, or `VL_OK`.
* `mint_round_trip`: the device accepts exactly inside the window and hands
  out the issued terms; another device refuses.
-/
namespace VectiLicense.L7

open VectiLicense.Core VectiLicense.L0 VectiLicense.L3 VectiLicense.L1.Base32
open VectiLicense.L4.Mark (fixCrypto vltReadIdSegment windowedPayload windowedSig FIX_PUBKEY
  FIX_FINGERPRINT)

/-! ## The fields -/

/-- The licence that carries the terms to the device `dev`. -/
def Terms.license (terms : Terms) (dev : Vector UInt8 16) (checked : UInt32) : VlLicense where
  version := 1
  keyId := terms.keyId
  family := terms.family
  features := terms.features
  deviceId := dev
  notBefore := terms.notBefore
  notAfter := terms.notAfter
  serial := terms.serial
  checked := checked

/-- The fields of the packed terms, at the offsets of the C side. -/
structure Fields (b : List UInt8) (terms : Terms) (dev : List UInt8) : Prop where
  features : le32 b 4 = terms.features
  device : (b.drop 8).take 16 = dev
  notBefore : le32 b 24 = terms.notBefore
  notAfter : le32 b 28 = terms.notAfter
  serial : le32 b 32 = terms.serial

theorem fields_bytes (terms : Terms) {dev : List UInt8} (hdev : dev.length = 16)
    (sig : List UInt8) : Fields (terms.bytes dev ++ sig) terms dev := by
  let header : List UInt8 := [0x56, 0x01, terms.keyId, terms.family]
  let upTo8 := header ++ leBytes 4 terms.features.toNat
  let upTo24 := upTo8 ++ dev
  let upTo28 := upTo24 ++ leBytes 4 terms.notBefore.toNat
  let upTo32 := upTo28 ++ leBytes 4 terms.notAfter.toNat
  let after28 := leBytes 4 terms.notAfter.toNat ++ (leBytes 4 terms.serial.toNat ++ sig)
  have hb : terms.bytes dev ++ sig = upTo24 ++ leBytes 4 terms.notBefore.toNat ++ after28 := by
    simp only [Terms.bytes, List.append_assoc, upTo24, upTo8, header, after28]
  have h4 : header.length = 4 := rfl
  have h8 : upTo8.length = 8 := by simp [upTo8, header]
  have h24 : upTo24.length = 24 := by simp [upTo24, h8, hdev]
  have h28 : upTo28.length = 28 := by simp [upTo28, h24]
  have h32 : upTo32.length = 32 := by simp [upTo32, h28]
  rw [hb]
  refine ⟨?_, ?_, ?_, ?_, ?_⟩
  · have h := le32_append header (dev ++ (leBytes 4 terms.notBefore.toNat ++ after28))
      terms.features
    rw [h4] at h
    simpa only [upTo24, upTo8, List.append_assoc] using h
  · have h := @slice_append _ _ _ (leBytes 4 terms.notBefore.toNat ++ after28) _ _ h8 hdev
    simpa only [upTo24, List.append_assoc] using h
  · have h := le32_append upTo24 after28 terms.notBefore
    rwa [h24] at h
  · have h := le32_append upTo28 (leBytes 4 terms.serial.toNat ++ sig) terms.notAfter
    rw [h28] at h
    simpa only [upTo28, after28, List.append_assoc] using h
  · have h := le32_append upTo32 sig terms.serial
    rw [h32] at h
    simpa only [upTo32, upTo28, after28, List.append_assoc] using h

/-- The first bytes of a fingerprint. -/
def deviceIdOf (fp : Vector UInt8 32) : Vector UInt8 16 := fp.take 16

theorem deviceIdOf_toList (fp : Vector UInt8 32) : (deviceIdOf fp).toList = fp.toList.take 16 :=
  Vector.toList_take ..

/-- The device reads off what the tool packed. -/
theorem readPayload_bytes (terms : Terms) (dev : Vector UInt8 16) (sig : Vector UInt8 64)
    (checked : UInt32) :
    { readPayload (terms.bytes dev.toList ++ sig.toList) with checked := checked } =
      terms.license dev checked := by
  have hdev : dev.toList.length = 16 := by simp
  have hlen : (terms.bytes dev.toList ++ sig.toList).length = 100 := by simp
  have hf := fields_bytes terms hdev sig.toList
  have hid : (readPayload (terms.bytes dev.toList ++ sig.toList)).deviceId = dev := by
    apply Vector.toList_inj.mp
    rw [readPayload_deviceId hlen, hf.device]
  have hread : ∀ off, off + 4 ≤ 100 → rdLe32 (terms.bytes dev.toList ++ sig.toList) off =
      le32 (terms.bytes dev.toList ++ sig.toList) off := by
    intro off hoff
    exact rdLe32_eq (by rw [hlen]; exact hoff)
  have h4 := (hread OFF_FEATURES (by decide)).trans hf.features
  have h24 := (hread OFF_NOT_BEFORE (by decide)).trans hf.notBefore
  have h28 := (hread OFF_NOT_AFTER (by decide)).trans hf.notAfter
  have h32 := (hread OFF_SERIAL (by decide)).trans hf.serial
  simp only [readPayload] at hid
  simp only [readPayload, Terms.license, VlLicense.mk.injEq, hid, h4, h24, h28, h32, and_true]
  exact ⟨rfl, rfl, rfl⟩

section
variable [Target]

/-! ## The device id -/

theorem vlEncodeDeviceId_spec (fp : Vector UInt8 32) :
    ∃ id : CStr, text id = b32 (deviceIdOf fp).toList ∧
      ∀ cap, 27 ≤ cap → vlEncodeDeviceId (some fp) .buf cap =
        (.ok, seqWrites (id.bytes ++ [0])) := by
  have hlen : (deviceIdOf fp).toList.length = 16 := by simp
  obtain ⟨id, htext, hl, hwrites, -⟩ := b32_round_trip (deviceIdOf fp).toList (by omega) (by omega)
  rw [hlen] at hl hwrites
  refine ⟨id, htext, fun cap hcap => ?_⟩
  unfold vlEncodeDeviceId
  have henc := hwrites cap hcap
  rw [deviceIdOf_toList] at henc
  simp only [show VL_DEVICE_ID_LEN = 16 from rfl, henc, hl, VL_DEVICE_ID_STR_BUF_LEN,
    VL_DEVICE_ID_STR_LEN]
  rw [if_neg (by omega), if_neg (by simp)]

/-! ## The verdict -/

/-- The firmware has the vendor's key under the licence's key id, is of its
family, does not deny its serial and sets no flag. -/
structure Trusts (c : VlConfig) (pk : Vector UInt8 32) (terms : Terms) : Prop where
  key : ∃ keys k, c.keys = some keys ∧ keys.find? (fun k => k.keyId = terms.keyId) = some k ∧
    k.key = pk
  family : c.family = terms.family
  notRevoked : NotRevoked c terms.serial
  noFlags : c.flags = 0

/-- The blob carries the terms to the device `fp`, signed. -/
structure Carries (cr : Crypto) (pk : Vector UInt8 32) (terms : Terms) (fp : Vector UInt8 32)
    (blob : CStr) (sig : Vector UInt8 64) : Prop where
  decodes : DecodesTo blob (terms.bytes (deviceIdOf fp).toList ++ sig.toList)
  signature : cr.vlEd25519Verify sig.toList
    (VL_SIGN_PREFIX ++ [0] ++ terms.bytes (deviceIdOf fp).toList) pk = true

variable {cr : Crypto} {pk fp fp' : Vector UInt8 32} {terms : Terms} {blob : CStr}
  {sig : Vector UInt8 64} {c : VlConfig} {σ : Type} {hal : VlHal σ} {s : σ}

theorem Carries.fields (h : Carries cr pk terms fp blob sig) {b : List UInt8}
    (hb : DecodesTo blob b) : Fields b terms (fp.toList.take 16) := by
  obtain rfl := hb.unique h.decodes
  rw [← deviceIdOf_toList]
  exact fields_bytes terms (by simp) sig.toList

/-- Steps 1 to 3 pass. -/
theorem Carries.first (h : Carries cr pk terms fp blob sig) (htrust : Trusts c pk terms)
    (hid : (identityRun cr hal s).val = (.ok, some fp')) :
    PassAll (⟨ArgsOk (some blob) (some c) (some hal), .errInvalidArg⟩ ::
      blobChecks cr blob c (c.keys.getD [])) := by
  obtain ⟨keys, k, hkeys, hfind, hpk⟩ := htrust.key
  have hread := identityRun_provided (by rw [hid])
  have hne : keys ≠ [] := List.ne_nil_of_mem (List.mem_of_find?_eq_some hfind)
  have hflag : ¬ c.enforceHwm := by simp [VlConfig.enforceHwm, htrust.noFlags]
  have hlen : (terms.bytes (deviceIdOf fp).toList).length = 36 := by simp
  refine passAll_cons.mpr ⟨⟨rfl, c, hal, keys, rfl, rfl, hkeys, hne, hread, fun hf =>
    absurd hf hflag⟩, ?_⟩
  rw [hkeys, Option.getD_some]
  refine authenticate_ok_checks (authenticate_ok_iff.mpr
    ⟨_, k, ⟨h.decodes, rfl, rfl, htrust.family.symm, hfind, ?_⟩, rfl⟩)
  rw [List.drop_left' hlen, List.take_left' hlen, List.take_of_length_le (by simp), hpk]
  exact h.signature

theorem Carries.elsewhere (h : Carries cr pk terms fp blob sig) (htrust : Trusts c pk terms)
    (hid : (identityRun cr hal s).val = (.ok, some fp'))
    (hother : fp'.toList.take 16 ≠ fp.toList.take 16) (out : Option VlLicense) :
    (verifyOn cr (some blob) (some c) (some hal) out s).val =
      (.errDeviceMismatch, out.map fun _ => VlLicense.zero) := by
  refine verifyOn_first (FirstFailure.after (h.first htrust hid) (FirstFailure.append
    (.next (by rw [hid]) (.of_error ?_ rfl)))) out
  intro hsame
  exact hother ((hsame _ fp' h.decodes (by rw [hid])).trans (h.fields h.decodes).device)

/-- What the device says of the licence with its clock at `t`. -/
structure Judged (terms : Terms) (fp : Vector UInt8 32) (t checked : UInt32)
    (out : Option VlLicense) (v : VlStatus × Option VlLicense) : Prop where
  ok_iff : v.1 = .ok ↔ (terms.notBefore = 0 ∨ terms.notBefore ≤ t) ∧
    (terms.notAfter = 0 ∨ t ≤ terms.notAfter)
  early : terms.notBefore ≠ 0 → t < terms.notBefore → v.1 = .errNotYetValid
  late : terms.notAfter ≠ 0 → terms.notAfter < t → v.1 = .errExpired
  license : v.1 = .ok → v.2 = out.map fun _ => terms.license (deviceIdOf fp) checked

theorem Carries.forall_decodes (h : Carries cr pk terms fp blob sig) (P : List UInt8 → Prop) :
    (∀ b, DecodesTo blob b → P b) ↔ P (terms.bytes (deviceIdOf fp).toList ++ sig.toList) :=
  ⟨fun hP => hP _ h.decodes, fun hP _ hb => h.decodes.unique hb ▸ hP⟩

/-- Steps 4 and 5 pass on its own device. -/
theorem Carries.home (h : Carries cr pk terms fp blob sig) (htrust : Trusts c pk terms)
    (hid : (identityRun cr hal s).val = (.ok, some fp'))
    (hsame : fp'.toList.take 16 = fp.toList.take 16) : PassAll (deviceChecks cr blob c hal s) := by
  simp only [deviceChecks, passAll_cons, passAll_nil, and_true]
  refine ⟨by rw [hid], ?_, (h.forall_decodes _).mpr ?_⟩
  · intro b v hb hv
    rw [hid] at hv
    obtain rfl : fp' = v := Option.some.inj hv
    rw [hsame, (h.fields hb).device]
  · rw [(h.fields h.decodes).serial]
    exact htrust.notRevoked

omit [Target] in
theorem Trusts.unmarked (h : Trusts c pk terms) (now : UInt32) (s' : σ) :
    PassAll (markChecks c hal now s') := by
  have hflag : ¬ c.enforceHwm := by simp [VlConfig.enforceHwm, h.noFlags]
  simp only [markChecks, passAll_cons, passAll_nil, hflag, false_implies, implies_true, and_self]

/-- Its own device judges it by the window. -/
theorem Carries.judged (h : Carries cr pk terms fp blob sig) (hterms : terms.Ordered)
    (htrust : Trusts c pk terms) (hid : (identityRun cr hal s).val = (.ok, some fp'))
    (hsame : fp'.toList.take 16 = fp.toList.take 16) {t : UInt32} (hclock : hal.nowEpoch.isSome)
    (hnow : (hal.handler .nowEpoch (identityRun cr hal s).st).1 = (.ok, t))
    (out : Option VlLicense) :
    Judged terms fp t (checkedBits c hal.mask) out
      (verifyOn cr (some blob) (some c) (some hal) out s).val := by
  have hf := h.fields h.decodes
  have hdevice := h.home htrust hid hsame
  have hthere : hal.nowEpoch = none → ¬ c.requireClock := by
    intro hnone
    rw [hnone] at hclock
    cases hclock
  have hanswer : hal.nowEpoch.isSome →
      (hal.handler .nowEpoch (identityRun cr hal s).st).1.1 = .ok := by
    intro _
    rw [hnow]
  have hearly : ((hal.nowEpoch.isSome → ∀ b, DecodesTo blob b → le32 b 24 = 0 ∨ le32 b 24 ≤
      (hal.handler .nowEpoch (identityRun cr hal s).st).1.2) ↔
      terms.notBefore = 0 ∨ terms.notBefore ≤ t) := by
    rw [h.forall_decodes, hf.notBefore, hnow]
    exact ⟨fun hP => hP hclock, fun hP _ => hP⟩
  have hlate : ((hal.nowEpoch.isSome → ∀ b, DecodesTo blob b → le32 b 28 = 0 ∨
      (hal.handler .nowEpoch (identityRun cr hal s).st).1.2 ≤ le32 b 28) ↔
      terms.notAfter = 0 ∨ t ≤ terms.notAfter) := by
    rw [h.forall_decodes, hf.notAfter, hnow]
    exact ⟨fun hP => hP hclock, fun hP _ => hP⟩
  have hbefore : terms.notBefore ≠ 0 → t < terms.notBefore →
      (verifyOn cr (some blob) (some c) (some hal) out s).val.1 = .errNotYetValid := by
    intro h0 hlt
    have hno : ¬ (terms.notBefore = 0 ∨ terms.notBefore ≤ t) :=
      not_or.mpr ⟨h0, UInt32.not_le.mpr hlt⟩
    rw [verifyOn_first (FirstFailure.after (h.first htrust hid) (FirstFailure.after hdevice
      (FirstFailure.append (.next hthere (.next hanswer (.of_error (mt hearly.mp hno) rfl)))))) out]
  have hafter : terms.notAfter ≠ 0 → terms.notAfter < t →
      (verifyOn cr (some blob) (some c) (some hal) out s).val.1 = .errExpired := by
    intro h0 hlt
    have hno : ¬ (terms.notAfter = 0 ∨ t ≤ terms.notAfter) :=
      not_or.mpr ⟨h0, UInt32.not_le.mpr hlt⟩
    have hopen : terms.notBefore = 0 ∨ terms.notBefore ≤ t := by
      by_cases hb : terms.notBefore = 0
      · exact .inl hb
      · have hle := UInt32.not_lt.mp fun hlt' => hterms ⟨hb, h0, hlt'⟩
        exact .inr (UInt32.le_of_lt (UInt32.lt_of_le_of_lt hle hlt))
    rw [verifyOn_first (FirstFailure.after (h.first htrust hid) (FirstFailure.after hdevice
      (FirstFailure.append (.next hthere (.next hanswer (.next (hearly.mpr hopen)
        (.of_error (mt hlate.mp hno) rfl))))))) out]
  refine ⟨⟨?_, ?_⟩, hbefore, hafter, ?_⟩
  · intro hok
    refine ⟨?_, ?_⟩
    · by_contra hno
      obtain ⟨h0, hlt⟩ := not_or.mp hno
      rw [hbefore h0 (UInt32.not_le.mp hlt)] at hok
      cases hok
    · by_contra hno
      obtain ⟨h0, hlt⟩ := not_or.mp hno
      rw [hafter h0 (UInt32.not_le.mp hlt)] at hok
      cases hok
  · intro hwindow
    refine verifyOn_passes ?_ out
    have hlater : PassAll (deviceChecks cr blob c hal s ++
        (clockChecks blob c hal (identityRun cr hal s).st ++
          markChecks c hal (hal.handler .nowEpoch (identityRun cr hal s).st).1.2
            (hal.handler .nowEpoch (identityRun cr hal s).st).2)) := by
      refine passAll_append.mpr ⟨hdevice, passAll_append.mpr ⟨?_, htrust.unmarked _ _⟩⟩
      simp only [clockChecks, passAll_cons, passAll_nil, and_true]
      exact ⟨hthere, hanswer, hearly.mpr hwindow.1, hlate.mpr hwindow.2⟩
    exact passAll_append.mpr ⟨h.first htrust hid, hlater⟩
  · intro hok
    rw [verifyOn_license h.decodes hok, readPayload_bytes]

/-! ## End to end -/

/-- **Mint to device.** Ed25519 being what both sides take it for, the device
id string that the device reports, given to `issue` with any terms whose
window is not empty, yields a blob of 160 characters; firmware that trusts the
key judges it by its window and clock on that device, hands out the terms as
issued, and refuses it on a device with another id. -/
theorem mint_round_trip {lib : Ed25519Lib} {seed : Vector UInt8 32}
    (hself : ∀ msg, lib.verify (lib.pubkeyOf seed) (lib.sign seed msg) msg = true)
    (hdevice : ∀ msg, cr.vlEd25519Verify (lib.sign seed msg).toList msg (lib.pubkeyOf seed) = true)
    (fp : Vector UInt8 32) (terms : Terms) (hterms : terms.Ordered) :
    ∃ id : CStr, (∀ cap, 27 ≤ cap →
        vlEncodeDeviceId (some fp) .buf cap = (.ok, seqWrites (id.bytes ++ [0]))) ∧
      ∀ a : IssueArgs, a.Names (text id) terms →
        ∃ blob : CStr, cmdIssue lib seed a = .ok (text blob) ∧ blob.bytes.length = 160 ∧
          ∀ {σ : Type} (c : VlConfig) (hal : VlHal σ) (s : σ) (fp' : Vector UInt8 32)
            (out : Option VlLicense), Trusts c (lib.pubkeyOf seed) terms →
            (identityRun cr hal s).val = (.ok, some fp') →
            (fp'.toList.take 16 ≠ fp.toList.take 16 →
              (verifyOn cr (some blob) (some c) (some hal) out s).val =
                (.errDeviceMismatch, out.map fun _ => VlLicense.zero)) ∧
            (fp'.toList.take 16 = fp.toList.take 16 → ∀ t, hal.nowEpoch.isSome →
              (hal.handler .nowEpoch (identityRun cr hal s).st).1 = (.ok, t) →
              Judged terms fp t (checkedBits c hal.mask) out
                (verifyOn cr (some blob) (some c) (some hal) out s).val) := by
  obtain ⟨id, hid, hencode⟩ := vlEncodeDeviceId_spec fp
  refine ⟨id, hencode, ?_⟩
  intro a hnames
  have hdev : (deviceIdOf fp).toList.length = 16 := by simp
  let p := terms.bytes (deviceIdOf fp).toList
  let sig := lib.sign seed (SIGN_PREFIX ++ [0] ++ p)
  have hp : (p ++ sig.toList).length = 100 := by simp [p]
  obtain ⟨blob, hblob, hlen, -, -, hdecode⟩ := b32_round_trip (p ++ sig.toList) (by omega) (by omega)
  rw [hp] at hlen hdecode
  have hcarries : Carries cr (lib.pubkeyOf seed) terms fp blob sig :=
    ⟨⟨hp, hdecode 100 (Nat.le_refl _)⟩, hdevice _⟩
  have hissue := cmdIssue_terms hdev (hid ▸ hnames) hterms hself
  refine ⟨blob, hissue.trans (congrArg Except.ok hblob.symm), hlen, ?_⟩
  intro σ c hal s fp' out htrust hrun
  refine ⟨fun hother => hcarries.elsewhere htrust hrun hother out, ?_⟩
  intro hsame t hclock hnow
  exact hcarries.judged hterms htrust hrun hsame hclock hnow out

end

/-! ## The test suite's licence, minted -/

/-- mirrors tests/gen_fixtures.py:46 -/
def FIX_SEED : Vector UInt8 32 := #v[
  136, 22, 11, 154, 22, 152, 160, 103, 135, 113, 233, 68, 44, 46, 123, 17,
  192, 175, 111, 47, 64, 53, 181, 211, 157, 6, 105, 222, 160, 51, 151, 249]

/-- mirrors tests/vl_test_fixtures.h:8 -/
def FIX_DEVICE_ID_STR : CStr := .ofMem <| ascii [
  '3', 'V', '4', 'Q', 'M', 'W', 'A', '9', 'W', 'Z', 'V', 'V', 'W', 'T', 'Z', '7', 'D', 'Y', '1',
  'W', '0', 'B', 'X', 'G', '4', '8']

/-- The library where the fixture needs it: the suite's key pair, and its
signature of the windowed payload. -/
def fixEd25519 : Ed25519Lib where
  sign _ msg :=
    if msg = SIGN_PREFIX ++ [0] ++ windowedPayload then Vector.ofFn fun i => windowedSig.getD i 0
    else Vector.replicate 64 0
  pubkeyOf _ := FIX_PUBKEY
  verify pk sig msg := pk = FIX_PUBKEY ∧
    sig = if msg = SIGN_PREFIX ++ [0] ++ windowedPayload then
      Vector.ofFn fun i => windowedSig.getD i 0 else Vector.replicate 64 0

/-- The device that agrees with it. -/
def fixDevice : Crypto := { fixCrypto with
  vlEd25519Verify := fun sig msg pk => sig = (fixEd25519.sign FIX_SEED msg).toList ∧
    pk = FIX_PUBKEY }

/-- The suite's identity, the clock at `now`, nothing else. -/
def fixHal (now : UInt32) : VlHal Unit where
  readIdSegment := some fun idx s => (vltReadIdSegment idx, s)
  nowEpoch := some fun s => ((.ok, now), s)
  hwmLoad := none
  hwmStore := none
  blobLoad := none
  blobStore := none
  securePosture := none

/-- `issue --device-id … --family 2 --key-id 7 --features 1 --serial 1002
--not-before 1700000000 --expires 1800000000`. -/
def windowedArgs : IssueArgs where
  deviceId := text FIX_DEVICE_ID_STR
  deviceIdHex := []
  family := 2
  keyId := 7
  features := 1
  serial := 1002
  notBefore := some (Nat.toDigits 10 1700000000)
  expires := some (Nat.toDigits 10 1800000000)

/-- mirrors tests/gen_fixtures.py:62 -/
def windowedTerms : Terms := ⟨7, 2, 1, 1700000000, 1800000000, 1002⟩

/-- The windowed licence, minted for the suite's device and accepted there at
1750000000. -/
theorem mint_round_trip_windowed : ∃ blob : CStr,
    cmdIssue fixEd25519 FIX_SEED windowedArgs = .ok (text blob) ∧ blob.bytes.length = 160 ∧
    (@verifyOn host64 _ fixDevice (some blob) (some ⟨some [⟨7, FIX_PUBKEY⟩], 2, none, 0⟩)
      (some (fixHal 1750000000)) (some VlLicense.zero) ()).val =
        (.ok, some (windowedTerms.license (deviceIdOf FIX_FINGERPRINT) 7)) := by
  obtain ⟨id, hencode, hissue⟩ := @mint_round_trip host64 fixDevice fixEd25519 FIX_SEED
    (fun msg => by simp [fixEd25519]) (fun msg => by simp [fixDevice, fixEd25519]) FIX_FINGERPRINT
    windowedTerms (by decide)
  have hid : id = FIX_DEVICE_ID_STR := by
    have heval : @vlEncodeDeviceId host64 (some FIX_FINGERPRINT) .buf 27 =
        (.ok, seqWrites (FIX_DEVICE_ID_STR.bytes ++ [0])) := by decide +kernel
    have hsame := (Prod.mk.inj ((hencode 27 (Nat.le_refl _)).symm.trans heval)).2
    exact CStr.ext_bytes (List.append_cancel_right (seqWrites_inj hsame))
  subst hid
  obtain ⟨blob, hmint, hlen, hverify⟩ := hissue windowedArgs ⟨rfl, rfl, rfl, rfl, rfl, rfl,
    parseWhen_epoch _ _, parseWhen_epoch _ _⟩
  refine ⟨blob, hmint, hlen, ?_⟩
  have htrust : Trusts ⟨some [⟨7, FIX_PUBKEY⟩], 2, none, 0⟩ (fixEd25519.pubkeyOf FIX_SEED)
      windowedTerms := ⟨⟨_, ⟨7, FIX_PUBKEY⟩, rfl, rfl, rfl⟩, rfl, by simp [NotRevoked], rfl⟩
  have hrun : (identityRun fixDevice (fixHal 1750000000) ()).val = (.ok, some FIX_FINGERPRINT) := by
    decide +kernel
  have hjudged := (hverify _ _ () FIX_FINGERPRINT (some VlLicense.zero) htrust hrun).2 rfl
    1750000000 rfl rfl
  have hok := hjudged.ok_iff.mpr ⟨by decide, by decide⟩
  exact Prod.ext hok (hjudged.license hok)

end VectiLicense.L7
