import VectiLicense.L3Ed25519.LimbVerify
import VectiLicense.L7Mint.Fingerprint

/-!
# Licences under the cryptography of `core/`

`RoundTrip` and `Fingerprint` leave the two primitives open. Here the device has
its own: the hash of `vl_sha256.c`, fed segment by segment, and the signature
check of `vl_ed25519.c` on `int64_t`. Of the vendor's library it is assumed that
it signs as RFC 8032 says, and of the device that it hands out its segments.

* `accepted_genuine`: what `VL_OK` stands for, with nothing left open: the group
  equation over the payload, and the first half of a SHA-256.
* `licence_end_to_end`: from the segments to the id, from there to the blob, and
  on the device to the verdict.
-/
namespace VectiLicense.L7

open VectiLicense.Core VectiLicense.L0 VectiLicense.L3 VectiLicense.L1.Base32 VectiLicense.L1.Hash
open VectiLicense.L3.Ed25519 (Signs sign publicKey)
open VectiLicense.L4.Mark (vltSegments FIX_PUBKEY)

/-- What the stack held where the code writes before it reads. -/
structure Stack where
  y : Ed25519.Limbs.Words
  m : Ed25519.Limbs.Words
  sha256 : Buf 64
  sha512 : Buf 128

/-- The 64 bytes at `sig`. -/
def sigAt (bs : List UInt8) : Vector UInt8 64 := Vector.ofFn fun i => bs.getD i 0

/-- The cryptography that the firmware links. -/
def deviceCrypto (stack : Stack) : Crypto :=
  sha256Crypto stack.sha256 fun sig msg pk =>
    Ed25519.Limbs.vlEd25519Verify stack.y stack.m stack.sha512 (some (sigAt sig)) (some msg)
      msg.length (some pk) = some 1

theorem sigAt_toList (sig : Vector UInt8 64) : sigAt sig.toList = sig := by
  refine Vector.ext fun i hi => ?_
  rw [sigAt, Vector.getElem_ofFn]
  simp [List.getD_eq_getElem?_getD, hi]

/-- The fingerprint that the segments have. -/
def segmentsFp (count : Option Nat) (seg : Nat → List UInt8) : Vector UInt8 32 :=
  sha256 (preimage (firstSegments count seg))

section
variable {σ : Type} {hal : VlHal σ} {s : σ} {count : Option Nat} {seg : Nat → List UInt8}

theorem identityRun_genuine (stack : Stack) (hy : Yields hal s count seg) :
    (identityRun (deviceCrypto stack) hal s).val = (.ok, some (segmentsFp count seg)) :=
  fingerprint_yields (hashesAs_sha256 stack.sha256 _) hy _

variable [Target]

/-! ## What is accepted -/

theorem verifyOn_passed {cr : Crypto} {blob : Option CStr} {cfg : Option VlConfig}
    {hal : Option (VlHal σ)} {out : Option VlLicense}
    (h : (verifyOn cr blob cfg hal out s).val.1 = .ok) : PassAll (checks cr blob cfg hal s) := by
  obtain ⟨r, hverdict, hval, hrej⟩ := verifyOn_cases cr blob cfg hal out s
  cases r with
  | ok lic => exact hverdict
  | error rc =>
    rw [hval] at h
    exact absurd h (hrej rc rfl).1

/-- The bytes of a blob that is signed under a key of the configuration. -/
structure Genuine (c : VlConfig) (str : CStr) (b : List UInt8) : Prop where
  decodes : DecodesTo str b
  header : b.getD 0 0 = 0x56 ∧ b.getD 1 0 = 1 ∧ b.getD 3 0 = c.family
  signed : ∃ keys k R S P, c.keys = some keys ∧ keys.find? (fun k => k.keyId = b.getD 2 0) = some k ∧
    (b.drop 36).take 64 = R.toList ++ S.toList ∧
    Signs R S k.key (VL_SIGN_PREFIX ++ [0] ++ b.take 36) P
  notRevoked : NotRevoked c (le32 b 32)

omit [Target] in
theorem deviceCrypto_iff {stack : Stack} {sig msg : List UInt8} {pk : Vector UInt8 32} :
    (deviceCrypto stack).vlEd25519Verify sig msg pk = true ↔
      Ed25519.vlEd25519Verify stack.sha512 (some (sigAt sig)) (some msg) msg.length (some pk) =
        some 1 := by
  simp only [deviceCrypto, sha256Crypto, decide_eq_true_eq, Ed25519.Limbs.verify_refines]

omit [Target] in
/-- The signature check is the group equation. -/
theorem deviceCrypto_verify {stack : Stack} {sig msg : List UInt8} {pk : Vector UInt8 32}
    (hsig : sig.length = 64) (hmsg : msg.length + 64 < 2 ^ 64)
    (h : (deviceCrypto stack).vlEd25519Verify sig msg pk = true) :
    ∃ R S P, sig = R.toList ++ S.toList ∧ Signs R S pk msg P := by
  obtain ⟨R, S, hRS⟩ := Ed25519.Limbs.exists_joinSig (sigAt sig)
  have hlist : sig = (sigAt sig).toList := by
    refine List.ext_getElem (by simp [hsig]) fun i hi _ => ?_
    simp [sigAt, List.getD_eq_getElem?_getD, hi]
  have hverify := deviceCrypto_iff.mp h
  rw [hRS] at hverify
  have hall : Ed25519.messageOf (some msg) msg.length = msg := List.take_length
  obtain ⟨-, P, hP⟩ := (Ed25519.verify_exact stack.sha512 R S pk (some msg) msg.length
    (by rw [hall]; exact hmsg)).1.mp hverify
  rw [hall] at hP
  exact ⟨R, S, P, by rw [hlist, hRS, Ed25519.toList_joinSig], hP⟩

omit [Target] in
theorem firstSegments_short (hy : Yields hal s count seg) :
    ∀ f ∈ firstSegments count seg, f.length ≤ 255 := by
  intro f hf
  obtain ⟨i, hi, rfl⟩ := List.mem_map.mp hf
  refine (hy.length i fun n hn => ?_).2
  have hlt := List.mem_range.mp hi
  simp only [hn, remaining] at hlt
  omega

theorem genuine_of_ok {stack : Stack} {str : CStr} {c : VlConfig} {out : Option VlLicense}
    (hy : Yields hal s count seg)
    (hok : (verifyOn (deviceCrypto stack) (some str) (some c) (some hal) out s).val.1 = .ok) :
    ∃ b, Genuine c str b ∧ (segmentsFp count seg).toList.take 16 = (b.drop 8).take 16 := by
  have hpass := verifyOn_passed hok
  have hrun := identityRun_genuine stack hy
  simp only [checks, laterChecks, blobChecks, deviceChecks, passAll_cons, passAll_append] at hpass
  obtain ⟨⟨-, c', h', keys, hc, -, hkeys, -⟩, ⟨⟨b, hb⟩, hmagic, hversion, hfamily, hkey, hsig, -⟩,
    ⟨-, hdevice, hrevoked, -⟩, -⟩ := hpass
  obtain rfl := Option.some.inj hc
  rw [hkeys, Option.getD_some] at hkey hsig
  obtain ⟨k, hmem, hkid⟩ := hkey b hb
  have hsome : (keys.find? fun k => k.keyId = b.getD 2 0).isSome :=
    List.find?_isSome.mpr ⟨k, hmem, decide_eq_true hkid⟩
  obtain ⟨k, hfind⟩ := Option.isSome_iff_exists.mp hsome
  have hlen := hb.1
  obtain ⟨R, S, P, hRS, hP⟩ := deviceCrypto_verify (by simp [hlen])
    (by simp [hlen, VL_SIGN_PREFIX, ascii]) (hsig b k hb hfind)
  refine ⟨b, ⟨hb, ⟨hmagic b hb, hversion b hb, hfamily b hb⟩, ⟨keys, k, R, S, P, hkeys, hfind, hRS, hP⟩,
    hrevoked b hb⟩, ?_⟩
  exact hdevice b _ hb (by rw [hrun])

/-- **What `VL_OK` stands for**: a payload signed under a configured key, on the
device whose segments hash to the id in it; and no other blob or device shares in it,
short of two segment lists whose hashes agree in 128 bits. -/
theorem accepted_genuine (stack : Stack) (str : CStr) (c : VlConfig) (hal : VlHal σ)
    (out : Option VlLicense) (s : σ) (count : Option Nat) (seg : Nat → List UInt8)
    (hy : Yields hal s count seg)
    (hok : (verifyOn (deviceCrypto stack) (some str) (some c) (some hal) out s).val.1 = .ok) :
    ∃ b, Genuine c str b ∧ (segmentsFp count seg).toList.take 16 = (b.drop 8).take 16 ∧
      ∀ {τ : Type} (stack' : Stack) (c' : VlConfig) (hal' : VlHal τ) (out' : Option VlLicense)
        (s' : τ) (count' : Option Nat) (seg' : Nat → List UInt8), Yields hal' s' count' seg' →
        (verifyOn (deviceCrypto stack') (some str) (some c') (some hal') out' s').val.1 = .ok →
        firstSegments count' seg' = firstSegments count seg ∨
          preimage (firstSegments count' seg') ≠ preimage (firstSegments count seg) ∧
          (segmentsFp count' seg').toList.take 16 = (segmentsFp count seg).toList.take 16 := by
  obtain ⟨b, hgenuine, hid⟩ := genuine_of_ok hy hok
  refine ⟨b, hgenuine, hid, ?_⟩
  intro τ stack' c' hal' out' s' count' seg' hy' hok'
  obtain ⟨b', hgenuine', hid'⟩ := genuine_of_ok hy' hok'
  obtain rfl := hgenuine.decodes.unique hgenuine'.decodes
  by_cases hsame : firstSegments count' seg' = firstSegments count seg
  · exact .inl hsame
  · exact .inr ⟨fun h => hsame (preimage_inj (firstSegments_short hy') (firstSegments_short hy) h),
      hid'.trans hid.symm⟩

/-! ## End to end -/

/-- What the tool prints for the device `fp` carries the terms, under any stack. -/
theorem exists_minted (seed : Vector UInt8 32) (terms : Terms) (fp : Vector UInt8 32) :
    ∃ blob : CStr, text blob = b32 (terms.bytes (deviceIdOf fp).toList ++
        (sign seed (SIGN_PREFIX ++ [0] ++ terms.bytes (deviceIdOf fp).toList)).toList) ∧
      blob.bytes.length = 160 ∧ (∀ ch ∈ blob.bytes, ch ∈ ENC_ALPHA) ∧
      ∃ sig, ∀ stack, Carries (deviceCrypto stack) (publicKey seed) terms fp blob sig := by
  obtain ⟨p, hp⟩ : ∃ p, terms.bytes (deviceIdOf fp).toList = p := ⟨_, rfl⟩
  obtain ⟨sig, hsig⟩ : ∃ sig, sign seed (SIGN_PREFIX ++ [0] ++ p) = sig := ⟨_, rfl⟩
  have hlen : (p ++ sig.toList).length = 100 := by simp [← hp]
  obtain ⟨blob, hblob, hchars, hwrites, -, hdecode⟩ :=
    b32_round_trip (p ++ sig.toList) (by omega) (by omega)
  obtain ⟨same, -, -, halpha, hwrites'⟩ := b32_writes (p ++ sig.toList) (by omega)
  obtain rfl : blob = same := by
    have h := congrArg EncodeResult.writes
      ((hwrites _ (Nat.le_refl _)).symm.trans (hwrites' _ (Nat.le_refl _)))
    exact CStr.ext_bytes (List.append_cancel_right (seqWrites_inj h))
  rw [hlen] at hchars hdecode
  rw [hp, hsig]
  refine ⟨blob, hblob, hchars, halpha, sig, fun stack => ⟨?_, deviceCrypto_iff.mpr ?_⟩⟩
  · rw [hp]
    exact ⟨hlen, hdecode 100 (Nat.le_refl _)⟩
  · rw [sigAt_toList, hp, ← hsig]
    exact Ed25519.sign_accepted stack.sha512 seed _ (by simp [SIGN_PREFIX, ascii, ← hp])

/-- A device without a clock has no window to judge by. -/
theorem Carries.clockless {cr : Crypto} {pk fp fp' : Vector UInt8 32} {terms : Terms} {blob : CStr}
    {sig : Vector UInt8 64} {c : VlConfig} (h : Carries cr pk terms fp blob sig)
    (htrust : Trusts c pk terms) (hid : (identityRun cr hal s).val = (.ok, some fp'))
    (hsame : fp'.toList.take 16 = fp.toList.take 16) (hclock : hal.nowEpoch = none)
    (out : Option VlLicense) :
    (verifyOn cr (some blob) (some c) (some hal) out s).val =
      (.ok, out.map fun _ => terms.license (deviceIdOf fp) (checkedBits c hal.mask)) := by
  have hflag : ¬ c.requireClock := by simp [VlConfig.requireClock, htrust.noFlags]
  have hlater : PassAll (deviceChecks cr blob c hal s ++
      (clockChecks blob c hal (identityRun cr hal s).st ++
        markChecks c hal (hal.handler .nowEpoch (identityRun cr hal s).st).1.2
          (hal.handler .nowEpoch (identityRun cr hal s).st).2)) := by
    refine passAll_append.mpr ⟨h.home htrust hid hsame, passAll_append.mpr ⟨?_, htrust.unmarked _ _⟩⟩
    simp [clockChecks, hclock, hflag]
  have hok := verifyOn_passes (passAll_append.mpr ⟨h.first htrust hid, hlater⟩) out
  refine Prod.ext hok ?_
  rw [verifyOn_license h.decodes hok, readPayload_bytes]

/-- **From the segments to the verdict.** The device computes its fingerprint and
spells its id; the tool, given that id and any terms whose window is not empty,
prints a blob of 160 characters; firmware that trusts the vendor's key judges it by
window and clock there, and refuses it wherever the segments hash to another id. -/
theorem licence_end_to_end (stack : Stack) {lib : Ed25519Lib} {seed : Vector UInt8 32}
    (hsign : ∀ msg, lib.sign seed msg = sign seed msg) (hpub : lib.pubkeyOf seed = publicKey seed)
    (hself : ∀ msg, lib.verify (publicKey seed) (sign seed msg) msg = true)
    (hal : VlHal σ) (s : σ) (count : Option Nat) (seg : Nat → List UInt8)
    (hy : Yields hal s count seg) (terms : Terms) (hterms : terms.Ordered) :
    (identityRun (deviceCrypto stack) hal s).val = (.ok, some (segmentsFp count seg)) ∧
    ∃ id : CStr, (∀ cap, 27 ≤ cap → vlEncodeDeviceId (some (segmentsFp count seg)) .buf cap =
        (.ok, seqWrites (id.bytes ++ [0]))) ∧
      ∀ a : IssueArgs, a.Names (text id) terms →
        ∃ blob : CStr, cmdIssue lib seed a = .ok (text blob) ∧ blob.bytes.length = 160 ∧
          ∀ (c : VlConfig) (out : Option VlLicense), Trusts c (publicKey seed) terms →
            (∀ t, hal.nowEpoch.isSome →
              (hal.handler .nowEpoch (identityRun (deviceCrypto stack) hal s).st).1 = (.ok, t) →
              Judged terms (segmentsFp count seg) t (checkedBits c hal.mask) out
                (verifyOn (deviceCrypto stack) (some blob) (some c) (some hal) out s).val) ∧
            ∀ {τ : Type} (stack' : Stack) (hal' : VlHal τ) (s' : τ) (count' : Option Nat)
              (seg' : Nat → List UInt8), Yields hal' s' count' seg' →
              (segmentsFp count' seg').toList.take 16 ≠ (segmentsFp count seg).toList.take 16 →
              (verifyOn (deviceCrypto stack') (some blob) (some c) (some hal') out s').val =
                (.errDeviceMismatch, out.map fun _ => VlLicense.zero) := by
  obtain ⟨id, hid, hencode⟩ := vlEncodeDeviceId_spec (segmentsFp count seg)
  refine ⟨identityRun_genuine stack hy, id, hencode, ?_⟩
  intro a hnames
  obtain ⟨blob, hblob, hchars, -, sig, hcarries⟩ := exists_minted seed terms (segmentsFp count seg)
  have hdev : (deviceIdOf (segmentsFp count seg)).toList.length = 16 := by simp
  have hissue := cmdIssue_terms hdev (hid ▸ hnames) hterms fun msg => by
    rw [hpub, hsign]
    exact hself msg
  rw [hsign] at hissue
  refine ⟨blob, hissue.trans (congrArg Except.ok hblob.symm), hchars, ?_⟩
  intro c out htrust
  refine ⟨fun t hclock hnow => ?_, ?_⟩
  · exact (hcarries stack).judged hterms htrust (identityRun_genuine stack hy) rfl hclock hnow out
  · intro τ stack' hal' s' count' seg' hy' hother
    exact (hcarries stack').elsewhere htrust (identityRun_genuine stack' hy') hother out

end

/-! ## The test suite's device, with a licence of its own -/

/-- RFC 8032, where the vendor's tool needs it. -/
def rfcLib : Ed25519Lib where
  sign := sign
  pubkeyOf := publicKey
  verify pk sig msg := pk = publicKey FIX_SEED ∧ sig = sign FIX_SEED msg

def zeroStack : Stack where
  y := Ed25519.Limbs.gf0
  m := Ed25519.Limbs.gf0
  sha256 := Vector.replicate 64 0
  sha512 := Vector.replicate 128 0

/-- Family 2, the vendor's key under id 7. -/
def suiteConfig : VlConfig := ⟨some [⟨7, publicKey FIX_SEED⟩], 2, none, 0⟩

theorem suiteConfig_trusts : Trusts suiteConfig (publicKey FIX_SEED) windowedTerms :=
  ⟨⟨_, ⟨7, publicKey FIX_SEED⟩, rfl, rfl, rfl⟩, rfl, by simp [NotRevoked, suiteConfig], rfl⟩

/-- The clock does not matter to the segments. -/
theorem suite_yields (now : UInt32) :
    Yields (fixHal now) () (some 3) fun i => vltSegments.getD i [] :=
  ⟨rfl, by decide, fixHal_yields.status, fixHal_yields.length, fixHal_yields.bytes,
    fixHal_yields.ended⟩

theorem fixHal_clock (now : UInt32) (u : Unit) :
    ((fixHal now).handler .nowEpoch u).1 = (.ok, now) := rfl

/-- The windowed terms for the suite's segments, signed by the seed of the suite, are
issued and accepted. -/
theorem licence_end_to_end_suite : ∃ id blob : CStr,
    cmdIssue rfcLib FIX_SEED { windowedArgs with deviceId := text id } = .ok (text blob) ∧
    (@verifyOn host64 _ (deviceCrypto zeroStack) (some blob) (some suiteConfig)
      (some (fixHal 1750000000)) none ()).val.1 = .ok := by
  obtain ⟨-, id, -, hissue⟩ := @licence_end_to_end _ host64 zeroStack rfcLib FIX_SEED
    (fun _ => rfl) rfl (fun msg => by simp [rfcLib]) (fixHal 1750000000) () (some 3) _
    (suite_yields 1750000000) windowedTerms (by decide)
  obtain ⟨blob, hmint, -, hverify⟩ := hissue { windowedArgs with deviceId := text id }
    ⟨rfl, rfl, rfl, rfl, rfl, rfl, parseWhen_epoch _ _, parseWhen_epoch _ _⟩
  have hjudged := (hverify suiteConfig none suiteConfig_trusts).1 1750000000 rfl (fixHal_clock _ _)
  exact ⟨id, blob, hmint, hjudged.ok_iff.mpr ⟨by decide, by decide⟩⟩

/-- That licence is genuine. -/
theorem accepted_genuine_suite : ∃ blob b, @Genuine host64 suiteConfig blob b := by
  let _ : Target := host64
  obtain ⟨blob, -, -, -, sig, hcarries⟩ := exists_minted FIX_SEED windowedTerms
    (segmentsFp (some 3) fun i => vltSegments.getD i [])
  have hjudged := (hcarries zeroStack).judged (by decide) suiteConfig_trusts
    (identityRun_genuine zeroStack (suite_yields 1750000000)) rfl (t := 1750000000) rfl
    (fixHal_clock _ _) none
  obtain ⟨b, hb, -⟩ := accepted_genuine zeroStack blob suiteConfig _ none () _ _
    (suite_yields 1750000000) (hjudged.ok_iff.mpr ⟨by decide, by decide⟩)
  exact ⟨blob, b, hb⟩

end VectiLicense.L7
