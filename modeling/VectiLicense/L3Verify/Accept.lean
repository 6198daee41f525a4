import VectiLicense.L1Codec.Base32Decode
import VectiLicense.L3Verify.Verify

/-!
# What `vl_verify` accepts

The conditions for `VL_OK`, in the vocabulary of the licence format and not of
the code: little-endian fields, the first key of an id, membership in the
deny-list, an inclusive window. First one lemma for each stage of the source
that says when it passes, then the whole.

* `authenticate_ok_iff`: steps 2 and 3 pass exactly on `Authentic` blobs.
* `deviceMatches_iff`: `vl_ct_eq` is equality of the first 16 bytes.
* `checkRevocation_ok_iff`: step 5.
* `accepts_iff`: `vl_verify` returns `VL_OK` exactly when `Accepts` holds.
-/
namespace VectiLicense.L3

open VectiLicense.Core VectiLicense.L0 VectiLicense.L1.Base32

/-! ## Fields -/

/-- The little-endian 32-bit field at `off`. -/
def le32 (b : List UInt8) (off : Nat) : UInt32 := UInt32.ofNat (leNat ((b.drop off).take 4))

theorem leNat_drop_take {b : List UInt8} {off : Nat} (h : off + 4 ≤ b.length) :
    leNat ((b.drop off).take 4) = (b.getD off 0).toNat + 2 ^ 8 * (b.getD (off + 1) 0).toNat +
      2 ^ 16 * (b.getD (off + 2) 0).toNat + 2 ^ 24 * (b.getD (off + 3) 0).toNat := by
  rw [List.drop_eq_getElem_cons (show off < b.length by omega),
    List.drop_eq_getElem_cons (show off + 1 < b.length by omega),
    List.drop_eq_getElem_cons (show off + 1 + 1 < b.length by omega),
    List.drop_eq_getElem_cons (show off + 1 + 1 + 1 < b.length by omega)]
  simp only [List.take_succ_cons, List.take_zero, leNat, Nat.add_assoc, Nat.reduceAdd,
    List.getD_eq_getElem?_getD,
    List.getElem?_eq_getElem (show off < b.length by omega),
    List.getElem?_eq_getElem (show off + 1 < b.length by omega),
    List.getElem?_eq_getElem (show off + 2 < b.length by omega),
    List.getElem?_eq_getElem (show off + 3 < b.length by omega), Option.getD_some]
  omega

theorem rdLe32_eq {b : List UInt8} {off : Nat} (h : off + 4 ≤ b.length) :
    rdLe32 b off = le32 b off := by
  have h₀ : (b.getD off 0).toUInt32.toNat < 2 ^ 8 := by
    rw [UInt8.toNat_toUInt32]; exact (b.getD off 0).toNat_lt
  obtain ⟨e₁, l₁⟩ := @or_shiftLeft_toNat _ (b.getD (off + 1) 0) 8 (by decide) h₀
  obtain ⟨e₂, l₂⟩ := @or_shiftLeft_toNat _ (b.getD (off + 2) 0) 16 (by decide) l₁
  obtain ⟨e₃, l₃⟩ := @or_shiftLeft_toNat _ (b.getD (off + 3) 0) 24 (by decide) l₂
  rw [e₂, e₁, UInt8.toNat_toUInt32] at e₃
  apply UInt32.toNat_inj.mp
  rw [le32, UInt32.toNat_ofNat', leNat_drop_take h, ← e₃, Nat.mod_eq_of_lt l₃]
  rfl

theorem le32_append (pre post : List UInt8) (x : UInt32) :
    le32 (pre ++ leBytes 4 x.toNat ++ post) pre.length = x := by
  have hlt := x.toNat_lt
  rw [le32, slice_append rfl (length_leBytes 4 _), leNat_leBytes, Nat.mod_eq_of_lt hlt,
    UInt32.ofNat_toNat]

/-! ## The constant-time compare -/

theorem ctDiff_eq_zero_iff (a b : List UInt8) (n : Nat) :
    ctDiff a b n = 0 ↔ ∀ i < n, a.getD i 0 = b.getD i 0 := by
  induction n with
  | zero => simp [ctDiff]
  | succ n ih =>
    have hstep : ctDiff a b (n + 1) = ctDiff a b n ||| (a.getD n 0 ^^^ b.getD n 0) := by
      simp only [ctDiff, List.range_succ, List.foldl_append, List.foldl_cons, List.foldl_nil]
    rw [hstep, UInt8.or_eq_zero_iff, ih, UInt8.xor_eq_zero_iff]
    constructor
    · rintro ⟨hlt, hn⟩ i hi
      rcases Nat.lt_succ_iff_lt_or_eq.mp hi with h | rfl
      · exact hlt i h
      · exact hn
    · exact fun h => ⟨fun i hi => h i (by omega), h n (by omega)⟩

theorem vlCtEq_ne_zero_iff {a b : List UInt8} {n : Nat} (hn : n ≠ 0) (ha : n ≤ a.length)
    (hb : n ≤ b.length) : vlCtEq (some a) (some b) n ≠ 0 ↔ a.take n = b.take n := by
  have hlast : ∀ d : UInt8, ((d.toUInt32 - 1) >>> 8) &&& 1 ≠ 0 ↔ d = 0 := by
    refine forall_byte ?_
    decide +kernel
  simp only [vlCtEq, hn, if_false]
  rw [hlast, ctDiff_eq_zero_iff]
  refine ⟨?_, ?_⟩
  · intro h
    apply List.ext_getElem (by simp; omega)
    intro i h₁ h₂
    simp only [List.length_take] at h₁ h₂
    have := h i (by omega)
    simpa [List.getD_eq_getElem?_getD, show i < a.length by omega, show i < b.length by omega]
      using this
  · intro h i hi
    have := congrArg (fun l => l.getD i 0) h
    simpa [List.getD_eq_getElem?_getD, List.getElem?_take, hi] using this

/-! ## Steps 1 to 3 -/

/-- `VL_FLAG_ENFORCE_HWM` only together with the three callbacks it needs. -/
def HwmArgs (cfg : VlConfig) (hal : HalMask) : Prop :=
  cfg.enforceHwm → hal.nowEpoch = true ∧ hal.hwmLoad = true ∧ hal.hwmStore = true

theorem checkArgs_ok_iff {blob : Option CStr} {cfg : Option VlConfig} {hal : Option HalMask}
    {b : CStr} {c : VlConfig} {keys : List VlPubkey} {h : HalMask} :
    checkArgs blob cfg hal = .ok (b, c, keys, h) ↔
      blob = some b ∧ cfg = some c ∧ hal = some h ∧ c.keys = some keys ∧ keys ≠ [] ∧
        h.readIdSegment = true ∧ HwmArgs c h := by
  have hhwm : ∀ (c : VlConfig) (h : HalMask), ¬ (c.enforceHwm ∧
      (h.nowEpoch = false ∨ h.hwmLoad = false ∨ h.hwmStore = false)) ↔ HwmArgs c h := by
    intro c h
    unfold HwmArgs
    cases h.nowEpoch <;> cases h.hwmLoad <;> cases h.hwmStore <;> simp
  unfold checkArgs
  refine ⟨?_, ?_⟩
  · intro heq
    split at heq
    · split at heq
      · cases heq
      split at heq
      · cases heq
      split at heq
      · cases heq
      split at heq
      · cases heq
      rename_i b' c' h' _ keys' hkeys hlen hid hargs
      simp only [Except.ok.injEq, Prod.mk.injEq] at heq
      obtain ⟨rfl, rfl, rfl, rfl⟩ := heq
      exact ⟨rfl, rfl, rfl, hkeys, by simpa using hlen, by simpa using hid, (hhwm _ _).mp hargs⟩
    · cases heq
  · intro h
    obtain ⟨rfl, rfl, rfl, hkeys, hlen, hid, hargs⟩ := h
    simp only [hkeys]
    rw [if_neg (by simpa using hlen), if_neg (by simp [hid]), if_neg ((hhwm _ _).mpr hargs)]

section
variable [Target]

/-- The strict decode: 100 bytes, as `Base32.decode_exact` describes them. -/
def DecodesTo (blob : CStr) (b : List UInt8) : Prop :=
  b.length = 100 ∧ (vlBase32Decode (some blob) .buf 100 100).ret = some 100 ∧
    (vlBase32Decode (some blob) .buf 100 100).writes = seqWrites b

theorem decodeBlob_ok_iff {blob : CStr} {b : List UInt8} :
    decodeBlob blob = .ok b ↔ DecodesTo blob b := by
  unfold decodeBlob DecodesTo
  simp only [show VL_BLOB_BIN_LEN = 100 from rfl]
  by_cases hret : (vlBase32Decode (some blob) .buf 100 100).ret = some 100
  · obtain ⟨-, ds, hlen, hw, -⟩ := decode_ok_bytes (by decide) hret
    rw [if_neg (by simpa using hret), hw, storeAll_seqWrites (by simp [hlen]),
      List.drop_of_length_le (by simp [hlen]), List.append_nil, Except.ok.injEq]
    refine ⟨?_, ?_⟩
    · intro h
      obtain rfl := h
      exact ⟨hlen, hret, rfl⟩
    · intro h
      obtain ⟨-, -, hds⟩ := h
      exact seqWrites_inj hds
  · rw [if_pos hret]
    exact iff_of_false (by simp) (fun h => hret h.2.1)

theorem DecodesTo.unique {blob : CStr} {b b' : List UInt8} (h : DecodesTo blob b)
    (h' : DecodesTo blob b') : b = b' :=
  Except.ok.inj ((decodeBlob_ok_iff.mpr h).symm.trans (decodeBlob_ok_iff.mpr h'))

/-- Steps 2 and 3, as conditions on the decoded bytes: header, the first key
with the payload's key id, and the signature under it. -/
structure Authentic (cr : Crypto) (cfg : VlConfig) (keys : List VlPubkey) (blob : CStr)
    (b : List UInt8) (pk : VlPubkey) : Prop where
  decodes : DecodesTo blob b
  magic : b.getD 0 0 = 0x56
  version : b.getD 1 0 = 1
  family : b.getD 3 0 = cfg.family
  key : keys.find? (fun k => k.keyId = b.getD 2 0) = some pk
  signature : cr.vlEd25519Verify ((b.drop 36).take 64)
    (VL_SIGN_PREFIX ++ [0] ++ b.take 36) pk.key = true

theorem authenticate_ok_iff {cr : Crypto} {cfg : VlConfig} {keys : List VlPubkey} {blob : CStr}
    {lic : VlLicense} :
    authenticate cr cfg keys blob = .ok lic ↔
      ∃ b pk, Authentic cr cfg keys blob b pk ∧
        lic = (readPayload b).withChecked VL_CHECKED_SIGNATURE := by
  unfold authenticate
  refine ⟨?_, ?_⟩
  · intro h
    split at h
    · cases h
    rename_i b hb
    split at h
    · cases h
    rename_i lic' pk hhead
    unfold checkHeader at hhead
    split at hhead
    · cases hhead
    split at hhead
    · cases hhead
    simp only at hhead
    split at hhead
    · cases hhead
    split at hhead
    · cases hhead
    rename_i hmagic hversion hfamily _ pk' hkey
    simp only [Except.ok.injEq, Prod.mk.injEq] at hhead
    obtain ⟨rfl, rfl⟩ := hhead
    unfold checkSignature at h
    split at h
    · rename_i hsig
      rw [Except.ok.injEq] at h
      exact ⟨b, pk', ⟨decodeBlob_ok_iff.mp hb, Decidable.not_not.mp hmagic,
        Decidable.not_not.mp hversion, Decidable.not_not.mp hfamily, hkey, hsig⟩, h.symm⟩
    · cases h
  · intro h
    obtain ⟨b, pk, ha, rfl⟩ := h
    have hkey : findKey keys (readPayload b).keyId = some pk := ha.key
    have hfamily : (readPayload b).family = cfg.family := ha.family
    rw [decodeBlob_ok_iff.mpr ha.decodes]
    simp only [checkHeader, show b.getD OFF_MAGIC 0 = VL_MAGIC from ha.magic,
      show b.getD OFF_VERSION 0 = VL_FORMAT_VERSION from ha.version, hfamily, hkey, ne_eq,
      not_true, if_false, checkSignature]
    exact if_pos ha.signature

theorem authenticate_serial {cr : Crypto} {cfg : VlConfig} {keys : List VlPubkey} {blob : CStr}
    {lic : VlLicense} (h : authenticate cr cfg keys blob = .ok lic) :
    ∃ b, DecodesTo blob b ∧ lic.serial = le32 b 32 := by
  obtain ⟨b, pk, ha, rfl⟩ := authenticate_ok_iff.mp h
  exact ⟨b, ha.decodes, rdLe32_eq (by simp [ha.decodes.1, OFF_SERIAL])⟩

end

/-! ## Steps 4 and 5 -/

theorem readPayload_deviceId {b : List UInt8} (h : b.length = 100) :
    (readPayload b).deviceId.toList = (b.drop 8).take 16 := by
  apply List.ext_getElem (by simp [h])
  intro i h₁ h₂
  have hi : i < 16 := by simpa using h₁
  simp [readPayload, OFF_DEVICE_ID, show 8 + i < b.length by omega]

theorem deviceMatches_iff {fp : Vector UInt8 32} {lic : VlLicense} :
    deviceMatches (some fp) lic ↔ fp.toList.take 16 = lic.deviceId.toList := by
  have hlen : lic.deviceId.toList.take 16 = lic.deviceId.toList :=
    List.take_of_length_le (by simp)
  rw [← hlen]
  exact vlCtEq_ne_zero_iff (by decide) (by simp [VL_DEVICE_ID_LEN]) (by simp [VL_DEVICE_ID_LEN])

/-- The serial is on no non-NULL deny-list. -/
def NotRevoked (cfg : VlConfig) (serial : UInt32) : Prop :=
  ∀ serials, cfg.revokedSerials = some serials → serial ∉ serials

/-- Step 5 records the check, and only that. -/
theorem checkRevocation_cases (cfg : VlConfig) (lic : VlLicense) :
    (NotRevoked cfg lic.serial ∧ ∃ lic', checkRevocation cfg lic = .ok lic' ∧
      lic'.notBefore = lic.notBefore ∧ lic'.notAfter = lic.notAfter) ∨
    (¬ NotRevoked cfg lic.serial ∧ checkRevocation cfg lic = .error .errRevoked) := by
  unfold checkRevocation NotRevoked isRevoked
  cases hrev : cfg.revokedSerials with
  | none => exact .inl ⟨by simp, lic, rfl, rfl, rfl⟩
  | some serials =>
    simp only [Option.some.injEq, forall_eq']
    by_cases hlen : serials.length > 0
    · rw [if_pos hlen]
      by_cases hmem : lic.serial ∈ serials
      · rw [if_pos (by simpa using hmem)]
        exact .inr ⟨by simpa using hmem, rfl⟩
      · rw [if_neg (by simpa using hmem)]
        exact .inl ⟨hmem, _, rfl, rfl, rfl⟩
    · rw [if_neg hlen]
      have hnil : serials = [] := List.length_eq_zero_iff.mp (by omega)
      exact .inl ⟨by simp [hnil], lic, rfl, rfl, rfl⟩

theorem checkRevocation_ok_iff {cfg : VlConfig} {lic : VlLicense} :
    (∃ lic', checkRevocation cfg lic = .ok lic') ↔ NotRevoked cfg lic.serial := by
  rcases checkRevocation_cases cfg lic with ⟨hnot, lic', h, -⟩ | ⟨hnot, h⟩
  · exact iff_of_true ⟨lic', h⟩ hnot
  · exact iff_of_false (fun ⟨lic', h'⟩ => by rw [h] at h'; cases h') hnot

/-! ## Step 6 -/

theorem not_tooEarly_iff {lic : VlLicense} {now : UInt32} :
    ¬ tooEarly lic now ↔ lic.notBefore = 0 ∨ lic.notBefore ≤ now := by
  unfold tooEarly
  rw [Decidable.not_and_iff_not_or_not, Decidable.not_not, UInt32.not_lt]

theorem not_tooLate_iff {lic : VlLicense} {now : UInt32} :
    ¬ tooLate lic now ↔ lic.notAfter = 0 ∨ now ≤ lic.notAfter := by
  unfold tooLate
  rw [Decidable.not_and_iff_not_or_not, Decidable.not_not, gt_iff_lt, UInt32.not_lt]

/-- Step 6, from the HAL's state `s` after the identity was read. -/
def TimeOk {σ : Type} (cfg : VlConfig) (hal : VlHal σ) (b : List UInt8) (s : σ) : Prop :=
  (hal.nowEpoch = none ∧ ¬ cfg.requireClock) ∨
  (hal.nowEpoch.isSome ∧ ∃ now s₁, hal.handler .nowEpoch s = ((.ok, now), s₁) ∧
    (le32 b 24 = 0 ∨ le32 b 24 ≤ now) ∧ (le32 b 28 = 0 ∨ now ≤ le32 b 28) ∧
    (cfg.enforceHwm → ∃ mark s₂, hal.handler .hwmLoad s₁ = ((.ok, mark), s₂) ∧ mark ≤ now ∧
      (now = mark ∨ (hal.handler (.hwmStore now) s₂).1 = .ok)))

/-- A handler's step 6 passes exactly when the time conditions hold. -/
theorem timeStep_ok_iff {σ : Type} {cfg : VlConfig} {hal : VlHal σ} {b : List UInt8}
    (hb : b.length = 100) {lic : VlLicense} (hbefore : lic.notBefore = (readPayload b).notBefore)
    (hafter : lic.notAfter = (readPayload b).notAfter) {s : σ} :
    (∃ t lic' s', TimeStep hal.handler.env cfg hal.mask lic s t (.ok lic') s') ↔
      TimeOk cfg hal b s := by
  have hnb : lic.notBefore = le32 b 24 := hbefore.trans (rdLe32_eq (by simp [hb, OFF_NOT_BEFORE]))
  have hna : lic.notAfter = le32 b 28 := hafter.trans (rdLe32_eq (by simp [hb, OFF_NOT_AFTER]))
  have hearly : ∀ now, ¬ tooEarly lic now ↔ le32 b 24 = 0 ∨ le32 b 24 ≤ now := fun now => by
    rw [not_tooEarly_iff, hnb]
  have hlate : ∀ now, ¬ tooLate lic now ↔ le32 b 28 = 0 ∨ now ≤ le32 b 28 := fun now => by
    rw [not_tooLate_iff, hna]
  have hnone : hal.mask.nowEpoch = false ↔ hal.nowEpoch = none := by
    cases h : hal.nowEpoch <;> simp [VlHal.mask, h]
  unfold TimeOk
  refine ⟨?_, ?_⟩
  · intro h
    obtain ⟨t, lic', s', h⟩ := h
    cases h with
    | unchecked hclock hreq => exact .inl ⟨hnone.mp hclock, hreq⟩
    | inWindow hclock hn he hl hf =>
      exact .inr ⟨hclock, _, _, hn, (hearly _).mp he, (hlate _).mp hl, fun hf' => absurd hf' hf⟩
    | marked hclock hn he hl hf hm =>
      refine .inr ⟨hclock, _, _, hn, (hearly _).mp he, (hlate _).mp hl, fun _ => ?_⟩
      cases hm with
      | level hload heq => exact ⟨_, _, hload, by rw [heq]; exact UInt32.le_refl _, .inl heq⟩
      | stored hload hlt hstore =>
        exact ⟨_, _, hload, UInt32.le_of_lt hlt, .inr (by rw [show hal.handler _ _ = _ from hstore])⟩
  · intro h
    rcases h with ⟨hclock, hreq⟩ | ⟨hclock, now, s₁, hn, he, hl, hmark⟩
    · exact ⟨_, _, _, .unchecked (hnone.mpr hclock) hreq⟩
    by_cases hf : cfg.enforceHwm
    · obtain ⟨mark, s₂, hload, hle, hstore⟩ := hmark hf
      by_cases heq : now = mark
      · exact ⟨_, _, _, .marked hclock hn ((hearly _).mpr he) ((hlate _).mpr hl) hf
          (.level hload heq)⟩
      · have hlt : mark < now := UInt32.lt_of_le_of_ne hle (Ne.symm heq)
        have hok := hstore.resolve_left heq
        exact ⟨_, _, _, .marked hclock hn ((hearly _).mpr he) ((hlate _).mpr hl) hf
          (.stored hload hlt (show hal.handler _ _ = _ from Prod.ext hok rfl))⟩
    · exact ⟨_, _, _, .inWindow hclock hn ((hearly _).mpr he) ((hlate _).mpr hl) hf⟩

/-! ## The licence handed out -/

/-- The optional checks that ran, given that all passed. -/
def checkedBits (cfg : VlConfig) (hal : HalMask) : UInt32 :=
  VL_CHECKED_SIGNATURE ||| VL_CHECKED_DEVICE |||
    (if cfg.revokedSerials.getD [] = [] then 0 else VL_CHECKED_REVOCATION) |||
    (if hal.nowEpoch = false then 0
      else if cfg.enforceHwm then VL_CHECKED_TIME ||| VL_CHECKED_HWM else VL_CHECKED_TIME)

theorem checkRevocation_ok {cfg : VlConfig} {lic lic' : VlLicense}
    (h : checkRevocation cfg lic = .ok lic') : lic' = lic.withChecked
      (if cfg.revokedSerials.getD [] = [] then 0 else VL_CHECKED_REVOCATION) := by
  have hzero : lic.withChecked 0 = lic := by simp only [VlLicense.withChecked, UInt32.or_zero]
  unfold checkRevocation at h
  split at h
  · rename_i hnone
    rw [hnone, Option.getD_none, if_pos rfl, hzero]
    exact (Except.ok.inj h).symm
  · rename_i serials hsome
    rw [hsome, Option.getD_some]
    split at h
    · rename_i hlen
      split at h
      · cases h
      · rw [if_neg (List.length_pos_iff.mp hlen)]
        exact (Except.ok.inj h).symm
    · rename_i hlen
      rw [if_pos (List.length_eq_zero_iff.mp (by omega)), hzero]
      exact (Except.ok.inj h).symm

theorem TimeStep.ok_eq {σ : Type} {env : Env HalCall.Resp σ} {cfg : VlConfig} {hal : HalMask}
    {lic lic' : VlLicense} {s s' : σ} {t : List HalEvent}
    (h : TimeStep env cfg hal lic s t (.ok lic') s') : lic' = lic.withChecked
      (if hal.nowEpoch = false then 0
        else if cfg.enforceHwm then VL_CHECKED_TIME ||| VL_CHECKED_HWM else VL_CHECKED_TIME) := by
  cases h with
  | unchecked hclock =>
    rw [if_pos hclock]
    simp only [VlLicense.withChecked, UInt32.or_zero]
  | inWindow hclock _ _ _ hf => rw [if_neg (by simp [hclock]), if_neg hf]
  | marked hclock _ _ _ hf hm =>
    rw [if_neg (by simp [hclock]), if_pos hf, ← VlLicense.withChecked_withChecked]
    cases hm with
    | level | stored => rfl

theorem VerifyStep.ok_eq {σ : Type} [Target] {cr : Crypto} {env : Env HalCall.Resp σ}
    {cfg : VlConfig} {keys : List VlPubkey} {hal : HalMask} {blob : CStr} {s s' : σ}
    {t : List HalEvent} {lic : VlLicense}
    (h : VerifyStep cr env cfg keys hal blob s t (.ok lic) s') :
    ∃ b pk, Authentic cr cfg keys blob b pk ∧
      lic = { readPayload b with checked := checkedBits cfg hal } := by
  cases h with
  | timed hauth _ _ hrev htime =>
    obtain ⟨b, pk, ha, rfl⟩ := authenticate_ok_iff.mp hauth
    refine ⟨b, pk, ha, ?_⟩
    rw [htime.ok_eq, checkRevocation_ok hrev]
    simp only [VlLicense.withChecked_withChecked]
    simp only [VlLicense.withChecked, readPayload, checkedBits, UInt32.zero_or]

/-! ## Acceptance -/

section
variable [Target]

/-- `vl_verify` against the callbacks of a HAL; a NULL HAL has none. -/
def verifyOn {σ : Type} (cr : Crypto) (blob : Option CStr) (cfg : Option VlConfig)
    (hal : Option (VlHal σ)) (out : Option VlLicense) (s : σ) :
    Prog.Outcome HalCall.Resp σ (VlStatus × Option VlLicense) :=
  (vlVerify cr blob cfg (hal.map VlHal.mask) out).run
    (hal.getD ⟨none, none, none, none, none, none, none⟩).handler s

/-- Everything `VL_OK` stands for. -/
structure AcceptedBy {σ : Type} (cr : Crypto) (cfg : VlConfig) (keys : List VlPubkey)
    (hal : VlHal σ) (blob : CStr) (s : σ) (b : List UInt8) (pk : VlPubkey)
    (fp : Vector UInt8 32) : Prop where
  keySet : cfg.keys = some keys ∧ keys ≠ []
  readIdSegment : hal.readIdSegment.isSome
  hwmArgs : cfg.enforceHwm → hal.nowEpoch.isSome ∧ hal.hwmLoad.isSome ∧ hal.hwmStore.isSome
  authentic : Authentic cr cfg keys blob b pk
  fingerprint : ((vlComputeFingerprint cr (some hal.mask) (some (Vector.replicate 32 0))).run
    hal.handler s).val = (.ok, some fp)
  device : fp.toList.take 16 = (b.drop 8).take 16
  notRevoked : NotRevoked cfg (le32 b 32)
  time : TimeOk cfg hal b ((vlComputeFingerprint cr (some hal.mask)
    (some (Vector.replicate 32 0))).run hal.handler s).st

/-- No argument is NULL, and the licence is accepted. -/
def Accepts {σ : Type} (cr : Crypto) (blob : Option CStr) (cfg : Option VlConfig)
    (hal : Option (VlHal σ)) (s : σ) : Prop :=
  ∃ str c h keys b pk fp, blob = some str ∧ cfg = some c ∧ hal = some h ∧
    AcceptedBy cr c keys h str s b pk fp

variable {cr : Crypto} {σ : Type}

/-- A run against the callbacks is an execution in the environment they make. -/
theorem verifyOn_ok_iff {blob : Option CStr} {cfg : Option VlConfig} {hal : Option (VlHal σ)}
    {out : Option VlLicense} {s : σ} :
    (verifyOn cr blob cfg hal out s).val.1 = .ok ↔
      ∃ o t s', Prog.Exec (hal.getD ⟨none, none, none, none, none, none, none⟩).handler.env
        (vlVerify cr blob cfg (hal.map VlHal.mask) out) s t (.ok, o) s' := by
  simp only [Prog.exec_env_iff, verifyOn]
  refine ⟨?_, ?_⟩
  · intro hok
    exact ⟨_, _, _, by rw [← hok]⟩
  · intro h
    obtain ⟨o, t, s', h⟩ := h
    rw [h]

theorem verifyOn_license {str : CStr} {c : VlConfig} {hal : VlHal σ} {out : Option VlLicense} {s : σ}
    {b : List UInt8} (hb : DecodesTo str b)
    (h : (verifyOn cr (some str) (some c) (some hal) out s).val.1 = .ok) :
    (verifyOn cr (some str) (some c) (some hal) out s).val.2 =
      out.map fun _ => { readPayload b with checked := checkedBits c hal.mask } := by
  have hexec := Prog.exec_run hal.handler (vlVerify cr (some str) (some c) (some hal.mask) out) s
  have hval : (Prog.run hal.handler (vlVerify cr (some str) (some c) (some hal.mask) out) s).val =
      (.ok, (verifyOn cr (some str) (some c) (some hal) out s).val.2) := Prod.ext h rfl
  rw [hval] at hexec
  obtain ⟨_, _, keys, m, lic, hargs, hstep, hout⟩ := exec_vlVerify_ok.mp hexec
  obtain ⟨hstr, hcfg, hm, -⟩ := checkArgs_ok_iff.mp hargs
  cases hstr
  cases hcfg
  cases hm
  obtain ⟨b', pk, ha, rfl⟩ := hstep.ok_eq
  rw [hout, hb.unique ha.decodes]

/-- **Exact acceptance.** -/
theorem accepts_iff (cr : Crypto) (blob : Option CStr) (cfg : Option VlConfig)
    (hal : Option (VlHal σ)) (out : Option VlLicense) (s : σ) :
    (verifyOn cr blob cfg hal out s).val.1 = .ok ↔ Accepts cr blob cfg hal s := by
  rw [verifyOn_ok_iff]
  simp only [exec_vlVerify_ok, checkArgs_ok_iff]
  refine ⟨?_, ?_⟩
  · intro h
    obtain ⟨o, t, s', b, c, keys, m, lic, ⟨rfl, rfl, hm, hkeys, hne, hid, hhwm⟩, hstep, -⟩ := h
    cases hal with
    | none => cases hm
    | some h =>
      cases hm
      rw [Option.getD_some] at hstep
      cases hstep with
      | timed hauth hfp hdev hrev htime =>
        obtain ⟨bin, pk, ha, rfl⟩ := authenticate_ok_iff.mp hauth
        have hlen := ha.decodes.1
        obtain ⟨⟨v, rfl⟩, -⟩ := exec_fingerprint_cases hfp
        have hfp' := Prog.exec_env_iff.mp hfp
        refine ⟨b, c, h, keys, bin, pk, v, rfl, rfl, rfl, ⟨⟨hkeys, hne⟩, hid, hhwm, ha, ?_, ?_, ?_, ?_⟩⟩
        · rw [hfp']
        · rw [← readPayload_deviceId hlen]
          exact deviceMatches_iff.mp hdev
        · rw [← rdLe32_eq (by simp [hlen])]
          exact checkRevocation_ok_iff.mp ⟨_, hrev⟩
        · rw [hfp']
          rcases checkRevocation_cases c _ with ⟨-, lic', heq, hnb, hna⟩ | ⟨-, heq⟩
          · rw [hrev, Except.ok.injEq] at heq
            subst heq
            exact (timeStep_ok_iff hlen hnb hna).mp ⟨_, _, _, htime⟩
          · rw [hrev] at heq
            cases heq
  · intro h
    obtain ⟨b, c, h, keys, bin, pk, v, rfl, rfl, rfl, ha⟩ := h
    have hlen := ha.authentic.decodes.1
    have hauth := authenticate_ok_iff.mpr ⟨bin, pk, ha.authentic, rfl⟩
    have hfp := Prog.exec_run h.handler
      (vlComputeFingerprint cr (some h.mask) (some (Vector.replicate 32 0))) s
    rw [ha.fingerprint] at hfp
    have hdev : deviceMatches (some v)
        ((readPayload bin).withChecked VL_CHECKED_SIGNATURE) := by
      rw [deviceMatches_iff, VlLicense.withChecked_deviceId, readPayload_deviceId hlen]
      exact ha.device
    rcases checkRevocation_cases c (((readPayload bin).withChecked
        VL_CHECKED_SIGNATURE).withChecked VL_CHECKED_DEVICE) with
      ⟨-, lic', hrev, hnb, hna⟩ | ⟨hno, -⟩
    · obtain ⟨t, lic, s', htime⟩ := (timeStep_ok_iff hlen hnb hna).mpr ha.time
      exact ⟨_, _, s', b, c, keys, h.mask, lic, ⟨rfl, rfl, rfl, ha.keySet.1, ha.keySet.2,
        ha.readIdSegment, ha.hwmArgs⟩, .timed hauth hfp hdev hrev htime, rfl⟩
    · exfalso
      apply hno
      have hserial : (readPayload bin).serial = le32 bin 32 :=
        rdLe32_eq (by simp [hlen, OFF_SERIAL])
      rw [VlLicense.withChecked_serial, VlLicense.withChecked_serial, hserial]
      exact ha.notRevoked

end

end VectiLicense.L3
