import VectiLicense.L1Codec.Base32
import VectiLicense.L3Verify.Fingerprint

/-!
# `vl_verify` of `core/vl_core.c`

The six steps of the source, in its order. Steps 1 to 3 are pure: `checkArgs`
and `authenticate` (decode, header, key, signature) see the arguments and
nothing else. Steps 4 to 6 ask the HAL: `bindDevice` for the identity
segments, `checkTime` for the clock and the high-water mark. `goto fail` is an
`Except` error; `vlVerify` turns it into a status and a zeroed output.

What an execution of `vl_verify` can do is said once, and used instead of the
definitions from here on:

* `TimeStep`: the ways step 6 can end, with its calls and their answers;
* `VerifyStep`: the same for steps 2 to 6;
* `exec_vlVerify`: the executions of `vlVerify` are exactly these.
-/
namespace VectiLicense.L3

open VectiLicense.Core VectiLicense.L0 VectiLicense.L1.Base32

/-! ## Helpers of the source -/

/-- `vectilicense:v1`.
mirrors core/vl_core.c:21-23 -/
def VL_SIGN_PREFIX : List UInt8 :=
  ascii ['v', 'e', 'c', 't', 'i', 'l', 'i', 'c', 'e', 'n', 's', 'e', ':', 'v', '1']

def OFF_MAGIC : Nat := 0
def OFF_VERSION : Nat := 1
def OFF_KEY_ID : Nat := 2
def OFF_FAMILY : Nat := 3
def OFF_FEATURES : Nat := 4
def OFF_DEVICE_ID : Nat := 8
def OFF_NOT_BEFORE : Nat := 24
def OFF_NOT_AFTER : Nat := 28
def OFF_SERIAL : Nat := 32

/-- `rd_le32(p + off)`.
mirrors core/vl_core.c:42-48 -/
def rdLe32 (p : List UInt8) (off : Nat) : UInt32 :=
  (p.getD off 0).toUInt32 ||| ((p.getD (off + 1) 0).toUInt32 <<< 8) |||
    ((p.getD (off + 2) 0).toUInt32 <<< 16) ||| ((p.getD (off + 3) 0).toUInt32 <<< 24)

/-- `diff` after the loop over the first `len` bytes.
mirrors core/vl_util.c:50-52 -/
def ctDiff (pa pb : List UInt8) (len : Nat) : UInt8 :=
  (List.range len).foldl (fun diff i => diff ||| (pa.getD i 0 ^^^ pb.getD i 0)) 0

/-- mirrors core/vl_util.c:35-56 -/
def vlCtEq (a b : Option (List UInt8)) (len : Nat) : UInt32 :=
  match a, b with
  | some pa, some pb =>
    if len = 0 then 0 else (((ctDiff pa pb len).toUInt32 - 1) >>> 8) &&& 1
  | _, _ => 0

/-- mirrors core/vl_core.c:190-199 -/
def findKey (keys : List VlPubkey) (keyId : UInt8) : Option VlPubkey :=
  keys.find? fun k => k.keyId = keyId

/-- mirrors core/vl_core.c:205-217 -/
def isRevoked (cfg : VlConfig) (serial : UInt32) : Bool :=
  match cfg.revokedSerials with
  | none => false
  | some serials => serials.any fun s => s = serial

/-! ## The six steps -/

/-- Step 1, from the first NULL test to the ENFORCE_HWM test.
mirrors core/vl_core.c:242-265 -/
def checkArgs (blob : Option CStr) (cfg : Option VlConfig) (hal : Option HalMask) :
    Except VlStatus (CStr × VlConfig × List VlPubkey × HalMask) :=
  match blob, cfg, hal with
  | some blob, some cfg, some hal =>
    match cfg.keys with
    | none => .error .errInvalidArg
    | some keys =>
      if keys.length = 0 then .error .errInvalidArg
      else if hal.readIdSegment = false then .error .errInvalidArg
      else if cfg.enforceHwm ∧
          (hal.nowEpoch = false ∨ hal.hwmLoad = false ∨ hal.hwmStore = false) then
        .error .errInvalidArg
      else .ok (blob, cfg, keys, hal)
  | _, _, _ => .error .errInvalidArg

section
variable [Target] (cr : Crypto)

/-- The strict decode into `bin`.
mirrors core/vl_core.c:270-274 -/
def decodeBlob (blob : CStr) : Except VlStatus (List UInt8) :=
  let decoded := vlBase32Decode (some blob) .buf VL_BLOB_BIN_LEN VL_BLOB_BIN_LEN
  if decoded.ret ≠ some VL_BLOB_BIN_LEN then .error .errBadFormat
  else .ok (storeAll (List.replicate VL_BLOB_BIN_LEN 0) decoded.writes)

/-- The payload's fields, nothing checked yet.
mirrors core/vl_core.c:284-291 -/
def readPayload (bin : List UInt8) : VlLicense where
  version := bin.getD OFF_VERSION 0
  keyId := bin.getD OFF_KEY_ID 0
  family := bin.getD OFF_FAMILY 0
  features := rdLe32 bin OFF_FEATURES
  notBefore := rdLe32 bin OFF_NOT_BEFORE
  notAfter := rdLe32 bin OFF_NOT_AFTER
  serial := rdLe32 bin OFF_SERIAL
  deviceId := Vector.ofFn fun i => bin.getD (OFF_DEVICE_ID + i) 0
  checked := 0

/-- The plain header fields and the key lookup.
mirrors core/vl_core.c:275-301 -/
def checkHeader (cfg : VlConfig) (keys : List VlPubkey) (bin : List UInt8) :
    Except VlStatus (VlLicense × VlPubkey) :=
  if bin.getD OFF_MAGIC 0 ≠ VL_MAGIC then .error .errBadMagic
  else if bin.getD OFF_VERSION 0 ≠ VL_FORMAT_VERSION then .error .errBadVersion
  else
    let lic := readPayload bin
    if lic.family ≠ cfg.family then .error .errBadFamily
    else
      match findKey keys lic.keyId with
      | none => .error .errUnknownKey
      | some pk => .ok (lic, pk)

/-- The signed message: prefix, NUL, payload.
mirrors core/vl_core.c:304-306 -/
def signedMsg (bin : List UInt8) : List UInt8 := VL_SIGN_PREFIX ++ [0] ++ bin.take VL_PAYLOAD_LEN

/-- Step 3.
mirrors core/vl_core.c:308-312 -/
def checkSignature (bin : List UInt8) (lic : VlLicense) (pk : VlPubkey) :
    Except VlStatus VlLicense :=
  if cr.vlEd25519Verify ((bin.drop VL_PAYLOAD_LEN).take VL_SIG_LEN) (signedMsg bin) pk.key then
    .ok (lic.withChecked VL_CHECKED_SIGNATURE)
  else .error .errBadSignature

/-- Steps 2 and 3. -/
def authenticate (cfg : VlConfig) (keys : List VlPubkey) (blob : CStr) :
    Except VlStatus VlLicense :=
  match decodeBlob blob with
  | .error rc => .error rc
  | .ok bin =>
    match checkHeader cfg keys bin with
    | .error rc => .error rc
    | .ok (lic, pk) => checkSignature cr bin lic pk

end

/-- `vl_ct_eq(fingerprint, lic.device_id, VL_DEVICE_ID_LEN)` -/
def deviceMatches (fp : Option (Vector UInt8 32)) (lic : VlLicense) : Prop :=
  vlCtEq (fp.map Vector.toList) (some lic.deviceId.toList) VL_DEVICE_ID_LEN ≠ 0

instance (fp : Option (Vector UInt8 32)) (lic : VlLicense) : Decidable (deviceMatches fp lic) :=
  inferInstanceAs (Decidable (_ ≠ _))

/-- Step 4.
mirrors core/vl_core.c:315-323 -/
def bindDevice (cr : Crypto) (hal : HalMask) (lic : VlLicense) : ExceptT VlStatus HalProg VlLicense := do
  let (rc, fingerprint) ←
    Prog.liftE (vlComputeFingerprint cr (some hal) (some (Vector.replicate 32 0)))
  Prog.failIf (rc ≠ .ok) rc
  Prog.failIf (¬ deviceMatches fingerprint lic) .errDeviceMismatch
  return lic.withChecked VL_CHECKED_DEVICE

/-- Step 5.
mirrors core/vl_core.c:326-332 -/
def checkRevocation (cfg : VlConfig) (lic : VlLicense) : Except VlStatus VlLicense :=
  match cfg.revokedSerials with
  | none => .ok lic
  | some serials =>
    if serials.length > 0 then
      if isRevoked cfg lic.serial then .error .errRevoked
      else .ok (lic.withChecked VL_CHECKED_REVOCATION)
    else .ok lic

/-- `lic.not_before != 0u && now < lic.not_before` -/
def tooEarly (lic : VlLicense) (now : UInt32) : Prop := lic.notBefore ≠ 0 ∧ now < lic.notBefore

/-- `lic.not_after != 0u && now > lic.not_after` -/
def tooLate (lic : VlLicense) (now : UInt32) : Prop := lic.notAfter ≠ 0 ∧ now > lic.notAfter

instance (lic : VlLicense) (now : UInt32) : Decidable (tooEarly lic now) :=
  inferInstanceAs (Decidable (_ ∧ _))
instance (lic : VlLicense) (now : UInt32) : Decidable (tooLate lic now) :=
  inferInstanceAs (Decidable (_ ∧ _))

/-- `if (now > mark && hal->hwm_store(hal->ctx, now) != VL_OK)`.
mirrors core/vl_core.c:370-373 -/
def advanceMark (now mark : UInt32) : ExceptT VlStatus HalProg Unit :=
  if now > mark then do
    let st ← Prog.liftE (halHwmStore now)
    Prog.failIf (st ≠ .ok) .errPlatform
  else return ()

/-- The high-water mark.
mirrors core/vl_core.c:360-375 -/
def checkMark (lic : VlLicense) (now : UInt32) : ExceptT VlStatus HalProg VlLicense := do
  let (st, mark) ← Prog.liftE halHwmLoad
  Prog.failIf (st ≠ .ok) .errPlatform
  Prog.failIf (now < mark) .errClockRollback
  advanceMark now mark
  return lic.withChecked VL_CHECKED_HWM

/-- Step 6.
mirrors core/vl_core.c:335-376 -/
def checkTime (cfg : VlConfig) (hal : HalMask) (lic : VlLicense) :
    ExceptT VlStatus HalProg VlLicense :=
  if hal.nowEpoch = false then do
    Prog.failIf cfg.requireClock .errNoClock
    return lic
  else do
    let (st, now) ← Prog.liftE halNowEpoch
    Prog.failIf (st ≠ .ok) .errPlatform
    Prog.failIf (tooEarly lic now) .errNotYetValid
    Prog.failIf (tooLate lic now) .errExpired
    let lic := lic.withChecked VL_CHECKED_TIME
    if cfg.enforceHwm then checkMark lic now else return lic

section
variable [Target] (cr : Crypto)

/-- Steps 2 to 6: the licence, or the status at `fail:`. -/
def verifySteps (cfg : VlConfig) (keys : List VlPubkey) (hal : HalMask) (blob : CStr) :
    ExceptT VlStatus HalProg VlLicense := do
  let lic ← Prog.ofExcept (authenticate cr cfg keys blob)
  let lic ← bindDevice cr hal lic
  let lic ← Prog.ofExcept (checkRevocation cfg lic)
  checkTime cfg hal lic

/-- The exit: `*out = lic` on success, `memset(out, 0, …)` at `fail:`. -/
def verdict (out : Option VlLicense) : Except VlStatus VlLicense → VlStatus × Option VlLicense
  | .ok lic => (.ok, out.map fun _ => lic)
  | .error rc => (rc, out.map fun _ => VlLicense.zero)

/-- `none` is a NULL pointer; the result carries what `out` points to afterwards.
mirrors core/vl_core.c:219-393 -/
def vlVerify (blob : Option CStr) (cfg : Option VlConfig) (hal : Option HalMask)
    (out : Option VlLicense) : HalProg (VlStatus × Option VlLicense) :=
  match checkArgs blob cfg hal with
  | .error rc => .ret (rc, out.map fun _ => VlLicense.zero)
  | .ok (blob, cfg, keys, hal) => do
    let r ← (verifySteps cr cfg keys hal blob).run
    return verdict out r

end

/-! ## The ways step 6 can end -/

section
variable {σ : Type}

/-- `checkMark`, from state `s` with the clock at `now`. -/
inductive MarkStep (env : Env HalCall.Resp σ) (lic : VlLicense) (now : UInt32) :
    σ → List HalEvent → Except VlStatus VlLicense → σ → Prop where
  | loadFailed {s s' : σ} {st : VlStatus} {mark : UInt32} :
      env .hwmLoad s (st, mark) s' → st ≠ .ok →
      MarkStep env lic now s [⟨.hwmLoad, (st, mark)⟩] (.error .errPlatform) s'
  | rollback {s s' : σ} {mark : UInt32} :
      env .hwmLoad s (.ok, mark) s' → now < mark →
      MarkStep env lic now s [⟨.hwmLoad, (.ok, mark)⟩] (.error .errClockRollback) s'
  | level {s s' : σ} {mark : UInt32} :
      env .hwmLoad s (.ok, mark) s' → now = mark →
      MarkStep env lic now s [⟨.hwmLoad, (.ok, mark)⟩] (.ok (lic.withChecked VL_CHECKED_HWM)) s'
  | storeFailed {s s₁ s' : σ} {mark : UInt32} {st : VlStatus} :
      env .hwmLoad s (.ok, mark) s₁ → mark < now → env (.hwmStore now) s₁ st s' → st ≠ .ok →
      MarkStep env lic now s [⟨.hwmLoad, (.ok, mark)⟩, ⟨.hwmStore now, st⟩]
        (.error .errPlatform) s'
  | stored {s s₁ s' : σ} {mark : UInt32} :
      env .hwmLoad s (.ok, mark) s₁ → mark < now → env (.hwmStore now) s₁ .ok s' →
      MarkStep env lic now s [⟨.hwmLoad, (.ok, mark)⟩, ⟨.hwmStore now, .ok⟩]
        (.ok (lic.withChecked VL_CHECKED_HWM)) s'

/-- `checkTime`. -/
inductive TimeStep (env : Env HalCall.Resp σ) (cfg : VlConfig) (hal : HalMask) (lic : VlLicense) :
    σ → List HalEvent → Except VlStatus VlLicense → σ → Prop where
  | noClock {s : σ} : hal.nowEpoch = false → cfg.requireClock →
      TimeStep env cfg hal lic s [] (.error .errNoClock) s
  | unchecked {s : σ} : hal.nowEpoch = false → ¬ cfg.requireClock →
      TimeStep env cfg hal lic s [] (.ok lic) s
  | clockFailed {s s' : σ} {st : VlStatus} {now : UInt32} : hal.nowEpoch = true →
      env .nowEpoch s (st, now) s' → st ≠ .ok →
      TimeStep env cfg hal lic s [⟨.nowEpoch, (st, now)⟩] (.error .errPlatform) s'
  | notYetValid {s s' : σ} {now : UInt32} : hal.nowEpoch = true →
      env .nowEpoch s (.ok, now) s' → tooEarly lic now →
      TimeStep env cfg hal lic s [⟨.nowEpoch, (.ok, now)⟩] (.error .errNotYetValid) s'
  | expired {s s' : σ} {now : UInt32} : hal.nowEpoch = true →
      env .nowEpoch s (.ok, now) s' → ¬ tooEarly lic now → tooLate lic now →
      TimeStep env cfg hal lic s [⟨.nowEpoch, (.ok, now)⟩] (.error .errExpired) s'
  | inWindow {s s' : σ} {now : UInt32} : hal.nowEpoch = true →
      env .nowEpoch s (.ok, now) s' → ¬ tooEarly lic now → ¬ tooLate lic now →
      ¬ cfg.enforceHwm →
      TimeStep env cfg hal lic s [⟨.nowEpoch, (.ok, now)⟩]
        (.ok (lic.withChecked VL_CHECKED_TIME)) s'
  | marked {s s₁ s' : σ} {now : UInt32} {t : List HalEvent} {r : Except VlStatus VlLicense} :
      hal.nowEpoch = true → env .nowEpoch s (.ok, now) s₁ → ¬ tooEarly lic now →
      ¬ tooLate lic now → cfg.enforceHwm →
      MarkStep env (lic.withChecked VL_CHECKED_TIME) now s₁ t r s' →
      TimeStep env cfg hal lic s (⟨.nowEpoch, (.ok, now)⟩ :: t) r s'

variable {env : Env HalCall.Resp σ} {cfg : VlConfig} {hal : HalMask} {lic : VlLicense} {s s' : σ}
  {t : List HalEvent} {r : Except VlStatus VlLicense}

theorem exec_advanceMark {now mark : UInt32} {u : Except VlStatus Unit} :
    Prog.Exec env (advanceMark now mark).run s t u s' ↔
      (¬ mark < now ∧ t = [] ∧ u = .ok () ∧ s' = s) ∨
      (mark < now ∧ ∃ st, env (.hwmStore now) s st s' ∧ t = [⟨.hwmStore now, st⟩] ∧
        u = if st ≠ .ok then .error .errPlatform else .ok ()) := by
  unfold advanceMark
  split
  · rename_i hlt
    rw [Prog.exec_liftE_bind]
    simp only [Prog.exec_ask, Prog.exec_failIf]
    refine ⟨?_, ?_⟩
    · intro h
      obtain ⟨st, s₁, _, _, rfl, ⟨rfl, hs⟩, rfl, rfl, rfl⟩ := h
      exact .inr ⟨hlt, st, hs, rfl, rfl⟩
    · intro h
      rcases h with ⟨hnot, -⟩ | ⟨-, st, hs, rfl, rfl⟩
      · exact absurd hlt hnot
      · exact ⟨st, s', _, [], rfl, ⟨rfl, hs⟩, rfl, rfl, rfl⟩
  · rename_i hlt
    rw [Prog.exec_pureE]
    refine ⟨?_, ?_⟩
    · intro h
      obtain ⟨rfl, rfl, rfl⟩ := h
      exact .inl ⟨hlt, rfl, rfl, rfl⟩
    · intro h
      rcases h with ⟨-, rfl, rfl, rfl⟩ | ⟨hnot, -⟩
      · exact ⟨rfl, rfl, rfl⟩
      · exact absurd hnot hlt

theorem exec_checkMark {now : UInt32} :
    Prog.Exec env (checkMark lic now).run s t r s' ↔ MarkStep env lic now s t r s' := by
  unfold checkMark
  rw [Prog.exec_liftE_bind]
  refine ⟨?_, ?_⟩
  · intro h
    obtain ⟨⟨st, mark⟩, s₁, _, t₂, rfl, hask, h⟩ := h
    obtain ⟨rfl, hl⟩ := Prog.exec_ask.mp hask
    rw [Prog.exec_failIf_bind] at h
    rcases h with ⟨hst, rfl, rfl, rfl⟩ | ⟨hst, h⟩
    · exact .loadFailed hl hst
    have hok : st = .ok := Decidable.not_not.mp hst
    subst hok
    rw [Prog.exec_failIf_bind] at h
    rcases h with ⟨hlt, rfl, rfl, rfl⟩ | ⟨hlt, h⟩
    · exact .rollback hl hlt
    rw [Prog.exec_bindE] at h
    rcases h with ⟨e, rfl, h⟩ | ⟨u, s₂, t₃, t₄, rfl, h, hret⟩
    · rcases exec_advanceMark.mp h with ⟨-, -, h, -⟩ | ⟨hgt, st, hs, rfl, hu⟩
      · cases h
      · split at hu
        · cases hu
          exact .storeFailed hl hgt hs ‹_›
        · cases hu
    · obtain ⟨rfl, rfl, rfl⟩ := Prog.exec_pureE.mp hret
      rcases exec_advanceMark.mp h with ⟨hgt, rfl, -, rfl⟩ | ⟨hgt, st, hs, rfl, hu⟩
      · exact .level hl (UInt32.le_antisymm (UInt32.not_lt.mp hgt) (UInt32.not_lt.mp hlt))
      · split at hu
        · cases hu
        · have hok : st = .ok := Decidable.not_not.mp ‹_›
          subst hok
          exact .stored hl hgt hs
  · intro h
    cases h with
    | loadFailed hl hst =>
      exact ⟨_, _, _, [], rfl, Prog.exec_ask.mpr ⟨rfl, hl⟩,
        Prog.exec_failIf_bind.mpr (.inl ⟨hst, rfl, rfl, rfl⟩)⟩
    | rollback hl hlt =>
      refine ⟨_, _, _, [], rfl, Prog.exec_ask.mpr ⟨rfl, hl⟩, ?_⟩
      refine Prog.exec_failIf_bind.mpr (.inr ⟨by simp, ?_⟩)
      exact Prog.exec_failIf_bind.mpr (.inl ⟨hlt, rfl, rfl, rfl⟩)
    | level hl heq =>
      refine ⟨_, _, _, [], rfl, Prog.exec_ask.mpr ⟨rfl, hl⟩, ?_⟩
      refine Prog.exec_failIf_bind.mpr (.inr ⟨by simp, ?_⟩)
      refine Prog.exec_failIf_bind.mpr (.inr ⟨by simp [heq], ?_⟩)
      refine Prog.exec_bindE.mpr (.inr ⟨(), _, [], [], rfl, ?_, Prog.exec_pureE.mpr ⟨rfl, rfl, rfl⟩⟩)
      exact exec_advanceMark.mpr (.inl ⟨by simp [heq], rfl, rfl, rfl⟩)
    | storeFailed hl hlt hs hst =>
      refine ⟨_, _, [_], [_], rfl, Prog.exec_ask.mpr ⟨rfl, hl⟩, ?_⟩
      refine Prog.exec_failIf_bind.mpr (.inr ⟨by simp, ?_⟩)
      refine Prog.exec_failIf_bind.mpr (.inr ⟨UInt32.lt_asymm hlt, ?_⟩)
      refine Prog.exec_bindE.mpr (.inl ⟨_, rfl, ?_⟩)
      exact exec_advanceMark.mpr (.inr ⟨hlt, _, hs, rfl, by rw [if_pos hst]⟩)
    | stored hl hlt hs =>
      refine ⟨_, _, [_], [_], rfl, Prog.exec_ask.mpr ⟨rfl, hl⟩, ?_⟩
      refine Prog.exec_failIf_bind.mpr (.inr ⟨by simp, ?_⟩)
      refine Prog.exec_failIf_bind.mpr (.inr ⟨UInt32.lt_asymm hlt, ?_⟩)
      refine Prog.exec_bindE.mpr (.inr ⟨(), _, [_], [], rfl, ?_, Prog.exec_pureE.mpr ⟨rfl, rfl, rfl⟩⟩)
      exact exec_advanceMark.mpr (.inr ⟨hlt, _, hs, rfl, by simp⟩)

theorem exec_checkTime :
    Prog.Exec env (checkTime cfg hal lic).run s t r s' ↔ TimeStep env cfg hal lic s t r s' := by
  unfold checkTime
  split
  · rename_i hclock
    rw [Prog.exec_failIf_bind]
    simp only [Prog.exec_pureE]
    refine ⟨?_, ?_⟩
    · intro h
      rcases h with ⟨hreq, rfl, rfl, rfl⟩ | ⟨hreq, rfl, rfl, rfl⟩
      · exact .noClock hclock hreq
      · exact .unchecked hclock hreq
    · intro h
      cases h with
      | noClock _ hreq => exact .inl ⟨hreq, rfl, rfl, rfl⟩
      | unchecked _ hreq => exact .inr ⟨hreq, rfl, rfl, rfl⟩
      | _ h => rw [hclock] at h; cases h
  · rename_i hclock
    rw [Bool.not_eq_false] at hclock
    rw [Prog.exec_liftE_bind]
    refine ⟨?_, ?_⟩
    · intro h
      obtain ⟨⟨st, now⟩, s₁, _, t₂, rfl, hask, h⟩ := h
      obtain ⟨rfl, hn⟩ := Prog.exec_ask.mp hask
      rw [Prog.exec_failIf_bind] at h
      rcases h with ⟨hst, rfl, rfl, rfl⟩ | ⟨hst, h⟩
      · exact .clockFailed hclock hn hst
      have hok : st = .ok := Decidable.not_not.mp hst
      subst hok
      rw [Prog.exec_failIf_bind] at h
      rcases h with ⟨he, rfl, rfl, rfl⟩ | ⟨he, h⟩
      · exact .notYetValid hclock hn he
      rw [Prog.exec_failIf_bind] at h
      rcases h with ⟨hl, rfl, rfl, rfl⟩ | ⟨hl, h⟩
      · exact .expired hclock hn he hl
      dsimp only at h
      split at h
      · exact .marked hclock hn he hl ‹_› (exec_checkMark.mp h)
      · obtain ⟨rfl, rfl, rfl⟩ := Prog.exec_pureE.mp h
        exact .inWindow hclock hn he hl ‹_›
    · intro h
      cases h with
      | noClock h => rw [hclock] at h; cases h
      | unchecked h => rw [hclock] at h; cases h
      | clockFailed _ hn hst =>
        exact ⟨_, _, [_], [], rfl, Prog.exec_ask.mpr ⟨rfl, hn⟩,
          Prog.exec_failIf_bind.mpr (.inl ⟨hst, rfl, rfl, rfl⟩)⟩
      | notYetValid _ hn he =>
        refine ⟨_, _, [_], [], rfl, Prog.exec_ask.mpr ⟨rfl, hn⟩, ?_⟩
        refine Prog.exec_failIf_bind.mpr (.inr ⟨by simp, ?_⟩)
        exact Prog.exec_failIf_bind.mpr (.inl ⟨he, rfl, rfl, rfl⟩)
      | expired _ hn he hl =>
        refine ⟨_, _, [_], [], rfl, Prog.exec_ask.mpr ⟨rfl, hn⟩, ?_⟩
        refine Prog.exec_failIf_bind.mpr (.inr ⟨by simp, ?_⟩)
        refine Prog.exec_failIf_bind.mpr (.inr ⟨he, ?_⟩)
        exact Prog.exec_failIf_bind.mpr (.inl ⟨hl, rfl, rfl, rfl⟩)
      | inWindow _ hn he hl hf =>
        refine ⟨_, _, [_], [], rfl, Prog.exec_ask.mpr ⟨rfl, hn⟩, ?_⟩
        refine Prog.exec_failIf_bind.mpr (.inr ⟨by simp, ?_⟩)
        refine Prog.exec_failIf_bind.mpr (.inr ⟨he, ?_⟩)
        refine Prog.exec_failIf_bind.mpr (.inr ⟨hl, ?_⟩)
        rw [if_neg hf]
        exact Prog.exec_pureE.mpr ⟨rfl, rfl, rfl⟩
      | marked _ hn he hl hf hm =>
        refine ⟨_, _, [_], _, rfl, Prog.exec_ask.mpr ⟨rfl, hn⟩, ?_⟩
        refine Prog.exec_failIf_bind.mpr (.inr ⟨by simp, ?_⟩)
        refine Prog.exec_failIf_bind.mpr (.inr ⟨he, ?_⟩)
        refine Prog.exec_failIf_bind.mpr (.inr ⟨hl, ?_⟩)
        rw [if_pos hf]
        exact exec_checkMark.mpr hm

end

/-! ## The ways `vl_verify` can end -/

section
variable {σ : Type}

/-- Steps 2 to 6. -/
inductive VerifyStep [Target] (cr : Crypto) (env : Env HalCall.Resp σ) (cfg : VlConfig)
    (keys : List VlPubkey) (hal : HalMask) (blob : CStr) :
    σ → List HalEvent → Except VlStatus VlLicense → σ → Prop where
  | rejected {s : σ} {rc : VlStatus} : authenticate cr cfg keys blob = .error rc →
      VerifyStep cr env cfg keys hal blob s [] (.error rc) s
  | identityFailed {s s' : σ} {t : List HalEvent} {lic : VlLicense} {rc : VlStatus}
      {fp : Option (Vector UInt8 32)} : authenticate cr cfg keys blob = .ok lic →
      Prog.Exec env (vlComputeFingerprint cr (some hal) (some (Vector.replicate 32 0))) s t
        (rc, fp) s' → rc ≠ .ok →
      VerifyStep cr env cfg keys hal blob s t (.error rc) s'
  | otherDevice {s s' : σ} {t : List HalEvent} {lic : VlLicense} {fp : Option (Vector UInt8 32)} :
      authenticate cr cfg keys blob = .ok lic →
      Prog.Exec env (vlComputeFingerprint cr (some hal) (some (Vector.replicate 32 0))) s t
        (.ok, fp) s' → ¬ deviceMatches fp lic →
      VerifyStep cr env cfg keys hal blob s t (.error .errDeviceMismatch) s'
  | revoked {s s' : σ} {t : List HalEvent} {lic : VlLicense} {fp : Option (Vector UInt8 32)}
      {rc : VlStatus} : authenticate cr cfg keys blob = .ok lic →
      Prog.Exec env (vlComputeFingerprint cr (some hal) (some (Vector.replicate 32 0))) s t
        (.ok, fp) s' → deviceMatches fp lic →
      checkRevocation cfg (lic.withChecked VL_CHECKED_DEVICE) = .error rc →
      VerifyStep cr env cfg keys hal blob s t (.error rc) s'
  | timed {s s₁ s' : σ} {t₁ t₂ : List HalEvent} {lic lic' : VlLicense}
      {fp : Option (Vector UInt8 32)} {r : Except VlStatus VlLicense} :
      authenticate cr cfg keys blob = .ok lic →
      Prog.Exec env (vlComputeFingerprint cr (some hal) (some (Vector.replicate 32 0))) s t₁
        (.ok, fp) s₁ → deviceMatches fp lic →
      checkRevocation cfg (lic.withChecked VL_CHECKED_DEVICE) = .ok lic' →
      TimeStep env cfg hal lic' s₁ t₂ r s' →
      VerifyStep cr env cfg keys hal blob s (t₁ ++ t₂) r s'

variable {cr} {env : Env HalCall.Resp σ} {cfg : VlConfig} {keys : List VlPubkey} {hal : HalMask}
  {blob : CStr} {s s' : σ} {t : List HalEvent}

theorem exec_bindDevice {lic : VlLicense} {r : Except VlStatus VlLicense} :
    Prog.Exec env (bindDevice cr hal lic).run s t r s' ↔
      ∃ rc fp, Prog.Exec env
          (vlComputeFingerprint cr (some hal) (some (Vector.replicate 32 0))) s t (rc, fp) s' ∧
        r = if rc ≠ .ok then .error rc
          else if ¬ deviceMatches fp lic then .error .errDeviceMismatch
          else .ok (lic.withChecked VL_CHECKED_DEVICE) := by
  unfold bindDevice
  rw [Prog.exec_liftE_bind]
  refine ⟨?_, ?_⟩
  · intro h
    obtain ⟨⟨rc, fp⟩, s₁, t₁, t₂, rfl, hfp, h⟩ := h
    rw [Prog.exec_failIf_bind] at h
    rcases h with ⟨hrc, rfl, rfl, rfl⟩ | ⟨hrc, h⟩
    · exact ⟨rc, fp, by simpa using hfp, by rw [if_pos hrc]⟩
    rw [Prog.exec_failIf_bind] at h
    rcases h with ⟨hm, rfl, rfl, rfl⟩ | ⟨hm, h⟩
    · exact ⟨rc, fp, by simpa using hfp, by rw [if_neg hrc, if_pos hm]⟩
    obtain ⟨rfl, rfl, rfl⟩ := Prog.exec_pureE.mp h
    exact ⟨rc, fp, by simpa using hfp, by rw [if_neg hrc, if_neg hm]⟩
  · intro h
    obtain ⟨rc, fp, hfp, rfl⟩ := h
    refine ⟨(rc, fp), s', t, [], by simp, hfp, ?_⟩
    refine Prog.exec_failIf_bind.mpr ?_
    split
    · exact .inl ⟨‹_›, rfl, rfl, rfl⟩
    · refine .inr ⟨‹_›, Prog.exec_failIf_bind.mpr ?_⟩
      split
      · exact .inl ⟨‹_›, rfl, rfl, rfl⟩
      · exact .inr ⟨‹_›, Prog.exec_pureE.mpr ⟨rfl, rfl, rfl⟩⟩

theorem exec_bindDevice_ok {lic : VlLicense} {fp : Option (Vector UInt8 32)}
    (h : Prog.Exec env (vlComputeFingerprint cr (some hal) (some (Vector.replicate 32 0))) s t
      (.ok, fp) s') (hm : deviceMatches fp lic) :
    Prog.Exec env (bindDevice cr hal lic).run s t (.ok (lic.withChecked VL_CHECKED_DEVICE)) s' :=
  exec_bindDevice.mpr ⟨.ok, fp, h, by rw [if_neg (by simp), if_neg (not_not_intro hm)]⟩

theorem exec_verifySteps [Target] {r : Except VlStatus VlLicense} :
    Prog.Exec env (verifySteps cr cfg keys hal blob).run s t r s' ↔
      VerifyStep cr env cfg keys hal blob s t r s' := by
  unfold verifySteps
  rw [Prog.exec_bindE]
  simp only [Prog.exec_ofExcept]
  refine ⟨?_, ?_⟩
  · intro h
    rcases h with ⟨rc, rfl, rfl, hauth, rfl⟩ | ⟨lic, s₁, _, t₂, rfl, ⟨rfl, hauth, rfl⟩, h⟩
    · exact .rejected hauth.symm
    rw [Prog.exec_bindE] at h
    rcases h with ⟨rc, rfl, h⟩ | ⟨lic₁, s₂, t₁, t₃, rfl, h, h'⟩
    · obtain ⟨st, fp, hfp, hr⟩ := exec_bindDevice.mp h
      split at hr
      · cases hr
        exact .identityFailed hauth.symm hfp ‹_›
      · have hok : st = .ok := Decidable.not_not.mp ‹_›
        subst hok
        split at hr
        · cases hr
          exact .otherDevice hauth.symm hfp ‹_›
        · cases hr
    · obtain ⟨st, fp, hfp, hr⟩ := exec_bindDevice.mp h
      split at hr
      · cases hr
      have hok : st = .ok := Decidable.not_not.mp ‹_›
      subst hok
      split at hr
      · cases hr
      have hm : deviceMatches fp lic := Decidable.not_not.mp ‹_›
      cases hr
      rw [Prog.exec_bindE] at h'
      rcases h' with ⟨rc, rfl, h'⟩ | ⟨lic₂, s₃, t₄, t₅, rfl, h', h''⟩
      · obtain ⟨rfl, hrev, rfl⟩ := Prog.exec_ofExcept.mp h'
        rw [List.nil_append, List.append_nil]
        exact .revoked hauth.symm hfp hm hrev.symm
      · obtain ⟨rfl, hrev, rfl⟩ := Prog.exec_ofExcept.mp h'
        rw [List.nil_append, List.nil_append]
        exact .timed hauth.symm hfp hm hrev.symm (exec_checkTime.mp h'')
  · intro h
    cases h with
    | rejected hauth => exact .inl ⟨_, rfl, rfl, hauth.symm, rfl⟩
    | identityFailed hauth hfp hrc =>
      refine .inr ⟨_, _, [], _, rfl, ⟨rfl, hauth.symm, rfl⟩, Prog.exec_bindE.mpr (.inl ⟨_, rfl, ?_⟩)⟩
      exact exec_bindDevice.mpr ⟨_, _, hfp, by rw [if_pos hrc]⟩
    | otherDevice hauth hfp hm =>
      refine .inr ⟨_, _, [], _, rfl, ⟨rfl, hauth.symm, rfl⟩, Prog.exec_bindE.mpr (.inl ⟨_, rfl, ?_⟩)⟩
      exact exec_bindDevice.mpr ⟨_, _, hfp, by rw [if_neg (by simp), if_pos hm]⟩
    | revoked hauth hfp hm hrev =>
      have hbind := exec_bindDevice_ok hfp hm
      refine .inr ⟨_, s, [], t, rfl, ⟨rfl, hauth.symm, rfl⟩, Prog.exec_bindE.mpr
        (.inr ⟨_, s', t, [], (List.append_nil t).symm, hbind, ?_⟩)⟩
      exact Prog.exec_bindE.mpr (.inl ⟨_, rfl, Prog.exec_ofExcept.mpr ⟨rfl, hrev.symm, rfl⟩⟩)
    | timed hauth hfp hm hrev htime =>
      have hbind := exec_bindDevice_ok hfp hm
      refine .inr ⟨_, s, [], _, rfl, ⟨rfl, hauth.symm, rfl⟩, Prog.exec_bindE.mpr
        (.inr ⟨_, _, _, _, rfl, hbind, ?_⟩)⟩
      exact Prog.exec_bindE.mpr (.inr ⟨_, _, [], _, rfl,
        Prog.exec_ofExcept.mpr ⟨rfl, hrev.symm, rfl⟩, exec_checkTime.mpr htime⟩)

/-- A rejecting status: neither success nor the segment list's sentinel. -/
def Rejects (rc : VlStatus) : Prop := rc ≠ .ok ∧ rc ≠ .errNoMoreSegments

instance (rc : VlStatus) : Decidable (Rejects rc) := inferInstanceAs (Decidable (_ ∧ _))

theorem checkArgs_error {blob : Option CStr} {cfg : Option VlConfig} {hal : Option HalMask}
    {rc : VlStatus} (h : checkArgs blob cfg hal = .error rc) : rc = .errInvalidArg := by
  unfold checkArgs at h
  split at h
  · split at h
    · cases h; rfl
    split at h
    · cases h; rfl
    split at h
    · cases h; rfl
    split at h
    · cases h; rfl
    · cases h
  · cases h; rfl

theorem authenticate_error [Target] {rc : VlStatus}
    (h : authenticate cr cfg keys blob = .error rc) : Rejects rc := by
  unfold authenticate at h
  split at h
  · rename_i rc' hdec
    cases h
    unfold decodeBlob at hdec
    simp only at hdec
    split at hdec
    · cases hdec; decide
    · cases hdec
  split at h
  · rename_i rc' hhead
    cases h
    unfold checkHeader at hhead
    simp only at hhead
    split at hhead
    · cases hhead; decide
    split at hhead
    · cases hhead; decide
    split at hhead
    · cases hhead; decide
    split at hhead
    · cases hhead; decide
    · cases hhead
  · unfold checkSignature at h
    split at h
    · cases h
    · cases h; decide

theorem checkRevocation_error {lic : VlLicense} {rc : VlStatus}
    (h : checkRevocation cfg lic = .error rc) : rc = .errRevoked := by
  unfold checkRevocation at h
  split at h
  · cases h
  split at h
  · split at h
    · cases h; rfl
    · cases h
  · cases h

theorem MarkStep.rejects {lic : VlLicense} {now : UInt32} {rc : VlStatus}
    (h : MarkStep env lic now s t (.error rc) s') : Rejects rc := by
  cases h <;> decide

theorem TimeStep.rejects {lic : VlLicense} {rc : VlStatus}
    (h : TimeStep env cfg hal lic s t (.error rc) s') : Rejects rc := by
  cases h with
  | marked _ _ _ _ _ hm => exact hm.rejects
  | _ => decide

theorem VerifyStep.rejects [Target] {rc : VlStatus}
    (h : VerifyStep cr env cfg keys hal blob s t (.error rc) s') : Rejects rc := by
  cases h with
  | rejected hauth => exact authenticate_error hauth
  | identityFailed _ hfp hrc => exact ⟨hrc, (exec_fingerprint_cases hfp).2⟩
  | otherDevice => decide
  | revoked _ _ _ hrev => rw [checkRevocation_error hrev]; decide
  | timed _ _ _ _ ht => exact ht.rejects

/-- **The executions of `vl_verify`.** -/
theorem exec_vlVerify [Target] {blob : Option CStr} {cfg : Option VlConfig} {hal : Option HalMask}
    {out : Option VlLicense} {v : VlStatus × Option VlLicense} :
    Prog.Exec env (vlVerify cr blob cfg hal out) s t v s' ↔
      (∃ rc, checkArgs blob cfg hal = .error rc ∧ t = [] ∧ v = verdict out (.error rc) ∧ s' = s) ∨
      (∃ b c keys h r, checkArgs blob cfg hal = .ok (b, c, keys, h) ∧
        VerifyStep cr env c keys h b s t r s' ∧ v = verdict out r) := by
  unfold vlVerify
  cases hargs : checkArgs blob cfg hal with
  | error rc =>
    simp only [Prog.exec_ret, verdict, Except.error.injEq, exists_eq_left', reduceCtorEq,
      false_and, exists_false, or_false]
  | ok a =>
    obtain ⟨b, c, keys, h⟩ := a
    simp only [Prog.exec_bind, exec_verifySteps, reduceCtorEq, false_and, exists_false, false_or,
      Except.ok.injEq, Prod.mk.injEq]
    refine ⟨?_, ?_⟩
    · intro h
      obtain ⟨r, s₁, t₁, t₂, rfl, hv, hret⟩ := h
      obtain ⟨rfl, rfl, rfl⟩ := Prog.exec_ret.mp hret
      exact ⟨b, c, keys, h, r, ⟨rfl, rfl, rfl, rfl⟩, by simpa using hv, rfl⟩
    · intro h
      obtain ⟨_, _, _, _, r, ⟨rfl, rfl, rfl, rfl⟩, hv, rfl⟩ := h
      exact ⟨r, s', t, [], by simp, hv, Prog.exec_ret.mpr ⟨rfl, rfl, rfl⟩⟩

theorem exec_vlVerify_ok [Target] {blob : Option CStr} {cfg : Option VlConfig}
    {hal : Option HalMask} {out o : Option VlLicense} :
    Prog.Exec env (vlVerify cr blob cfg hal out) s t (.ok, o) s' ↔
      ∃ b c keys h lic, checkArgs blob cfg hal = .ok (b, c, keys, h) ∧
        VerifyStep cr env c keys h b s t (.ok lic) s' ∧ o = out.map fun _ => lic := by
  rw [exec_vlVerify]
  refine ⟨?_, ?_⟩
  · intro h
    rcases h with ⟨rc, hargs, -, hv, -⟩ | ⟨b, c, keys, h, r, hargs, hstep, hv⟩
    · rw [checkArgs_error hargs] at hv
      cases hv
    · cases r with
      | ok lic => exact ⟨b, c, keys, h, lic, hargs, hstep, (Prod.mk.inj hv).2⟩
      | error rc => exact absurd (Prod.mk.inj hv).1.symm hstep.rejects.1
  · intro h
    obtain ⟨b, c, keys, h, lic, hargs, hstep, rfl⟩ := h
    exact .inr ⟨b, c, keys, h, .ok lic, hargs, hstep, rfl⟩

end

end VectiLicense.L3
