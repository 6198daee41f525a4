import VectiLicense.L0Api.Header
import VectiLicense.L1Codec.Base32

/-!
# The device fingerprint: `vl_compute_fingerprint` of `core/vl_core.c`

SHA-256 and Ed25519 verification are given functions (`Crypto`), the hash as
the context with its three operations, as the code uses it. The loop over the
identity segments is a `HalProg`: it asks the HAL for segment 0, 1, 2, … until
the sentinel, an error, an over-long segment or the 64th.

* `fingerprint_only`: it invokes nothing but `read_id_segment`.
* `fingerprintOf`: what it computes on a device whose segments read the same
  every time, with `exec_fingerprint` saying so of every execution.
-/
namespace VectiLicense.L3

open VectiLicense.Core VectiLicense.L0 VectiLicense.L1.Base32

/-- `vl_sha256_ctx_t` with its operations, and `vl_ed25519_verify(sig, msg, msg_len, pk)`. -/
structure Crypto where
  Sha : Type
  vlSha256Init : Sha
  vlSha256Update : Sha → List UInt8 → Sha
  vlSha256Final : Sha → Vector UInt8 32
  vlEd25519Verify : List UInt8 → List UInt8 → Vector UInt8 32 → Bool

/-- The bytes of an ASCII literal. -/
def ascii (cs : List Char) : List UInt8 := cs.map fun c => UInt8.ofNat c.toNat

/-- `"vectilicense:fingerprint:v1"`.
mirrors core/vl_core.c:27-28 -/
def VL_FP_DOMAIN : List UInt8 :=
  ascii ['v', 'e', 'c', 't', 'i', 'l', 'i', 'c', 'e', 'n', 's', 'e', ':',
    'f', 'i', 'n', 'g', 'e', 'r', 'p', 'r', 'i', 'n', 't', ':', 'v', '1']

variable (cr : Crypto)

/-- One accepted segment: its length byte, then its bytes.
mirrors core/vl_core.c:147-151 -/
def absorbSegment (ctx : cr.Sha) (r : SegRead) : cr.Sha :=
  let ctx := cr.vlSha256Update ctx [UInt8.ofNat r.segLen]
  if r.segLen > 0 then cr.vlSha256Update ctx (r.segment.toList.take r.segLen) else ctx

/-- `for (idx = …; idx < VL_ID_SEGMENT_COUNT_MAX; idx++)`, with `n` iterations
left; the context and `accepted`, or the status of `goto done`.
mirrors core/vl_core.c:127-153 -/
def segmentLoop : (n idx : Nat) → cr.Sha → (accepted : Nat) →
    HalProg (Except VlStatus (cr.Sha × Nat))
  | 0, _, ctx, accepted => .ret (.ok (ctx, accepted))
  | n + 1, idx, ctx, accepted => .call (.readIdSegment (UInt32.ofNat idx)) fun r =>
    if r.status = .errNoMoreSegments then .ret (.ok (ctx, accepted))
    else if r.status ≠ .ok then .ret (.error r.status)
    else if r.segLen > VL_ID_SEGMENT_MAX then .ret (.error .errPlatform)
    else segmentLoop n (idx + 1) (absorbSegment cr ctx r) (accepted + 1)

/-- `none` is a NULL pointer; the result carries what `out_fingerprint` points
to afterwards.
mirrors core/vl_core.c:111-169 -/
def vlComputeFingerprint (hal : Option HalMask) (out : Option (Vector UInt8 32)) :
    HalProg (VlStatus × Option (Vector UInt8 32)) :=
  match hal, out with
  | some hal, some out =>
    if hal.readIdSegment then do
      let ctx := cr.vlSha256Update cr.vlSha256Init VL_FP_DOMAIN
      let r ← segmentLoop cr VL_ID_SEGMENT_COUNT_MAX 0 ctx 0
      match r with
      | .error rc => return (rc, some (Vector.replicate 32 0))
      | .ok (ctx, accepted) =>
        if accepted = 0 then return (.errPlatform, some (Vector.replicate 32 0))
        else return (.ok, some (cr.vlSha256Final ctx))
    else return (.errInvalidArg, some out)
  | _, out => return (.errInvalidArg, out)

/-- An invocation of `read_id_segment`. -/
def IsIdRead : HalCall → Prop
  | .readIdSegment _ => True
  | _ => False

variable {cr}

theorem segmentLoop_only (n idx : Nat) (ctx : cr.Sha) (accepted : Nat) :
    (segmentLoop cr n idx ctx accepted).Only IsIdRead := by
  induction n generalizing idx ctx accepted with
  | zero => trivial
  | succ n ih =>
    refine ⟨trivial, fun r => ?_⟩
    dsimp only
    split
    · trivial
    split
    · trivial
    split
    · trivial
    exact ih _ _ _

theorem fingerprint_only (hal : Option HalMask) (out : Option (Vector UInt8 32)) :
    (vlComputeFingerprint cr hal out).Only IsIdRead := by
  unfold vlComputeFingerprint
  split
  · split
    · refine (segmentLoop_only _ _ _ _).bind fun r => ?_
      split
      · trivial
      · split <;> trivial
    · trivial
  · trivial

theorem segmentLoop_error {σ : Type} {env : Env HalCall.Resp σ} {n idx : Nat} {ctx : cr.Sha}
    {accepted : Nat} {s s' : σ} {t : List HalEvent} {rc : VlStatus}
    (h : Prog.Exec env (segmentLoop cr n idx ctx accepted) s t (.error rc) s') :
    rc ≠ .ok ∧ rc ≠ .errNoMoreSegments := by
  induction n generalizing idx ctx accepted s t with
  | zero =>
    obtain ⟨-, h, -⟩ := Prog.exec_ret.mp h
    cases h
  | succ n ih =>
    obtain ⟨r, s₁, t', -, -, h⟩ := Prog.exec_call.mp h
    split at h
    · obtain ⟨-, h, -⟩ := Prog.exec_ret.mp h
      cases h
    split at h
    · rename_i hmore hok
      obtain ⟨-, h, -⟩ := Prog.exec_ret.mp h
      cases h
      exact ⟨hok, hmore⟩
    split at h
    · obtain ⟨-, h, -⟩ := Prog.exec_ret.mp h
      cases h
      exact ⟨by simp, by simp⟩
    exact ih h

/-- Success leaves a fingerprint in the output, failure a status that is
neither success nor the sentinel. -/
theorem exec_fingerprint_cases {σ : Type} {env : Env HalCall.Resp σ} {hal : HalMask}
    {out : Vector UInt8 32} {s s' : σ} {t : List HalEvent} {rc : VlStatus}
    {fp : Option (Vector UInt8 32)}
    (h : Prog.Exec env (vlComputeFingerprint cr (some hal) (some out)) s t (rc, fp) s') :
    (∃ v, fp = some v) ∧ rc ≠ .errNoMoreSegments := by
  unfold vlComputeFingerprint at h
  simp only at h
  split at h
  · obtain ⟨r, s₁, t₁, t₂, -, h₁, h₂⟩ := Prog.exec_bind.mp h
    split at h₂
    · obtain ⟨-, h₂, -⟩ := Prog.exec_ret.mp h₂
      cases h₂
      exact ⟨⟨_, rfl⟩, (segmentLoop_error h₁).2⟩
    · split at h₂ <;>
      · obtain ⟨-, h₂, -⟩ := Prog.exec_ret.mp h₂
        cases h₂
        exact ⟨⟨_, rfl⟩, by simp⟩
  · obtain ⟨-, h, -⟩ := Prog.exec_ret.mp h
    cases h
    exact ⟨⟨_, rfl⟩, by simp⟩

/-! ## What a failure leaves in the output -/

/-- A HAL that has `read_id_segment`. -/
def ReadsSegments (hal : Option HalMask) : Prop := ∃ m, hal = some m ∧ m.readIdSegment = true

section
variable {σ : Type} {env : Env HalCall.Resp σ} {hal : Option HalMask} {out : Vector UInt8 32}
  {s s' : σ} {t : List HalEvent} {rc : VlStatus} {fp : Option (Vector UInt8 32)}

/-- Past the argument check, every failure goes through the wipe. -/
theorem exec_fingerprint_wiped {m : HalMask} (hm : m.readIdSegment = true)
    (h : Prog.Exec env (vlComputeFingerprint cr (some m) (some out)) s t (rc, fp) s')
    (hrc : rc ≠ .ok) : fp = some (Vector.replicate 32 0) := by
  unfold vlComputeFingerprint at h
  simp only [hm, if_true] at h
  obtain ⟨r, s₁, t₁, t₂, -, -, h₂⟩ := Prog.exec_bind.mp h
  split at h₂
  · obtain ⟨-, h₂, -⟩ := Prog.exec_ret.mp h₂
    exact (Prod.mk.inj h₂).2
  · split at h₂
    · obtain ⟨-, h₂, -⟩ := Prog.exec_ret.mp h₂
      exact (Prod.mk.inj h₂).2
    · obtain ⟨-, h₂, -⟩ := Prog.exec_ret.mp h₂
      exact absurd (Prod.mk.inj h₂).1 hrc

/-- The argument check returns without touching the output. -/
theorem exec_fingerprint_refused (hno : ¬ ReadsSegments hal)
    (h : Prog.Exec env (vlComputeFingerprint cr hal (some out)) s t (rc, fp) s') :
    rc = .errInvalidArg ∧ fp = some out := by
  unfold vlComputeFingerprint at h
  split at h
  · rename_i m out' hout
    obtain rfl := Option.some.inj hout
    have hread : ¬ m.readIdSegment = true := fun hread => hno ⟨m, rfl, hread⟩
    rw [if_neg hread] at h
    obtain ⟨-, h, -⟩ := Prog.exec_ret.mp h
    exact Prod.mk.inj h
  · obtain ⟨-, h, -⟩ := Prog.exec_ret.mp h
    exact Prod.mk.inj h

/-- **When a failed fingerprint leaves nothing behind**: past the argument
check always, and before it only where the output was blank already. -/
theorem failure_wipes_iff
    (h : Prog.Exec env (vlComputeFingerprint cr hal (some out)) s t (rc, fp) s') :
    (rc ≠ .ok → fp = some (Vector.replicate 32 0)) ↔
      ReadsSegments hal ∨ out = Vector.replicate 32 0 := by
  by_cases hread : ReadsSegments hal
  · refine iff_of_true (fun hrc => ?_) (.inl hread)
    obtain ⟨m, rfl, hm⟩ := hread
    exact exec_fingerprint_wiped hm h hrc
  · obtain ⟨rfl, rfl⟩ := exec_fingerprint_refused hread h
    refine ⟨fun hwipe => .inr (Option.some.inj (hwipe fun hno => nomatch hno)), fun hor _ => ?_⟩
    rw [hor.resolve_left hread]

end

/-- A hash and a signature check of nothing. -/
def blankCrypto : Crypto :=
  ⟨Unit, (), fun _ _ => (), fun _ => Vector.replicate 32 0, fun _ _ _ => false⟩

/-- A HAL whose `read_id_segment` fails. -/
def failingHal : VlHal Unit :=
  ⟨some fun _ s => (⟨.errPlatform, Vector.replicate 255 0, 0⟩, s), none, none, none, none, none,
    none⟩

/-- A fingerprint left by an earlier call. -/
def staleFingerprint : Vector UInt8 32 := Vector.replicate 32 0xA5

/-- A HAL whose first read fails wipes the earlier fingerprint; no HAL at all
leaves it. -/
theorem failure_wipes_iff_failing : ∃ t u,
    Prog.Exec failingHal.handler.env
      (vlComputeFingerprint blankCrypto (some failingHal.mask) (some staleFingerprint)) () t
      (.errPlatform, some (Vector.replicate 32 0)) () ∧
    ReadsSegments (some failingHal.mask) ∧
    Prog.Exec failingHal.handler.env (vlComputeFingerprint blankCrypto none (some staleFingerprint))
      () u (.errInvalidArg, some staleFingerprint) () ∧
    ¬ (ReadsSegments none ∨ staleFingerprint = Vector.replicate 32 0) := by
  have hwiped := Prog.exec_run failingHal.handler
    (vlComputeFingerprint blankCrypto (some failingHal.mask) (some staleFingerprint)) ()
  have hleft := Prog.exec_run failingHal.handler
    (vlComputeFingerprint blankCrypto none (some staleFingerprint)) ()
  have hreads := (failure_wipes_iff hwiped).mp fun _ => rfl
  refine ⟨_, _, hwiped, hreads.resolve_right (by decide), hleft, fun hor => ?_⟩
  have hsome := (failure_wipes_iff hleft).mpr hor (by decide)
  exact absurd (Option.some.inj hsome) (by decide)

/-- No HAL at all: the call fails and the earlier fingerprint is still there. -/
theorem failure_leaves_fingerprint :
    ((vlComputeFingerprint blankCrypto none (some staleFingerprint)).run failingHal.handler
        ()).val = (.errInvalidArg, some staleFingerprint) ∧
      staleFingerprint ≠ Vector.replicate 32 0 :=
  ⟨rfl, by decide⟩

/-! ## Devices whose segments read the same every time -/

/-- Answers by a fixed segment table; only `read_id_segment` matters. -/
def idAnswers (ids : UInt32 → SegRead) : (e : HalCall) → e.Resp
  | .readIdSegment idx => ids idx
  | .nowEpoch => (.errPlatform, 0)
  | .hwmLoad => (.errPlatform, 0)
  | .hwmStore _ => .errPlatform
  | .blobLoad _ => (.errPlatform, [])
  | .blobStore _ => .errPlatform
  | .securePosture => (.errPlatform, ⟨.unknown, .unknown⟩)

/-- The status and fingerprint of a device with the segments `ids`. -/
def fingerprintOf (cr : Crypto) (ids : UInt32 → SegRead) (hal : HalMask) :
    VlStatus × Option (Vector UInt8 32) :=
  (vlComputeFingerprint cr (some hal) (some (Vector.replicate 32 0))).answer (idAnswers ids)

/-- The environment answers `read_id_segment` from a fixed table. -/
def FixedIdentity {σ : Type} (env : Env HalCall.Resp σ) (ids : UInt32 → SegRead) : Prop :=
  ∀ idx s r s', env (.readIdSegment idx) s r s' → r = ids idx ∧ s' = s

theorem exec_fingerprint {σ : Type} {env : Env HalCall.Resp σ} {ids : UInt32 → SegRead}
    (hids : FixedIdentity env ids) {hal : HalMask} {s s' : σ} {t : List HalEvent}
    {v : VlStatus × Option (Vector UInt8 32)}
    (h : Prog.Exec env (vlComputeFingerprint cr (some hal) (some (Vector.replicate 32 0))) s t v
      s') : v = fingerprintOf cr ids hal ∧ s' = s := by
  refine (fingerprint_only _ _).exec_answer ?_ h
  intro e s r s' he hr
  cases e with
  | readIdSegment idx => exact hids idx s r s' hr
  | _ => exact he.elim

/-! ## The device id string -/

/-- mirrors include/vectilicense/vectilicense.h:92-93 -/
def VL_DEVICE_ID_STR_LEN : Nat := 26
def VL_DEVICE_ID_STR_BUF_LEN : Nat := VL_DEVICE_ID_STR_LEN + 1

/-- The status and the stores through `out`.
mirrors core/vl_core.c:171-187 -/
def vlEncodeDeviceId [Target] (fingerprint : Option (Vector UInt8 32)) (out : OutPtr)
    (outCapacity : Nat) : VlStatus × Writes :=
  match fingerprint, out with
  | none, _ => (.errInvalidArg, [])
  | _, .null => (.errInvalidArg, [])
  | some fp, .buf =>
    if outCapacity < VL_DEVICE_ID_STR_BUF_LEN then (.errBufferTooSmall, [])
    else
      let n := vlBase32Encode (some (fp.toList.take VL_DEVICE_ID_LEN)) .buf outCapacity
      if n.ret ≠ some VL_DEVICE_ID_STR_LEN then (.errInternal, n.writes) else (.ok, n.writes)

end VectiLicense.L3
