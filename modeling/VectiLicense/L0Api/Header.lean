import VectiLicense.Core.Prog

/-!
# The public header: `include/vectilicense/vectilicense.h`

The types every layer shares, under the header's own names: status codes,
sizes, the HAL's callbacks as calls with typed answers, the firmware's
configuration and a verified licence.

A HAL is a struct of function pointers over its own context. `HalMask` says
which pointers are non-NULL; `HalCall` is one invocation of a callback and
`HalCall.Resp` all that the caller can see of it afterwards, out parameters
included. Code that uses the HAL is a `HalProg`, so that the callbacks it
invokes, their order and their answers are its trace.
-/
namespace VectiLicense.L0

open VectiLicense.Core

/-- mirrors include/vectilicense/vectilicense.h:49-70 -/
inductive VlStatus where
  | ok
  | errInvalidArg
  | errBufferTooSmall
  | errBadFormat
  | errBadMagic
  | errBadVersion
  | errBadFamily
  | errUnknownKey
  | errBadSignature
  | errDeviceMismatch
  | errNotYetValid
  | errExpired
  | errRevoked
  | errClockRollback
  | errNoClock
  | errPlatform
  | errNoMoreSegments
  | errNotFound
  | errInternal
  deriving DecidableEq, Repr

/-! ## Sizes (vectilicense.h:81-100) -/

def VL_MAGIC : UInt8 := 0x56
def VL_FORMAT_VERSION : UInt8 := 0x01
def VL_PAYLOAD_LEN : Nat := 36
def VL_SIG_LEN : Nat := 64
def VL_BLOB_BIN_LEN : Nat := VL_PAYLOAD_LEN + VL_SIG_LEN
def VL_DEVICE_ID_LEN : Nat := 16
def VL_ID_SEGMENT_MAX : Nat := 255
def VL_ID_SEGMENT_COUNT_MAX : Nat := 64

/-! ## The HAL -/

/-- mirrors include/vectilicense/vectilicense.h:105-109 -/
inductive VlPostureState where
  | unknown | off | on
  deriving DecidableEq, Repr

/-- mirrors include/vectilicense/vectilicense.h:111-114 -/
structure VlPosture where
  secureBoot : VlPostureState
  flashEncryption : VlPostureState
  deriving DecidableEq, Repr

/-- What `read_id_segment` leaves behind: its return value, the caller's
segment buffer, `*out_len`. -/
structure SegRead where
  status : VlStatus
  segment : Vector UInt8 255
  segLen : Nat
  deriving DecidableEq, Repr

/-- One callback invocation.
mirrors include/vectilicense/vectilicense.h:124-148 -/
inductive HalCall where
  | readIdSegment (idx : UInt32)
  | nowEpoch
  | hwmLoad
  | hwmStore (value : UInt32)
  | blobLoad (cap : Nat)
  | blobStore (blob : List UInt8)
  | securePosture
  deriving DecidableEq, Repr

/-- The return value and out parameters of a callback. -/
@[reducible] def HalCall.Resp : HalCall → Type
  | .readIdSegment _ => SegRead
  | .nowEpoch => VlStatus × UInt32
  | .hwmLoad => VlStatus × UInt32
  | .hwmStore _ => VlStatus
  | .blobLoad _ => VlStatus × List UInt8
  | .blobStore _ => VlStatus
  | .securePosture => VlStatus × VlPosture

/-- Code that calls the HAL. -/
abbrev HalProg := Prog HalCall HalCall.Resp

/-- A callback invocation and its answer. -/
abbrev HalEvent := Event HalCall.Resp

/-- `hal->now_epoch(hal->ctx, &now)` -/
abbrev halNowEpoch : HalProg (VlStatus × UInt32) := Prog.ask HalCall.nowEpoch

/-- `hal->hwm_load(hal->ctx, &mark)` -/
abbrev halHwmLoad : HalProg (VlStatus × UInt32) := Prog.ask HalCall.hwmLoad

/-- `hal->hwm_store(hal->ctx, value)` -/
abbrev halHwmStore (value : UInt32) : HalProg VlStatus := Prog.ask (HalCall.hwmStore value)

/-- Which members of a `vl_hal_t` are non-NULL, as far as the core tests them. -/
structure HalMask where
  readIdSegment : Bool
  nowEpoch : Bool
  hwmLoad : Bool
  hwmStore : Bool
  blobLoad : Bool
  blobStore : Bool
  securePosture : Bool
  deriving DecidableEq, Repr

/-- A `vl_hal_t` whose callbacks are functions of a context of type `σ`.
mirrors include/vectilicense/vectilicense.h:124-148 -/
structure VlHal (σ : Type) where
  readIdSegment : Option (UInt32 → σ → SegRead × σ)
  nowEpoch : Option (σ → (VlStatus × UInt32) × σ)
  hwmLoad : Option (σ → (VlStatus × UInt32) × σ)
  hwmStore : Option (UInt32 → σ → VlStatus × σ)
  blobLoad : Option (Nat → σ → (VlStatus × List UInt8) × σ)
  blobStore : Option (List UInt8 → σ → VlStatus × σ)
  securePosture : Option (σ → (VlStatus × VlPosture) × σ)

namespace VlHal

variable {σ : Type}

def mask (hal : VlHal σ) : HalMask where
  readIdSegment := hal.readIdSegment.isSome
  nowEpoch := hal.nowEpoch.isSome
  hwmLoad := hal.hwmLoad.isSome
  hwmStore := hal.hwmStore.isSome
  blobLoad := hal.blobLoad.isSome
  blobStore := hal.blobStore.isSome
  securePosture := hal.securePosture.isSome

/-- The callbacks as a handler. No modelled code invokes a NULL callback
(`L3.vlVerify_provided`), so what a NULL one would answer is immaterial. -/
def handler (hal : VlHal σ) : Handler HalCall.Resp σ
  | .readIdSegment idx, s =>
    match hal.readIdSegment with
    | some f => f idx s
    | none => (⟨.errPlatform, Vector.replicate 255 0, 0⟩, s)
  | .nowEpoch, s =>
    match hal.nowEpoch with
    | some f => f s
    | none => ((.errPlatform, 0), s)
  | .hwmLoad, s =>
    match hal.hwmLoad with
    | some f => f s
    | none => ((.errPlatform, 0), s)
  | .hwmStore v, s =>
    match hal.hwmStore with
    | some f => f v s
    | none => (.errPlatform, s)
  | .blobLoad cap, s =>
    match hal.blobLoad with
    | some f => f cap s
    | none => ((.errPlatform, []), s)
  | .blobStore b, s =>
    match hal.blobStore with
    | some f => f b s
    | none => (.errPlatform, s)
  | .securePosture, s =>
    match hal.securePosture with
    | some f => f s
    | none => ((.errPlatform, ⟨.unknown, .unknown⟩), s)

end VlHal

/-- The callbacks a mask provides. -/
def HalMask.provides (m : HalMask) : HalCall → Bool
  | .readIdSegment _ => m.readIdSegment
  | .nowEpoch => m.nowEpoch
  | .hwmLoad => m.hwmLoad
  | .hwmStore _ => m.hwmStore
  | .blobLoad _ => m.blobLoad
  | .blobStore _ => m.blobStore
  | .securePosture => m.securePosture

/-! ## Configuration and licence -/

/-- mirrors include/vectilicense/vectilicense.h:155-158 -/
structure VlPubkey where
  keyId : UInt8
  key : Vector UInt8 32
  deriving DecidableEq, Repr

def VL_FLAG_REQUIRE_CLOCK : UInt32 := 0x00000001
def VL_FLAG_ENFORCE_HWM : UInt32 := 0x00000002

/-- `keys`/`key_count` and `revoked_serials`/`revoked_count` are an optional
list each, NULL being `none`.
mirrors include/vectilicense/vectilicense.h:168-179 -/
structure VlConfig where
  keys : Option (List VlPubkey)
  family : UInt8
  revokedSerials : Option (List UInt32)
  flags : UInt32
  deriving DecidableEq, Repr

/-- `(cfg->flags & VL_FLAG_ENFORCE_HWM) != 0u` -/
def VlConfig.enforceHwm (cfg : VlConfig) : Prop := cfg.flags &&& VL_FLAG_ENFORCE_HWM ≠ 0

/-- `(cfg->flags & VL_FLAG_REQUIRE_CLOCK) != 0u` -/
def VlConfig.requireClock (cfg : VlConfig) : Prop := cfg.flags &&& VL_FLAG_REQUIRE_CLOCK ≠ 0

instance (cfg : VlConfig) : Decidable cfg.enforceHwm :=
  inferInstanceAs (Decidable (_ ≠ _))
instance (cfg : VlConfig) : Decidable cfg.requireClock :=
  inferInstanceAs (Decidable (_ ≠ _))

def VL_CHECKED_SIGNATURE : UInt32 := 0x00000001
def VL_CHECKED_DEVICE : UInt32 := 0x00000002
def VL_CHECKED_TIME : UInt32 := 0x00000004
def VL_CHECKED_REVOCATION : UInt32 := 0x00000008
def VL_CHECKED_HWM : UInt32 := 0x00000010

/-- mirrors include/vectilicense/vectilicense.h:194-204 -/
structure VlLicense where
  version : UInt8
  keyId : UInt8
  family : UInt8
  features : UInt32
  deviceId : Vector UInt8 16
  notBefore : UInt32
  notAfter : UInt32
  serial : UInt32
  checked : UInt32
  deriving DecidableEq, Repr

/-- `memset(out, 0, sizeof *out)` -/
def VlLicense.zero : VlLicense := ⟨0, 0, 0, 0, Vector.replicate 16 0, 0, 0, 0, 0⟩

/-- `lic.checked |= bit` -/
def VlLicense.withChecked (lic : VlLicense) (bit : UInt32) : VlLicense :=
  { lic with checked := lic.checked ||| bit }

@[simp] theorem VlLicense.withChecked_deviceId (lic : VlLicense) (bit : UInt32) :
    (lic.withChecked bit).deviceId = lic.deviceId := rfl
@[simp] theorem VlLicense.withChecked_serial (lic : VlLicense) (bit : UInt32) :
    (lic.withChecked bit).serial = lic.serial := rfl

theorem VlLicense.withChecked_withChecked (lic : VlLicense) (a b : UInt32) :
    (lic.withChecked a).withChecked b = lic.withChecked (a ||| b) := by
  simp only [VlLicense.withChecked, UInt32.or_assoc]

end VectiLicense.L0
