import VectiLicense.L1Codec.Base32Round
import VectiLicense.L3Verify.Verify

/-!
# The facade: `vecti::License` of `bridge/vl_bridge.h`

The object's fields are a `License`; a method is a program that takes the
fields and returns them changed. What it calls on the way (`vl_verify`, the
fingerprint, the two blob callbacks) are `BridgeCall`s, so that a trace shows
every verdict the object was given; `BridgeCall.body` says what each of them
does to the HAL.

`_blob` and `_pending` are `CharArray`s: whatever the methods do, a string
ends inside them. `activate` may be handed the object's own `_blob`
(`BlobArg.own`), which `_apply` then rewrites while it reads it.

* `canonicalise_spec`: the rewriting leaves the canonical spelling in `_blob`,
  for an argument elsewhere and for `_blob` itself.
-/
namespace VectiLicense.L6

open VectiLicense.Core VectiLicense.L0 VectiLicense.L1.Base32 VectiLicense.L3

/-! ## What a `License` calls -/

inductive BridgeCall where
  | verify (blob : Option CStr)
  | computeFingerprint
  | blobLoad (cap : Nat)
  | blobStore (blob : List UInt8)
  deriving DecidableEq

/-- The return value, and what the out parameters hold afterwards. -/
@[reducible] def BridgeCall.Resp : BridgeCall → Type
  | .verify _ => VlStatus × VlLicense
  | .computeFingerprint => VlStatus × Vector UInt8 32
  | .blobLoad _ => VlStatus × List UInt8
  | .blobStore _ => VlStatus

abbrev BridgeProg := Prog BridgeCall BridgeCall.Resp
abbrev BridgeEvent := Event BridgeCall.Resp

/-- Each call, as a program over the HAL. -/
def BridgeCall.body [Target] (cr : Crypto) (cfg : Option VlConfig) (hal : Option HalMask) :
    (e : BridgeCall) → HalProg e.Resp
  | .verify blob => do
    let (st, lic) ← vlVerify cr blob cfg hal (some VlLicense.zero)
    return (st, lic.getD VlLicense.zero)
  | .computeFingerprint => do
    let (st, fp) ← vlComputeFingerprint cr hal (some (Vector.replicate 32 0))
    return (st, fp.getD (Vector.replicate 32 0))
  | .blobLoad cap => Prog.ask (HalCall.blobLoad cap)
  | .blobStore blob => Prog.ask (HalCall.blobStore blob)

/-! ## The object -/

/-- mirrors bridge/vl_bridge.h:60-62 -/
def VL_BRIDGE_BLOB_MAX : Nat := 224

/-- mirrors include/vectilicense/vectilicense.h:87-88 -/
def VL_BLOB_STR_LEN : Nat := 160
def VL_BLOB_STR_BUF_LEN : Nat := VL_BLOB_STR_LEN + 1

/-- The fields that change; `_cfg` and `_hal` are fixed at construction, and the
`onResult` callback belongs to the sketch.
mirrors bridge/vl_bridge.h:241-256 -/
structure License where
  status : VlStatus
  idStatus : VlStatus
  lic : VlLicense
  devid : Buf 27
  blob : CharArray 161
  pending : CharArray 224
  pendingFlag : Bool
  deriving DecidableEq

/-- A buffer of NULs. -/
def zeroPending : CharArray 224 := CharArray.terminate (Vector.replicate 224 0) 0 (by decide)

namespace License

/-- The constructor; `devid` and `blob` are what the two arrays happen to hold.
mirrors bridge/vl_bridge.h:70-77 -/
def new (devid : Buf 27) (blob : Buf 161) : License where
  status := .errNotFound
  idStatus := .ok
  lic := VlLicense.zero
  devid := devid.set 0 0
  blob := CharArray.terminate blob 0 (by decide)
  pending := zeroPending
  pendingFlag := false

/-! ### The verdict (vl_bridge.h:99-119) -/

def ok (l : License) : Bool := l.status = .ok

/-- `none` is NULL. -/
def license (l : License) : Option VlLicense := if l.ok then some l.lic else none

/-- mirrors core/vl_core.c:83-89 -/
def vlHasFeature (lic : Option VlLicense) (bit : UInt32) : UInt32 :=
  match lic with
  | none => 0
  | some lic => if bit > 31 then 0 else (lic.features >>> bit) &&& 1

def feature (l : License) (bit : UInt32) : Bool := l.ok && vlHasFeature (some l.lic) bit ≠ 0

def checked (l : License) : UInt32 := if l.ok then l.lic.checked else 0

/-- `blob()` -/
def blobStr (l : License) : CStr := l.blob.str

end License

/-! ## `_apply` -/

/-- The argument of `activate`: NULL, a string elsewhere, or `blob()`. -/
inductive BlobArg where
  | null
  | text (s : CStr)
  | own
  deriving DecidableEq

namespace BlobArg

/-- The string, when `_blob` holds `blob`. -/
def str (blob : CharArray 161) : BlobArg → Option CStr
  | .null => none
  | .text s => some s
  | .own => some blob.str

/-- `blob[i]`, when `_blob` holds `mem`. -/
def read (mem : Buf 161) : BlobArg → Nat → UInt8
  | .null, _ => 0
  | .text s, i => s.bytes.getD i 0
  | .own, i => mem.toList.getD i 0

end BlobArg

/-- `for (p = blob; *p && n < VL_BLOB_STR_LEN; ++p)`, from `p = blob + i`; `fuel`
is what is left of the string.
mirrors bridge/vl_bridge.h:223-230 -/
def canonLoop (src : BlobArg) : (fuel i : Nat) → Fin 161 → Buf 161 → Fin 161 × Buf 161
  | 0, _, n, mem => (n, mem)
  | fuel + 1, i, n, mem =>
    let c := src.read mem i
    if h : c ≠ 0 ∧ n.val < VL_BLOB_STR_LEN then
      if IsGrouping c then canonLoop src fuel (i + 1) n mem
      else canonLoop src fuel (i + 1) ⟨n.val + 1, Nat.succ_lt_succ h.2⟩ (mem.set n (foldChar c))
    else (n, mem)

/-- `n` and `_blob` after the loop and `_blob[n] = '\0'`.
mirrors bridge/vl_bridge.h:222-231 -/
def canonicalise (src : BlobArg) (blob : CharArray 161) : Nat × CharArray 161 :=
  let len := ((src.str blob).map fun s => s.bytes.length).getD 0
  let (n, mem) := canonLoop src len 0 0 blob.mem
  (n, CharArray.terminate mem n n.isLt)

namespace License

/-- `_apply` when `vl_verify` refused.
mirrors bridge/vl_bridge.h:203-209 -/
def refused (l : License) (st : VlStatus) : License :=
  { l with
    status := st, lic := VlLicense.zero, blob := CharArray.terminate l.blob.mem 0 (by decide) }

/-- `_apply` when `vl_verify` accepted.
mirrors bridge/vl_bridge.h:210-231 -/
def inForce (l : License) (blob : BlobArg) (lic : VlLicense) : License :=
  { l with lic, status := .ok, blob := (canonicalise blob l.blob).2 }

/-- `_hal && _hal->blob_store` -/
def hasStore (hal : Option HalMask) : Bool := (hal.map HalMask.blobStore).getD false

/-- `_hal && _hal->blob_load` -/
def hasLoad (hal : Option HalMask) : Bool := (hal.map HalMask.blobLoad).getD false

/-- mirrors bridge/vl_bridge.h:199-239 -/
def apply (hal : Option HalMask) (blob : BlobArg) (persist : Bool) (l : License) :
    BridgeProg (VlStatus × License) := do
  let (st, lic) ← Prog.ask (BridgeCall.verify (blob.str l.blob))
  if st ≠ .ok then return (st, l.refused st)
  else
    let n := (canonicalise blob l.blob).1
    let l := l.inForce blob lic
    if persist ∧ hasStore hal then do
      let stored ← Prog.ask (BridgeCall.blobStore (l.blob.mem.toList.take n))
      if stored ≠ .ok then return (.errPlatform, l) else return (.ok, l)
    else return (.ok, l)

/-! ## The methods -/

/-- mirrors bridge/vl_bridge.h:85-96 -/
def deviceId [Target] (l : License) : BridgeProg (CStr × License) :=
  if l.devid[0] = 0 then do
    let (st, fp) ← Prog.ask BridgeCall.computeFingerprint
    let (st, ws) := if st = .ok then vlEncodeDeviceId (some fp) .buf 27 else (st, [])
    let devid := ws.foldl (fun p w => p.setIfInBounds w.1 w.2) l.devid
    let devid := if st ≠ .ok then devid.set 0 0 else devid
    return (CStr.ofMem devid.toList, { l with idStatus := st, devid })
  else return (CStr.ofMem l.devid.toList, l)

/-- mirrors bridge/vl_bridge.h:126-135 -/
def begin (hal : Option HalMask) (l : License) : BridgeProg (VlStatus × License) :=
  if hasLoad hal = false then return (.errNotFound, { l with status := .errNotFound })
  else do
    let (st, bytes) ← Prog.ask (BridgeCall.blobLoad VL_BLOB_STR_BUF_LEN)
    if st ≠ .ok then return (st, { l with status := st })
    else if bytes.length ≥ VL_BLOB_STR_BUF_LEN then
      return (.errPlatform, { l with status := .errPlatform })
    else apply hal (.text (CStr.ofMem (bytes ++ [0]))) false l

/-- mirrors bridge/vl_bridge.h:144 -/
def activate (hal : Option HalMask) (blob : BlobArg) (l : License) :
    BridgeProg (VlStatus × License) :=
  apply hal blob true l

/-- `blob` is NULL or the `len` bytes it points to.
mirrors bridge/vl_bridge.h:148-155 -/
def submit (blob : Option (List UInt8)) (l : License) : Bool × License :=
  match blob with
  | none => (false, l)
  | some data =>
    if h : data.length = 0 ∨ data.length ≥ VL_BRIDGE_BLOB_MAX then (false, l)
    else if l.pendingFlag then (false, l)
    else
      have hfit : data.length < 224 := Nat.lt_of_not_le fun hle => h (.inr hle)
      let mem := l.pending.mem.copyFront data (Nat.le_of_lt hfit)
      (true, { l with pending := CharArray.terminate mem data.length hfit, pendingFlag := true })

/-- `none` is `false`; with `true`, what `onResult` is told.
mirrors bridge/vl_bridge.h:161-168 -/
def pump (hal : Option HalMask) (l : License) : BridgeProg (Option VlStatus × License) :=
  if l.pendingFlag = false then return (none, l)
  else do
    let (st, l) ← activate hal (.text l.pending.str) l
    return (some st, { l with pending := zeroPending, pendingFlag := false })

/-- mirrors bridge/vl_bridge.h:180-186 -/
def clear (hal : Option HalMask) (l : License) : BridgeProg (VlStatus × License) :=
  let l := l.refused .errNotFound
  if hasStore hal then do
    let st ← Prog.ask (BridgeCall.blobStore [])
    return (st, l)
  else return (.ok, l)

end License

/-- A method called by the object's owner. -/
inductive Op where
  | begin
  | activate (blob : BlobArg)
  | submit (blob : Option (List UInt8))
  | pump
  | clear
  | deviceId
  deriving DecidableEq

/-- The status a method reports, if it reports one, and the object after it. -/
def Op.run [Target] (hal : Option HalMask) (l : License) :
    Op → BridgeProg (Option VlStatus × License)
  | .begin => do
    let (st, l) ← l.begin hal
    return (some st, l)
  | .activate blob => do
    let (st, l) ← l.activate hal blob
    return (some st, l)
  | .submit blob => return (none, (l.submit blob).2)
  | .pump => l.pump hal
  | .clear => do
    let (st, l) ← l.clear hal
    return (some st, l)
  | .deviceId => do
    let (_, l) ← l.deviceId
    return (none, l)

/-! ## The canonical spelling -/

/-- What the source reads, at and behind index `i`, as long as `_blob` holds `mem`. -/
def ReadsFrom (src : BlobArg) (mem : Buf 161) (bytes : List UInt8) (i : Nat) : Prop :=
  ∀ j, i ≤ j → j < bytes.length → src.read mem j = bytes.getD j 0

/-- The loop, with `done` behind it and `rest` in front. A store never reaches
what is still to be read, so the source may be `_blob` itself. -/
theorem canonLoop_spec (src : BlobArg) (rest : List UInt8) :
    ∀ (done : List UInt8) (n : Fin 161) (mem : Buf 161), 0 ∉ rest →
      ReadsFrom src mem (done ++ rest) done.length → n.val = (norm done).length →
      mem.toList.take n = norm done →
      (canonLoop src rest.length done.length n mem).1.val = min 160 (norm (done ++ rest)).length ∧
      (canonLoop src rest.length done.length n mem).2.toList.take
          (canonLoop src rest.length done.length n mem).1 = (norm (done ++ rest)).take 160 := by
  induction rest with
  | nil =>
    intro done n mem _ _ hn htake
    have hle : (norm done).length ≤ 160 := by omega
    simp only [List.length_nil, canonLoop, List.append_nil]
    exact ⟨by omega, by rw [htake, List.take_of_length_le hle]⟩
  | cons c rest ih =>
    intro done n mem hnonul hread hn htake
    have hc : src.read mem done.length = c := by
      rw [hread _ (Nat.le_refl _) (by simp)]
      simp
    have hc0 : c ≠ 0 := fun h0 => hnonul (by simp [h0])
    have hsplit : done ++ c :: rest = (done ++ [c]) ++ rest := by simp
    have hlen : (done ++ [c]).length = done.length + 1 := by simp
    rw [List.length_cons, canonLoop]
    simp only [hc]
    split
    · rename_i hgo
      have hgo' : n.val < 160 := hgo.2
      by_cases hg : IsGrouping c
      · simp only [if_pos hg]
        have hsame : norm (done ++ [c]) = norm done := by
          rw [norm_append, L1.Base32.norm, L1.Base32.norm, sigChars_grouping hg]
          simp
        rw [hsplit] at hread ⊢
        have h := ih (done ++ [c]) n mem (fun h0 => hnonul (by simp [h0]))
          (fun j hj => hread j (by omega)) (by rw [hsame]; exact hn) (by rw [hsame]; exact htake)
        rwa [hlen] at h
      · simp only [if_neg hg]
        have hsame : norm (done ++ [c]) = norm done ++ [foldChar c] := by
          rw [norm_append, L1.Base32.norm, L1.Base32.norm, sigChars_symbol hg]
          simp
        have hbehind : n.val ≤ done.length := by
          rw [hn]
          exact length_norm_le done
        rw [hsplit] at hread ⊢
        have h := ih (done ++ [c]) ⟨n.val + 1, Nat.succ_lt_succ hgo'⟩ (mem.set n (foldChar c))
          (fun h0 => hnonul (by simp [h0])) (fun j hj hlt => ?_)
          (by rw [hsame]; simp [hn])
          (by rw [hsame, ← htake]; exact Buf.take_set_succ n.isLt _)
        · rwa [hlen] at h
        · rw [← hread j (by omega) hlt]
          cases src with
          | null => rfl
          | text s => rfl
          | own =>
            have hne : n.val ≠ j := by omega
            simp only [BlobArg.read, Vector.toList_set, List.getD_eq_getElem?_getD,
              List.getElem?_set_ne hne]
    · rename_i hstop
      have hfull : n.val = 160 := by
        have hnot : ¬ n.val < 160 := fun hlt => hstop ⟨hc0, hlt⟩
        omega
      rw [norm_append, List.length_append, List.take_append_of_le_length (by omega), htake,
        List.take_of_length_le (by omega)]
      have hmin : n.val = min 160 ((norm done).length + (norm (c :: rest)).length) := by omega
      exact ⟨hmin, rfl⟩

/-- **The canonical spelling.** `_blob` ends up with the argument's symbols,
folded, and at most 160 of them; `n` is their number. -/
theorem canonicalise_spec {src : BlobArg} {blob : CharArray 161} {s : CStr}
    (h : src.str blob = some s) :
    (canonicalise src blob).2.str.bytes = (norm s.bytes).take 160 ∧
    (canonicalise src blob).2.mem.toList.take (canonicalise src blob).1 =
      (norm s.bytes).take 160 := by
  have hread : ReadsFrom src blob.mem s.bytes 0 := by
    intro j _ hj
    cases src with
    | null => cases h
    | text s' =>
      rw [← Option.some.inj h]
      rfl
    | own =>
      rw [← Option.some.inj h] at hj ⊢
      obtain ⟨rest, hmem⟩ := List.takeWhile_prefix (· ≠ (0 : UInt8)) (l := blob.mem.toList)
      simp only [BlobArg.read]
      rw [← hmem]
      exact List.getD_append _ _ _ _ hj
  obtain ⟨-, htake⟩ := canonLoop_spec src s.bytes [] 0 blob.mem s.nonul hread rfl rfl
  rw [List.nil_append, List.length_nil] at htake
  have hnonul : 0 ∉ (norm s.bytes).take 160 := fun h0 =>
    norm_nonul s.nonul (List.mem_of_mem_take h0)
  simp only [canonicalise, h, Option.map_some, Option.getD_some]
  rw [CharArray.str_terminate _ (by rw [htake]; exact hnonul), htake]
  refine ⟨rfl, ?_⟩
  rw [← htake]
  simp only [CharArray.terminate, Vector.toList_set]
  rw [List.take_set_of_le (Nat.le_refl _)]

theorem submit_frame (l : License) (blob : Option (List UInt8)) :
    (l.submit blob).2.status = l.status ∧ (l.submit blob).2.lic = l.lic ∧
      (l.submit blob).2.blob = l.blob := by
  unfold License.submit
  split
  · exact ⟨rfl, rfl, rfl⟩
  split
  · exact ⟨rfl, rfl, rfl⟩
  split
  · exact ⟨rfl, rfl, rfl⟩
  · exact ⟨rfl, rfl, rfl⟩

theorem submit_empty {l : License} {s : CStr} (hempty : l.pendingFlag = false)
    (h1 : 1 ≤ s.bytes.length) (hfit : s.bytes.length < VL_BRIDGE_BLOB_MAX) :
    (l.submit (some s.bytes)).1 = true ∧ (l.submit (some s.bytes)).2.pendingFlag = true ∧
      (l.submit (some s.bytes)).2.pending.str = s := by
  have htake : (l.pending.mem.copyFront s.bytes (Nat.le_of_lt hfit)).toList.take s.bytes.length =
      s.bytes := by rw [Buf.copyFront_toList, List.take_left' rfl]
  have hnonul := s.nonul
  rw [← htake] at hnonul
  have hbytes := (CharArray.str_terminate hfit hnonul).trans htake
  unfold License.submit
  dsimp only
  rw [dif_neg (show ¬ (s.bytes.length = 0 ∨ s.bytes.length ≥ VL_BRIDGE_BLOB_MAX) by omega),
    if_neg (by simp [hempty])]
  exact ⟨rfl, rfl, CStr.ext_bytes hbytes⟩

end VectiLicense.L6
