import VectiLicense.L3Verify.Accept
import VectiLicense.L5Hal.BlobSlot

/-!
# The licence state on an RP2040: `hal/rp2040/vl_hal_rp2040.c`

Mark and blob share one record in the first page of a flash sector. An erase
sets every byte to 0xFF, programming can only clear bits (`flash`), and every
store rewrites the page and reads it back.

Whatever the page holds, `record_read` presents a `Valid` record: an erased or
corrupt one is presented as empty. An empty slot is a length of 0.

* `present_toPage`: a valid record reads back as it was written.
* `exec_hwmStore`, `exec_blobStore`: each store keeps the other's field.
* `rp2040_slot`: the HAL is a `BlobSlot` that answers `VL_ERR_NOT_FOUND` when
  the slot is empty.
-/
namespace VectiLicense.L5.Rp2040

open VectiLicense.Core VectiLicense.L0 VectiLicense.L1.Base32 VectiLicense.L3

/-! ## The flash -/

def FLASH_PAGE_SIZE : Nat := 256

abbrev Page := Buf FLASH_PAGE_SIZE

/-- `readMapped` is a read through `XIP_BASE`; `other` is a callback that has
nothing to do with the sector. -/
inductive FlashCall where
  | readMapped
  | flashRangeErase
  | flashRangeProgram (data : Page)
  | other (e : HalCall)

@[reducible] def FlashCall.Resp : FlashCall → Type
  | .readMapped => Page
  | .flashRangeErase => Unit
  | .flashRangeProgram _ => Unit
  | .other e => e.Resp

abbrev FlashProg := Prog FlashCall FlashCall.Resp
abbrev FlashEvent := Event FlashCall.Resp

/-- The first page of the reserved sector; nothing looks at the others. -/
def flash : Env FlashCall.Resp Page
  | .readMapped, s, r, s' => r = s ∧ s' = s
  | .flashRangeErase, _, _, s' => s' = Vector.replicate FLASH_PAGE_SIZE 0xFF
  | .flashRangeProgram data, s, _, s' => s' = Vector.zipWith (· &&& ·) s data
  | .other _, s, _, s' => s' = s

abbrev readMapped : FlashProg Page := Prog.ask FlashCall.readMapped
abbrev flashRangeErase : FlashProg Unit := Prog.ask FlashCall.flashRangeErase
abbrev flashRangeProgram (data : Page) : FlashProg Unit :=
  Prog.ask (FlashCall.flashRangeProgram data)

theorem flash_total (e : FlashCall) (s : Page) : ∃ r s', flash e s r s' := by
  cases e with
  | readMapped => exact ⟨s, s, rfl, rfl⟩
  | flashRangeErase => exact ⟨(), _, rfl⟩
  | flashRangeProgram data => exact ⟨(), _, rfl⟩
  | other e =>
    let nullHal : VlHal Unit := ⟨none, none, none, none, none, none, none⟩
    exact ⟨(nullHal.handler e ()).1, s, rfl⟩

/-! ## The record -/

/-- mirrors hal/rp2040/vl_hal_rp2040.c:29 -/
def VL_RP_MAGIC : UInt32 := 0x564C3031

/-- `pad` is what rounds `sizeof` up to a multiple of four.
mirrors hal/rp2040/vl_hal_rp2040.c:31-37 -/
structure VlRpRecord where
  magic : UInt32
  hwm : UInt32
  blobLen : UInt32
  blob : Buf 161
  pad : Buf 3
  deriving DecidableEq

/-- `sizeof(vl_rp_record_t)` -/
def RECORD_SIZE : Nat := 176

namespace VlRpRecord

/-- `memset(rec, 0, sizeof *rec)` -/
def zero : VlRpRecord := ⟨0, 0, 0, Vector.replicate 161 0, Vector.replicate 3 0⟩

/-- The record's bytes, as the little-endian core keeps them. -/
def bytes (r : VlRpRecord) : List UInt8 :=
  leBytes 4 r.magic.toNat ++ leBytes 4 r.hwm.toNat ++ leBytes 4 r.blobLen.toNat ++
    r.blob.toList ++ r.pad.toList

theorem length_bytes (r : VlRpRecord) : r.bytes.length = RECORD_SIZE := by
  simp only [bytes, List.length_append, length_leBytes, Vector.length_toList]
  rfl

/-- `memcpy(rec, src, sizeof *rec)` -/
def ofPage (page : Page) : VlRpRecord where
  magic := le32 page.toList 0
  hwm := le32 page.toList 4
  blobLen := le32 page.toList 8
  blob := Vector.ofFn fun i => page.toList.getD (12 + i) 0
  pad := Vector.ofFn fun i => page.toList.getD (173 + i) 0

/-- `memset(page, 0xFF, sizeof page); memcpy(page, rec, sizeof *rec);` -/
def toPage (r : VlRpRecord) : Page :=
  Buf.copyFront (Vector.replicate FLASH_PAGE_SIZE 0xFF) r.bytes
    (Nat.le_trans (Nat.le_of_eq r.length_bytes) (by decide))

/-- What `record_read` makes of the page. -/
def present (page : Page) : VlRpRecord :=
  let r := ofPage page
  let r := if r.magic ≠ VL_RP_MAGIC ∨ r.blobLen.toNat > VL_BLOB_STR_LEN then
    { zero with magic := VL_RP_MAGIC } else r
  { r with blob := r.blob.set VL_BLOB_STR_LEN 0 }

/-- The string in the record. -/
def content (r : VlRpRecord) : List UInt8 := r.blob.toList.take r.blobLen.toNat

end VlRpRecord

open VlRpRecord (ofPage toPage present)

/-- mirrors hal/rp2040/vl_hal_rp2040.c:39-49 -/
def recordRead : FlashProg VlRpRecord := do
  let page ← readMapped
  return present page

/-- mirrors hal/rp2040/vl_hal_rp2040.c:51-73 -/
def recordWrite (r : VlRpRecord) : FlashProg VlStatus :=
  if RECORD_SIZE > FLASH_PAGE_SIZE then return .errInternal
  else do
    let page := toPage r
    flashRangeErase
    flashRangeProgram page
    let back ← readMapped
    if back ≠ page then return .errPlatform else return .ok

/-! ## The HAL -/

/-- mirrors hal/rp2040/vl_hal_rp2040.c:104-112 -/
def hwmLoad : FlashProg (VlStatus × UInt32) := do
  let r ← recordRead
  return (.ok, r.hwm)

/-- mirrors hal/rp2040/vl_hal_rp2040.c:114-122 -/
def hwmStore (value : UInt32) : FlashProg VlStatus := do
  let r ← recordRead
  if r.hwm = value then return .ok else recordWrite { r with hwm := value }

/-- With non-NULL `out` and `out_len`.
mirrors hal/rp2040/vl_hal_rp2040.c:124-136 -/
def blobLoad (cap : Nat) : FlashProg (VlStatus × List UInt8) :=
  if cap = 0 then return (.errInvalidArg, [])
  else do
    let r ← recordRead
    if r.blobLen = 0 then return (.errNotFound, [])
    else if (r.blobLen + 1).toNat > cap then return (.errBufferTooSmall, [])
    else return (.ok, r.content)

/-- `memset(rec.blob, 0, …); memcpy(rec.blob, blob, len); rec.blob_len = len;` -/
def VlRpRecord.withBlob (r : VlRpRecord) (b : List UInt8) (h : b.length ≤ VL_BLOB_STR_LEN) :
    VlRpRecord :=
  { r with
    blob := Buf.copyFront (Vector.replicate 161 0) b (Nat.le_succ_of_le h)
    blobLen := UInt32.ofNat b.length }

/-- With a non-NULL `blob`.
mirrors hal/rp2040/vl_hal_rp2040.c:138-149 -/
def blobStore (blob : List UInt8) : FlashProg VlStatus :=
  if h : blob.length > VL_BLOB_STR_LEN then return .errBufferTooSmall
  else do
    let r ← recordRead
    recordWrite (r.withBlob blob (Nat.le_of_not_lt h))

/-- The callbacks of `vl_hal_rp2040()`. -/
def hal : (e : HalCall) → FlashProg e.Resp
  | .hwmLoad => hwmLoad
  | .hwmStore v => hwmStore v
  | .blobLoad cap => blobLoad cap
  | .blobStore b => blobStore b
  | e => Prog.ask (FlashCall.other e)

/-! ## A record survives the page -/

/-- What a record that `record_read` presents is like. -/
structure VlRpRecord.Valid (r : VlRpRecord) : Prop where
  magic : r.magic = VL_RP_MAGIC
  fits : r.blobLen.toNat ≤ VL_BLOB_STR_LEN
  closed : r.blob[160] = 0

theorem valid_present (page : Page) : (present page).Valid := by
  unfold present
  dsimp only
  split
  · exact ⟨rfl, by decide, Vector.getElem_set_self ..⟩
  · rename_i hok
    rw [not_or, Decidable.not_not] at hok
    exact ⟨hok.1, Nat.le_of_not_lt hok.2, Vector.getElem_set_self ..⟩

theorem getD_field (pre mid post : List UInt8) {off i : Nat} (hpre : pre.length = off)
    (hi : i < mid.length) : (pre ++ mid ++ post).getD (off + i) 0 = mid[i] := by
  subst hpre
  rw [List.append_assoc, List.getD_append_right _ _ _ _ (Nat.le_add_right _ _),
    Nat.add_sub_cancel_left, List.getD_append _ _ _ _ hi, List.getD_eq_getElem _ _ hi]

theorem ofPage_toPage (r : VlRpRecord) : ofPage (toPage r) = r := by
  generalize hfill : (Vector.replicate FLASH_PAGE_SIZE (0xFF : UInt8)).toList.drop r.bytes.length =
    fill
  have hpage : (toPage r).toList = r.bytes ++ fill := by rw [toPage, Buf.copyFront_toList, hfill]
  have hmagic := le32_append [] (leBytes 4 r.hwm.toNat ++ (leBytes 4 r.blobLen.toNat ++
    (r.blob.toList ++ (r.pad.toList ++ fill)))) r.magic
  have hhwm := le32_append (leBytes 4 r.magic.toNat) (leBytes 4 r.blobLen.toNat ++
    (r.blob.toList ++ (r.pad.toList ++ fill))) r.hwm
  have hlen := le32_append (leBytes 4 r.magic.toNat ++ leBytes 4 r.hwm.toNat)
    (r.blob.toList ++ (r.pad.toList ++ fill)) r.blobLen
  simp only [List.length_nil, List.nil_append, List.append_assoc, length_leBytes,
    List.length_append] at hmagic hhwm hlen
  have hblob : (ofPage (toPage r)).blob = r.blob := by
    apply Vector.ext
    intro i hi
    have hget := getD_field (leBytes 4 r.magic.toNat ++ leBytes 4 r.hwm.toNat ++
      leBytes 4 r.blobLen.toNat) r.blob.toList (r.pad.toList ++ fill)
      (show _ = 12 by simp) (show i < r.blob.toList.length by simpa using hi)
    rw [Vector.getElem_toList] at hget
    rw [ofPage, Vector.getElem_ofFn, hpage, VlRpRecord.bytes, ← hget]
    simp only [List.append_assoc]
  have hpad : (ofPage (toPage r)).pad = r.pad := by
    apply Vector.ext
    intro i hi
    have hget := getD_field (leBytes 4 r.magic.toNat ++ leBytes 4 r.hwm.toNat ++
      leBytes 4 r.blobLen.toNat ++ r.blob.toList) r.pad.toList fill
      (show _ = 173 by simp) (show i < r.pad.toList.length by simpa using hi)
    rw [Vector.getElem_toList] at hget
    rw [ofPage, Vector.getElem_ofFn, hpage, VlRpRecord.bytes, ← hget]
  have hfields : ofPage (toPage r) = ⟨r.magic, r.hwm, r.blobLen, (ofPage (toPage r)).blob,
      (ofPage (toPage r)).pad⟩ := by
    simp only [ofPage, hpage, VlRpRecord.bytes, List.append_assoc, hmagic, hhwm, hlen]
  rw [hfields, hblob, hpad]

/-- **A valid record reads back as it was written.** -/
theorem present_toPage {r : VlRpRecord} (hr : r.Valid) : present (toPage r) = r := by
  have hok : ¬ (r.magic ≠ VL_RP_MAGIC ∨ r.blobLen.toNat > VL_BLOB_STR_LEN) := by
    rw [not_or, Decidable.not_not]
    exact ⟨hr.magic, Nat.not_lt.mpr hr.fits⟩
  have hblob : r.blob.set VL_BLOB_STR_LEN 0 = r.blob := by
    rw [← hr.closed]
    exact Vector.set_getElem_self _
  unfold present
  rw [ofPage_toPage]
  dsimp only
  rw [if_neg hok, hblob]

theorem valid_withHwm {r : VlRpRecord} (hr : r.Valid) (v : UInt32) :
    VlRpRecord.Valid { r with hwm := v } := ⟨hr.magic, hr.fits, hr.closed⟩

theorem toNat_length {b : List UInt8} (h : b.length ≤ VL_BLOB_STR_LEN) :
    (UInt32.ofNat b.length).toNat = b.length := by
  rw [UInt32.toNat_ofNat']
  exact Nat.mod_eq_of_lt (Nat.lt_of_le_of_lt h (by decide))

theorem valid_withBlob {r : VlRpRecord} (hr : r.Valid) {b : List UInt8}
    (h : b.length ≤ VL_BLOB_STR_LEN) : (r.withBlob b h).Valid := by
  refine ⟨hr.magic, ?_, ?_⟩
  · rw [VlRpRecord.withBlob, toNat_length h]
    exact h
  · have hlen : b.length ≤ 160 := h
    have hget : (r.withBlob b h).blob.toList[160]? = some 0 := by
      simp only [VlRpRecord.withBlob, Buf.copyFront_toList, Vector.toList_replicate,
        List.drop_replicate]
      rw [List.getElem?_append_right hlen, List.getElem?_replicate, if_pos (by omega)]
    rw [List.getElem?_eq_getElem (by simp), Option.some.injEq, Vector.getElem_toList] at hget
    exact hget

theorem content_withBlob (r : VlRpRecord) {b : List UInt8} (h : b.length ≤ VL_BLOB_STR_LEN) :
    (r.withBlob b h).content = b := by
  rw [VlRpRecord.content, VlRpRecord.withBlob]
  dsimp only
  rw [toNat_length h, Buf.copyFront_toList, List.take_left]

/-! ## The callbacks against the flash -/

variable {s s' : Page} {t : List FlashEvent}

theorem exec_recordRead {r : VlRpRecord} (h : Prog.Exec flash recordRead s t r s') :
    r = present s ∧ s' = s := by
  obtain ⟨page, s₁, t₁, t₂, -, hread, hret⟩ := Prog.exec_bind.mp h
  obtain ⟨-, rfl, rfl⟩ := Prog.exec_ask.mp hread
  obtain ⟨-, rfl, rfl⟩ := Prog.exec_ret.mp hret
  exact ⟨rfl, rfl⟩

theorem program_erased (page : Page) :
    Vector.zipWith (· &&& ·) (Vector.replicate FLASH_PAGE_SIZE 0xFF) page = page := by
  apply Vector.ext
  intro i hi
  rw [Vector.getElem_zipWith, Vector.getElem_replicate]
  exact UInt8.neg_one_and

theorem exec_recordWrite {r : VlRpRecord} {st : VlStatus}
    (h : Prog.Exec flash (recordWrite r) s t st s') : st = .ok ∧ s' = toPage r := by
  rw [recordWrite, if_neg (by decide)] at h
  obtain ⟨_, s₁, t₁, t₂, -, herase, hrest⟩ := Prog.exec_bind.mp h
  obtain ⟨-, rfl⟩ := Prog.exec_ask.mp herase
  obtain ⟨_, s₂, t₃, t₄, -, hprogram, hrest₁⟩ := Prog.exec_bind.mp hrest
  obtain ⟨-, hs₂⟩ := Prog.exec_ask.mp hprogram
  obtain rfl : s₂ = toPage r := hs₂.trans (program_erased _)
  obtain ⟨back, s₃, t₅, t₆, -, hread, hrest₂⟩ := Prog.exec_bind.mp hrest₁
  obtain ⟨-, rfl, rfl⟩ := Prog.exec_ask.mp hread
  rw [if_neg (not_not_intro rfl)] at hrest₂
  obtain ⟨-, rfl, rfl⟩ := Prog.exec_ret.mp hrest₂
  exact ⟨rfl, rfl⟩

theorem exec_hwmLoad {r : VlStatus × UInt32} (h : Prog.Exec flash hwmLoad s t r s') :
    r = (.ok, (present s).hwm) ∧ s' = s := by
  obtain ⟨r₀, s₁, t₁, t₂, -, hread, hret⟩ := Prog.exec_bind.mp h
  obtain ⟨rfl, rfl⟩ := exec_recordRead hread
  obtain ⟨-, rfl, rfl⟩ := Prog.exec_ret.mp hret
  exact ⟨rfl, rfl⟩

/-- A mark stored changes the mark alone. -/
theorem exec_hwmStore {v : UInt32} {st : VlStatus}
    (h : Prog.Exec flash (hwmStore v) s t st s') :
    st = .ok ∧ present s' = { present s with hwm := v } := by
  obtain ⟨r, s₁, t₁, t₂, -, hread, hrest⟩ := Prog.exec_bind.mp h
  obtain ⟨rfl, rfl⟩ := exec_recordRead hread
  split at hrest
  · rename_i hsame
    obtain ⟨-, rfl, rfl⟩ := Prog.exec_ret.mp hrest
    rw [← hsame]
    exact ⟨rfl, rfl⟩
  · obtain ⟨rfl, rfl⟩ := exec_recordWrite hrest
    exact ⟨rfl, present_toPage (valid_withHwm (valid_present _) v)⟩

theorem exec_blobLoad {cap : Nat} {r : VlStatus × List UInt8}
    (h : Prog.Exec flash (blobLoad cap) s t r s') :
    s' = s ∧ r = if cap = 0 then (.errInvalidArg, [])
      else if (present s).content = [] then (.errNotFound, [])
      else if (present s).content.length + 1 > cap then (.errBufferTooSmall, [])
      else (.ok, (present s).content) := by
  unfold blobLoad at h
  split at h
  · rename_i hcap
    obtain ⟨-, rfl, rfl⟩ := Prog.exec_ret.mp h
    rw [if_pos hcap]
    exact ⟨rfl, rfl⟩
  rename_i hcap
  rw [if_neg hcap]
  obtain ⟨r₀, s₁, t₁, t₂, -, hread, hrest⟩ := Prog.exec_bind.mp h
  obtain ⟨rfl, rfl⟩ := exec_recordRead hread
  have hfits : (present s₁).blobLen.toNat ≤ 160 := (valid_present s₁).fits
  have hlen : (present s₁).content.length = (present s₁).blobLen.toNat := by
    rw [VlRpRecord.content, List.length_take, Vector.length_toList]
    omega
  have hsucc : ((present s₁).blobLen + 1).toNat = (present s₁).blobLen.toNat + 1 := by
    rw [UInt32.toNat_add, UInt32.toNat_one]
    omega
  have hnil : (present s₁).blobLen = 0 ↔ (present s₁).content = [] := by
    rw [← List.length_eq_zero_iff, hlen, ← UInt32.toNat_inj]
    rfl
  rw [hsucc, ← hlen] at hrest
  simp only [hnil] at hrest
  split at hrest
  · rename_i hempty
    obtain ⟨-, rfl, rfl⟩ := Prog.exec_ret.mp hrest
    rw [if_pos hempty]
    exact ⟨rfl, rfl⟩
  rename_i hfull
  rw [if_neg hfull]
  split at hrest
  · rename_i hlong
    obtain ⟨-, rfl, rfl⟩ := Prog.exec_ret.mp hrest
    rw [if_pos hlong]
    exact ⟨rfl, rfl⟩
  · rename_i hfit
    obtain ⟨-, rfl, rfl⟩ := Prog.exec_ret.mp hrest
    rw [if_neg hfit]
    exact ⟨rfl, rfl⟩

/-- A blob stored changes the blob alone. -/
theorem exec_blobStore {b : List UInt8} {st : VlStatus}
    (h : Prog.Exec flash (blobStore b) s t st s') :
    (b.length > VL_BLOB_STR_LEN ∧ st = .errBufferTooSmall ∧ s' = s) ∨
      (st = .ok ∧ (present s').content = b ∧ (present s').hwm = (present s).hwm) := by
  unfold blobStore at h
  split at h
  · obtain ⟨-, rfl, rfl⟩ := Prog.exec_ret.mp h
    exact .inl ⟨‹_›, rfl, rfl⟩
  · rename_i hfits
    obtain ⟨r, s₁, t₁, t₂, -, hread, hrest⟩ := Prog.exec_bind.mp h
    obtain ⟨rfl, rfl⟩ := exec_recordRead hread
    obtain ⟨rfl, rfl⟩ := exec_recordWrite hrest
    rw [present_toPage (valid_withBlob (valid_present _) _)]
    exact .inr ⟨rfl, content_withBlob _ _, rfl⟩

/-- **The slot on an RP2040.** -/
theorem rp2040_slot :
    BlobSlot (flash.lower hal) (fun s => some (present s).content) 1 .errNotFound where
  stored := fun b s s' _ ⟨t, h⟩ => by
    rcases exec_blobStore h with ⟨-, hno, -⟩ | ⟨-, hcontent, -⟩
    · cases hno
    · rw [hcontent]
  failed := fun b s st s' ⟨t, h⟩ hne => by
    rcases exec_blobStore h with ⟨-, -, rfl⟩ | ⟨hok, -⟩
    · rfl
    · exact absurd hok hne
  refused := fun cap s r s' hcap ⟨t, h⟩ => by
    rw [(exec_blobLoad h).2, if_pos (Nat.lt_one_iff.mp hcap)]
  loaded := fun cap b s r s' hb hmin hcap hc ⟨t, h⟩ => by
    obtain rfl := Option.some.inj hc
    rw [(exec_blobLoad h).2, if_neg (Nat.pos_iff_ne_zero.mp hmin), if_neg hb.nonempty,
      if_neg (Nat.not_lt.mpr hcap)]
  blank := fun cap s r s' hmin hc ⟨t, h⟩ => by
    rw [(exec_blobLoad h).2, if_neg (Nat.pos_iff_ne_zero.mp hmin), if_pos (Option.some.inj hc)]
  others := fun e s r s' hne ⟨t, h⟩ => by
    cases e with
    | hwmLoad => rw [(exec_hwmLoad h).2]
    | hwmStore v => rw [(exec_hwmStore h).2, VlRpRecord.content, VlRpRecord.content]
    | blobLoad cap => rw [(exec_blobLoad h).1]
    | blobStore b => exact absurd rfl (hne b)
    | _ =>
      obtain ⟨-, hs⟩ := Prog.exec_ask.mp h
      rw [show s' = s from hs]

end VectiLicense.L5.Rp2040
