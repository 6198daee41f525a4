import VectiLicense.L5Hal.IdSource
import VectiLicense.L5Hal.Posix

/-!
# The identity of the shipped boards

`read_id_segment` of the microcontroller HALs and of the bare-metal example, each
over what its hardware holds: the factory id of an STM32 or NXP part, the id of an
RP2040's flash chip, the three sources of an ESP32, die id and serial of the
example's board, and the stub of `hal/none`.

* `board_reads`: each of them is its `Board.sources`.
* `board_gives`, `board_refuses`: `Board.segments` is what the sources hand out.
* `segments_inj`: under one HAL, boards with the same segments have the same
  hardware, as far as the HAL hashes it.
-/
namespace VectiLicense.L5

open VectiLicense.Core VectiLicense.L0

/-- `(uint8_t)(w & 0xFFu)`, `(uint8_t)((w >> 8) & 0xFFu)`, … -/
def leWord (w : UInt32) : List UInt8 :=
  [(w &&& 0xFF).toUInt8, ((w >>> 8) &&& 0xFF).toUInt8, ((w >>> 16) &&& 0xFF).toUInt8,
    ((w >>> 24) &&& 0xFF).toUInt8]

@[simp] theorem length_leWord (w : UInt32) : (leWord w).length = 4 := rfl

theorem leWord_inj {v w : UInt32} (h : leWord v = leWord w) : v = w := by
  have hread : ∀ u, Posix.readRaw (leWord u) = u := Posix.readRaw_writeRaw
  rw [← hread v, h, hread w]

/-! ## STM32 -/

namespace Stm32

/-- mirrors hal/stm32/vl_hal_stm32.c:17 -/
def VL_STM32_UID_LEN : Nat := 12

/-- `all_or`, `all_and` and the buffer, from word `i` on.
mirrors hal/stm32/vl_hal_stm32.c:56-64 -/
def uidLoop {cap : Nat} : (i : Nat) → List UInt32 → UInt32 → UInt32 → Dest cap →
    Option (UInt32 × UInt32 × Dest cap)
  | _, [], allOr, allAnd, d => some (allOr, allAnd, d)
  | i, w :: ws, allOr, allAnd, d => do
    let d ← d.put? (i * 4) (leWord w)
    uidLoop (i + 1) ws (allOr ||| w) (allAnd &&& w) d

/-- mirrors hal/stm32/vl_hal_stm32.c:56-75 -/
def readUid (uid : Vector UInt32 3) (cap : Nat) (d : Dest cap) : Option (VlStatus × Dest cap) := do
  let (allOr, allAnd, d) ← uidLoop 0 uid.toList 0 0xFFFFFFFF d
  if allOr = 0 ∨ allAnd = 0xFFFFFFFF then
    let d ← d.put? 0 (List.replicate VL_STM32_UID_LEN 0)
    return (.errPlatform, d)
  else
    let d ← d.setLen? VL_STM32_UID_LEN
    return (.ok, d)

/-- mirrors hal/stm32/vl_hal_stm32.c:44-76 -/
def readIdSegment (uid : Vector UInt32 3) : SegmentReader :=
  oneSegment VL_STM32_UID_LEN (readUid uid)

end Stm32

/-! ## NXP -/

namespace Nxp

/-- The id registers: of a Kinetis, with or without `UIDH`, or of an i.MX RT. -/
inductive Regs where
  | kinetis (uidh : Option UInt32) (uidmh uidml uidl : UInt32)
  | imxrt (cfg0 cfg1 : UInt32)
  deriving DecidableEq

/-- The registers in the order of their stores.
mirrors hal/nxp/vl_hal_nxp.c:91-101 -/
def Regs.words : Regs → List UInt32
  | .kinetis uidh uidmh uidml uidl => uidh.toList ++ [uidmh, uidml, uidl]
  | .imxrt cfg0 cfg1 => [cfg0, cfg1]

/-- mirrors hal/nxp/vl_hal_nxp.c:68-76 -/
def VL_NXP_ID_LEN : Regs → Nat
  | .kinetis (some _) _ _ _ => 16
  | .kinetis none _ _ _ => 12
  | .imxrt _ _ => 8

/-- `(uint8_t)((w >> 24) & 0xFFu)`, … -/
def beWord (w : UInt32) : List UInt8 :=
  [((w >>> 24) &&& 0xFF).toUInt8, ((w >>> 16) &&& 0xFF).toUInt8, ((w >>> 8) &&& 0xFF).toUInt8,
    (w &&& 0xFF).toUInt8]

/-- To `out + n`; 4 is what it returns.
mirrors hal/nxp/vl_hal_nxp.c:59-66 -/
def putBe32 {cap : Nat} (d : Dest cap) (n : Nat) (w : UInt32) : Option (Nat × Dest cap) := do
  let d ← d.put? n (beWord w)
  return (4, d)

/-- `n` and the buffer after the stores. -/
def putWords {cap : Nat} : (n : Nat) → List UInt32 → Dest cap → Option (Nat × Dest cap)
  | n, [], d => some (n, d)
  | n, w :: ws, d => do
    let (k, d) ← putBe32 d n w
    putWords (n + k) ws d

/-- mirrors hal/nxp/vl_hal_nxp.c:91-113 -/
def readUid (regs : Regs) (cap : Nat) (d : Dest cap) : Option (VlStatus × Dest cap) := do
  let (n, d) ← putWords 0 regs.words d
  let out ← d.read? 0 n
  if out.foldl (· ||| ·) 0 = 0 ∨ out.foldl (· &&& ·) 0xFF = 0xFF then
    let d ← d.put? 0 (List.replicate n 0)
    return (.errPlatform, d)
  else
    let d ← d.setLen? n
    return (.ok, d)

/-- mirrors hal/nxp/vl_hal_nxp.c:78-114 -/
def readIdSegment (regs : Regs) : SegmentReader := oneSegment (VL_NXP_ID_LEN regs) (readUid regs)

end Nxp

/-! ## RP2040 -/

namespace Rp2040

def PICO_UNIQUE_BOARD_ID_SIZE_BYTES : Nat := 8

/-- mirrors hal/rp2040/vl_hal_rp2040.c:88-101 -/
def readBoardId (id : Vector UInt8 8) (cap : Nat) (d : Dest cap) :
    Option (VlStatus × Dest cap) :=
  if id.toList.foldl (· ||| ·) 0 = 0 then some (.errPlatform, d)
  else if id.toList.foldl (· &&& ·) 0xFF = 0xFF then some (.errPlatform, d)
  else do
    let d ← d.put? 0 id.toList
    let d ← d.setLen? PICO_UNIQUE_BOARD_ID_SIZE_BYTES
    return (.ok, d)

/-- mirrors hal/rp2040/vl_hal_rp2040.c:76-102 -/
def readIdSegment (id : Vector UInt8 8) : SegmentReader :=
  oneSegment PICO_UNIQUE_BOARD_ID_SIZE_BYTES (readBoardId id)

end Rp2040

/-! ## ESP32 -/

namespace Esp32

def VL_SEG_MAC_LEN : Nat := 6
def VL_SEG_CHIP_LEN : Nat := 8
def VL_SEG_FLASH_LEN : Nat := 4

/-- `esp_chip_info_t`, as far as it is read; a `revision` of 8 bits is a small one. -/
structure ChipInfo where
  model : UInt32
  cores : UInt8
  revision : UInt16
  features : UInt32
  deriving DecidableEq

/-- What the three calls find; `none` is a call that fails. -/
structure Hardware where
  mac : Option (Vector UInt8 6)
  info : ChipInfo
  flashId : Option UInt32
  deriving DecidableEq

/-- mirrors hal/esp32/vl_hal_esp32.c:83-92 -/
def ChipInfo.bytes (info : ChipInfo) : List UInt8 :=
  [info.model.toUInt8, info.cores, (info.revision &&& 0xFF).toUInt8,
    ((info.revision >>> 8) &&& 0xFF).toUInt8] ++ leWord info.features

/-- mirrors hal/esp32/vl_hal_esp32.c:59-112 -/
def readIdSegment (hw : Hardware) : SegmentReader := fun cap idx d =>
  if d.out.isNone ∨ d.outLen.isNone then some (.errInvalidArg, d)
  else if idx = 0 then
    if cap < VL_SEG_MAC_LEN then some (.errBufferTooSmall, d)
    else
      match hw.mac with
      | none => some (.errPlatform, d)
      | some mac => do
        let d ← d.put? 0 mac.toList
        let d ← d.setLen? VL_SEG_MAC_LEN
        return (.ok, d)
  else if idx = 1 then
    if cap < VL_SEG_CHIP_LEN then some (.errBufferTooSmall, d)
    else do
      let d ← d.put? 0 hw.info.bytes
      let d ← d.setLen? VL_SEG_CHIP_LEN
      return (.ok, d)
  else if idx = 2 then
    if cap < VL_SEG_FLASH_LEN then some (.errBufferTooSmall, d)
    else
      match hw.flashId with
      | none => some (.errPlatform, d)
      | some id =>
        if id = 0 ∨ id = 0x00FFFFFF then some (.errPlatform, d)
        else do
          let d ← d.put? 0 (Nxp.beWord id)
          let d ← d.setLen? VL_SEG_FLASH_LEN
          return (.ok, d)
  else some (.errNoMoreSegments, d)

end Esp32

/-! ## The bare-metal example -/

namespace Baremetal

def MY_UID_LEN : Nat := 12
def MY_SERIAL_LEN : Nat := 4

/-- What stands at `MY_UID_BASE` and at `MY_SERIAL_ADDR`. -/
structure Page where
  uid : Vector UInt8 12
  serial : Vector UInt8 4
  deriving DecidableEq

/-- mirrors examples/baremetal/vl_gate.c:81-88 -/
def allSame (p : List UInt8) (v : UInt8) : Bool := p.all (· = v)

/-- No NULL is checked for here.
mirrors examples/baremetal/vl_gate.c:90-126 -/
def boardReadIdSegment (page : Page) : SegmentReader := fun cap idx d =>
  if idx = 0 then
    if cap < MY_UID_LEN then some (.errBufferTooSmall, d)
    else do
      let d ← d.put? 0 page.uid.toList
      let out ← d.read? 0 MY_UID_LEN
      if allSame out 0 || allSame out 0xFF then return (.errPlatform, d)
      else
        let d ← d.setLen? MY_UID_LEN
        return (.ok, d)
  else if idx = 1 then
    if cap < MY_SERIAL_LEN then some (.errBufferTooSmall, d)
    else do
      let d ← d.put? 0 page.serial.toList
      let out ← d.read? 0 MY_SERIAL_LEN
      if allSame out 0xFF then
        let d ← d.setLen? 0
        return (.ok, d)
      else
        let d ← d.setLen? MY_SERIAL_LEN
        return (.ok, d)
  else some (.errNoMoreSegments, d)

end Baremetal

/-- `hal/none`.
mirrors hal/none/vl_hal_none.c:31-36 -/
def Unported.readIdSegment : SegmentReader := fun _ _ d => some (.errPlatform, d)

/-! ## Boards -/

/-- A HAL, and what its hardware holds. -/
inductive Board where
  | stm32 (uid : Vector UInt32 3)
  | nxp (regs : Nxp.Regs)
  | rp2040 (id : Vector UInt8 8)
  | esp32 (hw : Esp32.Hardware)
  | baremetal (page : Baremetal.Page)
  | none
  deriving DecidableEq

namespace Board

/-- The callback in the board's `vl_hal_t`. -/
def read : Board → SegmentReader
  | stm32 uid => Stm32.readIdSegment uid
  | nxp regs => Nxp.readIdSegment regs
  | rp2040 id => Rp2040.readIdSegment id
  | esp32 hw => Esp32.readIdSegment hw
  | baremetal page => Baremetal.boardReadIdSegment page
  | none => Unported.readIdSegment

end Board

theorem beWord_inj {v w : UInt32} (h : Nxp.beWord v = Nxp.beWord w) : v = w := by
  have hrev : ∀ u, (Nxp.beWord u).reverse = leWord u := fun _ => rfl
  exact leWord_inj (by rw [← hrev, h, hrev])

/-- The bytes of a factory id. -/
def Stm32.uidBytes (uid : Vector UInt32 3) : List UInt8 := uid.toList.flatMap leWord

def Nxp.Regs.bytes (regs : Nxp.Regs) : List UInt8 := regs.words.flatMap Nxp.beWord

theorem length_uidBytes (uid : Vector UInt32 3) :
    (Stm32.uidBytes uid).length = Stm32.VL_STM32_UID_LEN := by
  rw [Stm32.uidBytes, length_flatMap length_leWord, Vector.length_toList]
  rfl

theorem length_regsBytes (regs : Nxp.Regs) : regs.bytes.length = Nxp.VL_NXP_ID_LEN regs := by
  rw [Nxp.Regs.bytes, length_flatMap (f := Nxp.beWord) (k := 4) fun _ => rfl]
  rcases regs with ⟨_ | _, _, _, _⟩ | ⟨_, _⟩ <;> rfl

theorem regsBytes_small (regs : Nxp.Regs) : regs.bytes.length ≤ 255 := by
  rw [length_regsBytes]
  rcases regs with ⟨_ | _, _, _, _⟩ | ⟨_, _⟩ <;> simp [Nxp.VL_NXP_ID_LEN]

/-- The flash chip's id, unless the bus is stuck.
mirrors hal/esp32/vl_hal_esp32.c:100-101 -/
def Esp32.Hardware.flash (hw : Esp32.Hardware) : Option UInt32 :=
  hw.flashId.bind fun id => if id = 0 ∨ id = 0x00FFFFFF then none else some id

/-- The serial; a blank page has none. -/
def Baremetal.Page.serialBytes (page : Baremetal.Page) : List UInt8 :=
  if Baremetal.allSame page.serial.toList 0xFF then [] else page.serial.toList

namespace Board

/-- The identity sources of a board. -/
def sources : Board → Nat → Option Source
  | stm32 uid => single (uidSource (Stm32.uidBytes uid) (by rw [length_uidBytes]; decide))
  | nxp regs => single (uidSource regs.bytes (regsBytes_small regs))
  | rp2040 id => single (uidSource id.toList (by simp))
  | esp32 hw => fun i =>
    if i = 0 then some ⟨6, hw.mac.map Vector.toList, by decide, by simp⟩
    else if i = 1 then some ⟨8, some hw.info.bytes, by decide, fun _ h => by cases h; exact Nat.le_refl 8⟩
    else if i = 2 then some ⟨4, hw.flash.map Nxp.beWord, by decide, by simp [Nxp.beWord]⟩
    else Option.none
  | baremetal page => fun i =>
    if i = 0 then some (uidSource page.uid.toList (by simp))
    else if i = 1 then some ⟨4, some page.serialBytes, by decide, by
      rintro _ ⟨⟩
      unfold Baremetal.Page.serialBytes
      split <;> simp⟩
    else Option.none
  | none => fun _ => some ⟨0, Option.none, by decide, by simp⟩

end Board

/-! ## What the checks look for -/

theorem forall_leWord {v w : UInt32} {b : UInt8} (hv : leWord v = List.replicate 4 b) :
    (∀ x ∈ leWord w, x = b) ↔ w = v := by
  refine ⟨fun h => leWord_inj ?_, ?_⟩
  · rw [hv]
    exact List.eq_replicate_iff.mpr ⟨rfl, h⟩
  · rintro rfl x hx
    rw [hv] at hx
    exact List.eq_of_mem_replicate hx

theorem forall_words {ws : List UInt32} {v : UInt32} {b : UInt8}
    (hv : leWord v = List.replicate 4 b) :
    (∀ x ∈ ws.flatMap leWord, x = b) ↔ ∀ w ∈ ws, w = v := by
  simp only [List.forall_mem_flatMap, forall_leWord hv]

theorem stuck_words (ws : List UInt32) :
    Stuck (ws.flatMap leWord) ↔
      ws.foldl (· ||| ·) 0 = 0 ∨ ws.foldl (· &&& ·) 0xFFFFFFFF = 0xFFFFFFFF := by
  have hor := foldl_eq_iff (fun _ _ => UInt32.or_eq_zero_iff) ws 0
  have hand := foldl_eq_iff (e := 0xFFFFFFFF) (fun _ _ => UInt32.and_eq_neg_one_iff) ws 0xFFFFFFFF
  rw [hor, hand, Stuck, forall_words (v := 0) (by decide), forall_words (v := 0xFFFFFFFF) (by decide)]
  simp

theorem stuck_bytes (bs : List UInt8) :
    Stuck bs ↔ bs.foldl (· ||| ·) 0 = 0 ∨ bs.foldl (· &&& ·) 0xFF = 0xFF := by
  have hor := foldl_eq_iff (fun _ _ => UInt8.or_eq_zero_iff) bs 0
  have hand := foldl_eq_iff (e := 0xFF) (fun _ _ => UInt8.and_eq_neg_one_iff) bs 0xFF
  rw [hor, hand, Stuck]
  simp

theorem allSame_iff {p : List UInt8} {v : UInt8} :
    Baremetal.allSame p v = true ↔ ∀ b ∈ p, b = v := by
  simp [Baremetal.allSame]

/-! ## Each callback is its sources -/

theorem uid_answers {cap n : Nat} {out : Buf cap} {bs left : List UInt8} (h : bs.length ≤ cap)
    (hsmall : bs.length ≤ 255) (hleft : left.length ≤ bs.length)
    {got : Option (VlStatus × Dest cap)}
    (hgot : got = some (if Stuck bs then (.errPlatform, ⟨some (out.copyFront left (hleft.trans h)), some n⟩)
      else (.ok, ⟨some (out.copyFront bs h), some bs.length⟩))) :
    Answers (if (uidSource bs hsmall).bytes.isSome then .ok else .errPlatform,
      (uidSource bs hsmall).bytes) bs.length out n got := by
  subst hgot
  by_cases hstuck : Stuck bs
  · simpa [uidSource, hstuck] using Answers.platform (hleft.trans h) hleft
  · simpa [uidSource, hstuck] using Answers.ok h (Nat.le_refl _) (List.prefix_refl bs)

theorem uidLoop_spec {cap : Nat} {out : Buf cap} {len : Option Nat} (ws : List UInt32) :
    ∀ (i : Nat) (ds : List UInt8) (allOr allAnd : UInt32) (h : ds.length ≤ cap)
      (hfit : (ds ++ ws.flatMap leWord).length ≤ cap), ds.length = i * 4 →
      Stm32.uidLoop i ws allOr allAnd ⟨some (out.copyFront ds h), len⟩ =
        some (ws.foldl (· ||| ·) allOr, ws.foldl (· &&& ·) allAnd,
          ⟨some (out.copyFront (ds ++ ws.flatMap leWord) hfit), len⟩) := by
  induction ws with
  | nil => intro i ds allOr allAnd h hfit _; simp [Stm32.uidLoop]
  | cons w ws ih =>
    intro i ds allOr allAnd h hfit hlen
    have hnext : (ds ++ leWord w).length ≤ cap := by
      simp only [List.flatMap_cons, List.length_append] at hfit ⊢
      omega
    have hput : Dest.put? ⟨some (out.copyFront ds h), len⟩ ds.length (leWord w) = _ :=
      Dest.put?_behind h hnext
    rw [hlen] at hput
    have hrest := ih (i + 1) (ds ++ leWord w) (allOr ||| w) (allAnd &&& w) hnext
      (by simpa [List.append_assoc] using hfit) (by simp [hlen, Nat.add_mul])
    simp only [Stm32.uidLoop, hput, hrest, Option.bind_eq_bind, Option.bind_some, List.foldl_cons,
      List.flatMap_cons, List.append_assoc]

theorem stm32_reads (uid : Vector UInt32 3) :
    Reads (Board.stm32 uid).sources (Stm32.readIdSegment uid) := by
  have hlen := length_uidBytes uid
  have hwidth : Stm32.readIdSegment uid =
      oneSegment (Stm32.uidBytes uid).length (Stm32.readUid uid) := by
    rw [hlen]
    rfl
  rw [hwidth]
  refine oneSegment_reads fun cap out n hcap => ?_
  have hfit : (Stm32.uidBytes uid).length ≤ cap := hcap
  have hzeros : (List.replicate Stm32.VL_STM32_UID_LEN (0 : UInt8)).length =
      (Stm32.uidBytes uid).length := by rw [List.length_replicate, hlen]
  refine uid_answers hfit _ (Nat.le_of_eq hzeros) ?_
  have hloop : Stm32.uidLoop 0 uid.toList 0 0xFFFFFFFF ⟨some out, some n⟩ =
      some (uid.toList.foldl (· ||| ·) 0, uid.toList.foldl (· &&& ·) 0xFFFFFFFF,
        ⟨some (out.copyFront (Stm32.uidBytes uid) hfit), some n⟩) := by
    have h : Stm32.uidLoop 0 uid.toList 0 0xFFFFFFFF
        ⟨some (out.copyFront [] (Nat.zero_le _)), some n⟩ = _ :=
      uidLoop_spec uid.toList 0 [] 0 0xFFFFFFFF (Nat.zero_le _) hfit rfl
    rwa [Dest.copyFront_nil] at h
  have hover : Dest.put? ⟨some (out.copyFront (Stm32.uidBytes uid) hfit), some n⟩ 0 _ = _ :=
    Dest.put?_over hfit hzeros
  have hstuck : Stuck (Stm32.uidBytes uid) ↔ _ := stuck_words uid.toList
  simp only [Stm32.readUid, hloop, Option.bind_eq_bind, Option.bind_some, ← hstuck]
  split
  · rw [hover]
    rfl
  · simp [Dest.setLen?, hlen]

/-! ### NXP -/

theorem putWords_spec {cap : Nat} {out : Buf cap} {len : Option Nat} (ws : List UInt32) :
    ∀ (ds : List UInt8) (h : ds.length ≤ cap) (hfit : (ds ++ ws.flatMap Nxp.beWord).length ≤ cap),
      Nxp.putWords ds.length ws ⟨some (out.copyFront ds h), len⟩ =
        some ((ds ++ ws.flatMap Nxp.beWord).length,
          ⟨some (out.copyFront (ds ++ ws.flatMap Nxp.beWord) hfit), len⟩) := by
  induction ws with
  | nil => intro ds h hfit; simp [Nxp.putWords]
  | cons w ws ih =>
    intro ds h hfit
    have hnext : (ds ++ Nxp.beWord w).length ≤ cap := by
      simp only [List.flatMap_cons, List.length_append] at hfit ⊢
      omega
    have hput : Dest.put? ⟨some (out.copyFront ds h), len⟩ ds.length (Nxp.beWord w) = _ :=
      Dest.put?_behind h hnext
    have hrest := ih (ds ++ Nxp.beWord w) hnext (by simpa [List.append_assoc] using hfit)
    rw [show (ds ++ Nxp.beWord w).length = ds.length + 4 from List.length_append] at hrest
    simp only [Nxp.putWords, Nxp.putBe32, hput, hrest, Option.bind_eq_bind, Option.bind_some,
      Option.pure_def, List.flatMap_cons, List.append_assoc]

theorem nxp_reads (regs : Nxp.Regs) : Reads (Board.nxp regs).sources (Nxp.readIdSegment regs) := by
  have hwidth : Nxp.readIdSegment regs = oneSegment regs.bytes.length (Nxp.readUid regs) := by
    rw [length_regsBytes]
    rfl
  rw [hwidth]
  refine oneSegment_reads fun cap out n hcap => ?_
  have hfit : regs.bytes.length ≤ cap := hcap
  have hzeros : (List.replicate regs.bytes.length (0 : UInt8)).length = regs.bytes.length :=
    List.length_replicate
  refine uid_answers hfit _ (Nat.le_of_eq hzeros) ?_
  have hloop : Nxp.putWords 0 regs.words ⟨some out, some n⟩ =
      some (regs.bytes.length, ⟨some (out.copyFront regs.bytes hfit), some n⟩) := by
    have h : Nxp.putWords 0 regs.words ⟨some (out.copyFront [] (Nat.zero_le _)), some n⟩ = _ :=
      putWords_spec regs.words [] (Nat.zero_le _) hfit
    rwa [Dest.copyFront_nil] at h
  have hread : Dest.read? ⟨some (out.copyFront regs.bytes hfit), some n⟩ 0 regs.bytes.length = _ :=
    Dest.read?_written hfit
  have hover : Dest.put? ⟨some (out.copyFront regs.bytes hfit), some n⟩ 0 _ = _ :=
    Dest.put?_over hfit hzeros
  simp only [Nxp.readUid, hloop, hread, Option.bind_eq_bind, Option.bind_some, ← stuck_bytes]
  split
  · rw [hover]
    rfl
  · rfl

/-! ### RP2040 -/

theorem rp2040_reads (id : Vector UInt8 8) :
    Reads (Board.rp2040 id).sources (Rp2040.readIdSegment id) := by
  have hlen : id.toList.length = Rp2040.PICO_UNIQUE_BOARD_ID_SIZE_BYTES := Vector.length_toList
  have hwidth : Rp2040.readIdSegment id = oneSegment id.toList.length (Rp2040.readBoardId id) := by
    rw [hlen]
    rfl
  rw [hwidth]
  refine oneSegment_reads fun cap out n hcap => ?_
  have hfit : id.toList.length ≤ cap := hcap
  refine uid_answers hfit _ (show ([] : List UInt8).length ≤ _ from Nat.zero_le _) ?_
  have hput : Dest.put? ⟨some out, some n⟩ 0 id.toList = _ := Dest.put?_first hfit
  have hstuck := stuck_bytes id.toList
  unfold Rp2040.readBoardId
  by_cases hzero : id.toList.foldl (· ||| ·) 0 = 0
  · rw [if_pos hzero, if_pos (hstuck.mpr (.inl hzero)), Dest.copyFront_nil]
  by_cases hones : id.toList.foldl (· &&& ·) 0xFF = 0xFF
  · rw [if_neg hzero, if_pos hones, if_pos (hstuck.mpr (.inr hones)), Dest.copyFront_nil]
  · rw [if_neg hzero, if_neg hones, if_neg (fun h => (hstuck.mp h).elim hzero hones), hput, hlen]
    rfl

/-! ### ESP32 -/

theorem put_answers {cap width n : Nat} {out : Buf cap} {bs : List UInt8} (hlen : bs.length = width)
    (hroom : ¬ cap < width) :
    Answers (.ok, some bs) width out n (do
      let d ← Dest.put? ⟨some out, some n⟩ 0 bs
      let d ← d.setLen? width
      return (.ok, d)) := by
  subst hlen
  have hfit : bs.length ≤ cap := Nat.le_of_not_lt hroom
  have hok :=
    @Answers.ok cap bs.length n out bs bs hfit (Nat.le_refl _) (List.prefix_refl bs)
  simpa [Dest.put?_first hfit, Dest.setLen?] using hok

theorem toNat_ne {idx v : UInt32} (h : idx ≠ v) : idx.toNat ≠ v.toNat :=
  fun hnat => h (UInt32.toNat_inj.mp hnat)

theorem esp32_reads (hw : Esp32.Hardware) :
    Reads (Board.esp32 hw).sources (Esp32.readIdSegment hw) := by
  intro cap idx out n
  by_cases h0 : idx = 0
  · subst h0
    have hsrc : ∃ src, (Board.esp32 hw).sources 0 = some src ∧ src.width = Esp32.VL_SEG_MAC_LEN ∧
        src.bytes = hw.mac.map Vector.toList := ⟨_, rfl, rfl, rfl⟩
    refine Answers.source hsrc (fun hcap => by simp [Esp32.readIdSegment, hcap]) fun hcap => ?_
    cases hmac : hw.mac with
    | none => simpa [Esp32.readIdSegment, hcap, hmac] using Answers.untouched
    | some mac =>
      have hlen : mac.toList.length = Esp32.VL_SEG_MAC_LEN := Vector.length_toList
      simpa [Esp32.readIdSegment, hcap, hmac] using put_answers hlen hcap
  by_cases h1 : idx = 1
  · subst h1
    have hsrc : ∃ src, (Board.esp32 hw).sources 1 = some src ∧ src.width = Esp32.VL_SEG_CHIP_LEN ∧
        src.bytes = some hw.info.bytes := ⟨_, rfl, rfl, rfl⟩
    refine Answers.source hsrc (fun hcap => by simp [Esp32.readIdSegment, hcap]) fun hcap => ?_
    have hlen : hw.info.bytes.length = Esp32.VL_SEG_CHIP_LEN := rfl
    simpa [Esp32.readIdSegment, hcap] using put_answers hlen hcap
  by_cases h2 : idx = 2
  · subst h2
    have hsrc : ∃ src, (Board.esp32 hw).sources 2 = some src ∧ src.width = Esp32.VL_SEG_FLASH_LEN ∧
        src.bytes = hw.flash.map Nxp.beWord := ⟨_, rfl, rfl, rfl⟩
    refine Answers.source hsrc (fun hcap => by simp [Esp32.readIdSegment, hcap]) fun hcap => ?_
    unfold Esp32.Hardware.flash
    cases hid : hw.flashId with
    | none => simpa [Esp32.readIdSegment, hcap, hid] using Answers.untouched
    | some id =>
      by_cases hstuck : id = 0 ∨ id = 0x00FFFFFF
      · simpa [Esp32.readIdSegment, hcap, hid, hstuck] using Answers.untouched
      · have hlen : (Nxp.beWord id).length = Esp32.VL_SEG_FLASH_LEN := rfl
        simpa [Esp32.readIdSegment, hcap, hid, hstuck] using put_answers hlen hcap
  · have hnone : (Board.esp32 hw).sources idx.toNat = none := by
      simp only [Board.sources]
      rw [if_neg (show idx.toNat ≠ 0 from toNat_ne h0), if_neg (show idx.toNat ≠ 1 from toNat_ne h1),
        if_neg (show idx.toNat ≠ 2 from toNat_ne h2)]
    simpa [Esp32.readIdSegment, h0, h1, h2] using Answers.ended hnone

/-! ### The example's board -/

theorem baremetal_reads (page : Baremetal.Page) :
    Reads (Board.baremetal page).sources (Baremetal.boardReadIdSegment page) := by
  intro cap idx out n
  by_cases h0 : idx = 0
  · subst h0
    have hlen : page.uid.toList.length = Baremetal.MY_UID_LEN := Vector.length_toList
    have hsrc : ∃ src, (Board.baremetal page).sources 0 = some src ∧
        src.width = page.uid.toList.length ∧
        src.bytes = if Stuck page.uid.toList then none else some page.uid.toList :=
      ⟨_, rfl, rfl, rfl⟩
    refine Answers.source hsrc (fun hcap => ?_) fun hcap => ?_
    · rw [hlen] at hcap
      simp [Baremetal.boardReadIdSegment, hcap]
    have hfit : page.uid.toList.length ≤ cap := Nat.le_of_not_lt hcap
    have hput : Dest.put? ⟨some out, some n⟩ 0 page.uid.toList = _ := Dest.put?_first hfit
    have hread : Dest.read? ⟨some (out.copyFront page.uid.toList hfit), some n⟩ 0 _ = _ :=
      Dest.read?_written hfit
    rw [hlen] at hread hcap
    refine uid_answers hfit (by simp) (Nat.le_refl _) ?_
    have hcheck : (Baremetal.allSame page.uid.toList 0 || Baremetal.allSame page.uid.toList 0xFF) = true ↔
        Stuck page.uid.toList := by simp only [Bool.or_eq_true, allSame_iff, Stuck]
    simp only [Baremetal.boardReadIdSegment, if_true, if_neg hcap, hput, hread, Option.bind_eq_bind,
      Option.bind_some, hcheck]
    split
    · rfl
    · simp [Dest.setLen?, hlen]
  by_cases h1 : idx = 1
  · subst h1
    have hlen : page.serial.toList.length = Baremetal.MY_SERIAL_LEN := Vector.length_toList
    have hsrc : ∃ src, (Board.baremetal page).sources 1 = some src ∧
        src.width = Baremetal.MY_SERIAL_LEN ∧ src.bytes = some page.serialBytes :=
      ⟨_, rfl, rfl, rfl⟩
    refine Answers.source hsrc (fun hcap => by simp [Baremetal.boardReadIdSegment, hcap])
      fun hcap => ?_
    have hfit : page.serial.toList.length ≤ cap := by
      rw [hlen]
      exact Nat.le_of_not_lt hcap
    have hput : Dest.put? ⟨some out, some n⟩ 0 page.serial.toList = _ := Dest.put?_first hfit
    have hread : Dest.read? ⟨some (out.copyFront page.serial.toList hfit), some n⟩ 0 _ = _ :=
      Dest.read?_written hfit
    rw [hlen] at hread
    simp only [Baremetal.boardReadIdSegment, if_neg h0, if_true, if_neg hcap, hput, hread,
      Option.bind_eq_bind, Option.bind_some, Baremetal.Page.serialBytes]
    -- a blank serial stays in the buffer, with a length of zero
    split
    · exact Answers.ok hfit (Nat.le_of_eq hlen) List.nil_prefix
    · exact hlen ▸ Answers.ok hfit (Nat.le_refl _) (List.prefix_refl _)
  · have hnone : (Board.baremetal page).sources idx.toNat = none := by
      simp only [Board.sources]
      rw [if_neg (show idx.toNat ≠ 0 from toNat_ne h0), if_neg (show idx.toNat ≠ 1 from toNat_ne h1)]
    simpa [Baremetal.boardReadIdSegment, h0, h1] using Answers.ended hnone

/-! ### All of them -/

/-- **Each callback is its sources**: for every capacity, every content of the buffer and
every index, no store is outside, and the answer is that of the source. -/
theorem board_reads (b : Board) : Reads b.sources b.read := by
  cases b with
  | stm32 uid => exact stm32_reads uid
  | nxp regs => exact nxp_reads regs
  | rp2040 id => exact rp2040_reads id
  | esp32 hw => exact esp32_reads hw
  | baremetal page => exact baremetal_reads page
  | none =>
    intro cap idx out n
    exact Answers.source ⟨_, rfl, rfl, rfl⟩ (fun h => absurd h (Nat.not_lt_zero _))
      fun _ => Answers.untouched

/-! ## What is hashed -/

/-- The segments of a board, unless one of its sources does not answer. -/
def Board.segments : Board → Option (List (List UInt8))
  | .stm32 uid =>
    if Stuck (Stm32.uidBytes uid) then Option.none else some [Stm32.uidBytes uid]
  | .nxp regs => if Stuck regs.bytes then Option.none else some [regs.bytes]
  | .rp2040 id => if Stuck id.toList then Option.none else some [id.toList]
  | .esp32 hw => do
    let mac ← hw.mac
    let id ← hw.flash
    return [mac.toList, hw.info.bytes, Nxp.beWord id]
  | .baremetal page =>
    if Stuck page.uid.toList then Option.none else some [page.uid.toList, page.serialBytes]
  | .none => Option.none

theorem unless_stuck {bs : List UInt8} {l segs : List (List UInt8)} :
    (if Stuck bs then none else some l) = some segs ↔ ¬ Stuck bs ∧ l = segs := by
  rw [ite_eq_iff]
  simp

theorem single_gives {bs : List UInt8} (h : bs.length ≤ 255) (hlive : ¬ Stuck bs) :
    Gives (single (uidSource bs h)) [bs] where
  nonempty := by simp
  few := by simp [VL_ID_SEGMENT_COUNT_MAX]
  bytes := by
    intro i hi
    obtain rfl : i = 0 := by simpa using hi
    exact ⟨_, rfl, if_neg hlive⟩
  ended := rfl

theorem single_refuses {bs : List UInt8} (h : bs.length ≤ 255) (hstuck : Stuck bs) :
    Refuses (single (uidSource bs h)) 0 where
  reached := by decide
  before := fun j hj => absurd hj (Nat.not_lt_zero j)
  refused := ⟨_, rfl, if_pos hstuck⟩

theorem board_gives {b : Board} {segs : List (List UInt8)} (h : b.segments = some segs) :
    Gives b.sources segs := by
  cases b with
  | stm32 uid =>
    obtain ⟨hlive, rfl⟩ := unless_stuck.mp h
    exact single_gives _ hlive
  | nxp regs =>
    obtain ⟨hlive, rfl⟩ := unless_stuck.mp h
    exact single_gives _ hlive
  | rp2040 id =>
    obtain ⟨hlive, rfl⟩ := unless_stuck.mp h
    exact single_gives _ hlive
  | esp32 hw =>
    simp only [Board.segments, Option.bind_eq_bind, Option.bind_eq_some_iff] at h
    obtain ⟨mac, hmac, id, hid, h⟩ := h
    obtain rfl := Option.some.inj h
    refine ⟨by simp, by simp [VL_ID_SEGMENT_COUNT_MAX], ?_, rfl⟩
    intro i hi
    rcases i with _ | _ | _ | i
    · exact ⟨_, rfl, by simp [hmac]⟩
    · exact ⟨_, rfl, rfl⟩
    · exact ⟨_, rfl, by simp [hid]⟩
    · simp only [List.length_cons, List.length_nil] at hi
      omega
  | baremetal page =>
    obtain ⟨hlive, rfl⟩ := unless_stuck.mp h
    refine ⟨by simp, by simp [VL_ID_SEGMENT_COUNT_MAX], ?_, rfl⟩
    intro i hi
    rcases i with _ | _ | i
    · exact ⟨_, rfl, if_neg hlive⟩
    · exact ⟨_, rfl, rfl⟩
    · simp only [List.length_cons, List.length_nil] at hi
      omega
  | none => cases h

theorem board_refuses {b : Board} (h : b.segments = none) : ∃ i, Refuses b.sources i := by
  have huid : ∀ {bs : List UInt8} {l : List (List UInt8)},
      (if Stuck bs then Option.none else some l) = none → Stuck bs := by
    intro bs l h
    rw [ite_eq_iff] at h
    simpa using h
  cases b with
  | stm32 uid => exact ⟨0, single_refuses _ (huid h)⟩
  | nxp regs => exact ⟨0, single_refuses _ (huid h)⟩
  | rp2040 id => exact ⟨0, single_refuses _ (huid h)⟩
  | esp32 hw =>
    cases hmac : hw.mac with
    | none =>
      exact ⟨0, by decide, fun j hj => absurd hj (Nat.not_lt_zero j), _, rfl, by simp [hmac]⟩
    | some mac =>
      have hid : hw.flash = none := by
        cases hid : hw.flash with
        | none => rfl
        | some id => simp [Board.segments, hmac, hid] at h
      refine ⟨2, by decide, ?_, _, rfl, by simp [hid]⟩
      intro j hj
      rcases j with _ | _ | j
      · exact ⟨_, _, rfl, by simp [hmac]; rfl⟩
      · exact ⟨_, _, rfl, rfl⟩
      · omega
  | baremetal page =>
    exact ⟨0, by decide, fun j hj => absurd hj (Nat.not_lt_zero j), _, rfl, if_pos (huid h)⟩
  | none => exact ⟨0, by decide, fun j hj => absurd hj (Nat.not_lt_zero j), _, rfl, rfl⟩

/-! ## What the segments tell -/

/-- The HAL a board has. -/
inductive HalKind where
  | stm32 | nxp | rp2040 | esp32 | baremetal | none
  deriving DecidableEq

def Board.kind : Board → HalKind
  | .stm32 _ => .stm32
  | .nxp _ => .nxp
  | .rp2040 _ => .rp2040
  | .esp32 _ => .esp32
  | .baremetal _ => .baremetal
  | .none => .none

/-- The part of the hardware that is hashed: all of it but the upper bits of an ESP32's
model number. -/
def Board.hashed : Board → Board
  | .esp32 hw => .esp32 { hw with info := { hw.info with model := hw.info.model &&& 0xFF } }
  | b => b

theorem regs_inj {regs regs' : Nxp.Regs} (h : regs.bytes = regs'.bytes) : regs = regs' := by
  have hwords : regs.words = regs'.words :=
    flatMap_inj (show 0 < 4 by decide) (fun _ => rfl) (fun _ _ => beWord_inj) h
  rcases regs with ⟨_ | _, _, _, _⟩ | ⟨_, _⟩ <;> rcases regs' with ⟨_ | _, _, _, _⟩ | ⟨_, _⟩ <;>
    simp_all [Nxp.Regs.words]

theorem chipBytes_inj {i j : Esp32.ChipInfo} (h : i.bytes = j.bytes) :
    i.model &&& 0xFF = j.model &&& 0xFF ∧ i.cores = j.cores ∧ i.revision = j.revision ∧
      i.features = j.features := by
  unfold Esp32.ChipInfo.bytes at h
  obtain ⟨hfront, hfeatures⟩ := List.append_inj h rfl
  simp only [List.cons.injEq, and_true] at hfront
  obtain ⟨hmodel, hcores, hlow, hhigh⟩ := hfront
  have hmod : ∀ n : Nat, n &&& 255 = n % 256 := fun n => Nat.and_two_pow_sub_one_eq_mod n 8
  refine ⟨?_, hcores, ?_, leWord_inj hfeatures⟩
  · have hnat := congrArg UInt8.toNat hmodel
    apply UInt32.toNat_inj.mp
    simpa [UInt32.toNat_and, hmod] using hnat
  · have hlow' := congrArg UInt8.toNat hlow
    have hhigh' := congrArg UInt8.toNat hhigh
    have hi := i.revision.toNat_lt
    have hj := j.revision.toNat_lt
    apply UInt16.toNat_inj.mp
    simp only [UInt16.toNat_toUInt8, UInt16.toNat_and, UInt16.toNat_shiftRight,
      UInt16.reduceToNat, Nat.reduceMod, Nat.shiftRight_eq_div_pow, Nat.reducePow, hmod]
      at hlow' hhigh'
    omega

theorem flash_read {hw : Esp32.Hardware} {id : UInt32} (h : hw.flash = some id) :
    hw.flashId = some id := by
  obtain ⟨id', hid', hfind⟩ := Option.bind_eq_some_iff.mp h
  rw [ite_eq_iff] at hfind
  simp_all

theorem page_ext {p q : Baremetal.Page} (huid : p.uid = q.uid) (hserial : p.serial = q.serial) :
    p = q := by
  cases p
  cases q
  simp_all

theorem serialBytes_inj {p q : Baremetal.Page} (h : p.serialBytes = q.serialBytes) :
    p.serial = q.serial := by
  unfold Baremetal.Page.serialBytes at h
  have hne : ∀ r : Baremetal.Page, r.serial.toList ≠ [] := by
    intro r hnil
    simpa using congrArg List.length hnil
  split at h <;> split at h
  · rename_i hp hq
    refine Vector.toList_inj.mp ?_
    rw [List.eq_replicate_iff.mpr ⟨rfl, allSame_iff.mp hp⟩,
      List.eq_replicate_iff.mpr ⟨rfl, allSame_iff.mp hq⟩]
    simp
  · exact absurd h.symm (hne q)
  · exact absurd h (hne p)
  · exact Vector.toList_inj.mp h

/-- **The segments tell the hardware**, under one HAL. -/
theorem segments_inj {b b' : Board} {segs : List (List UInt8)} (hkind : b.kind = b'.kind)
    (h : b.segments = some segs) (h' : b'.segments = some segs) : b.hashed = b'.hashed := by
  cases b <;> cases b' <;> cases hkind
  case stm32.stm32 uid uid' =>
    have hbytes := (unless_stuck.mp h).2.trans (unless_stuck.mp h').2.symm
    simp only [List.cons.injEq, and_true] at hbytes
    have hwords := flatMap_inj (show 0 < 4 by decide) length_leWord (fun _ _ => leWord_inj) hbytes
    rw [Vector.toList_inj.mp hwords]
  case nxp.nxp regs regs' =>
    have hbytes := (unless_stuck.mp h).2.trans (unless_stuck.mp h').2.symm
    simp only [List.cons.injEq, and_true] at hbytes
    rw [regs_inj hbytes]
  case rp2040.rp2040 id id' =>
    have hbytes := (unless_stuck.mp h).2.trans (unless_stuck.mp h').2.symm
    simp only [List.cons.injEq, and_true] at hbytes
    rw [Vector.toList_inj.mp hbytes]
  case esp32.esp32 hw hw' =>
    simp only [Board.segments, Option.bind_eq_bind, Option.bind_eq_some_iff] at h h'
    obtain ⟨mac, hmac, id, hid, h⟩ := h
    obtain ⟨mac', hmac', id', hid', h'⟩ := h'
    have hbytes := (Option.some.inj h).trans (Option.some.inj h').symm
    simp only [List.cons.injEq, and_true] at hbytes
    obtain ⟨hmacs, hinfo, hids⟩ := hbytes
    obtain ⟨hmodel, hcores, hrevision, hfeatures⟩ := chipBytes_inj hinfo
    have hflash : hw.flashId = hw'.flashId := by
      rw [flash_read hid, flash_read hid', beWord_inj hids]
    have hmac : hw.mac = hw'.mac := by rw [hmac, hmac', Vector.toList_inj.mp hmacs]
    simp [Board.hashed, hmac, hflash, hmodel, hcores, hrevision, hfeatures]
  case baremetal.baremetal page page' =>
    have hbytes := (unless_stuck.mp h).2.trans (unless_stuck.mp h').2.symm
    simp only [List.cons.injEq, and_true] at hbytes
    obtain ⟨huid, hserial⟩ := hbytes
    rw [show page = page' from page_ext (Vector.toList_inj.mp huid) (serialBytes_inj hserial)]
  case none.none => rfl

/-! ## The promise to the core -/

theorem read_null {b : Board} (hb : b.kind ≠ .baremetal) (hn : b.kind ≠ .none) {cap : Nat}
    (idx : UInt32) {d : Dest cap} (h : d.out = none ∨ d.outLen = none) :
    b.read cap idx d = some (.errInvalidArg, d) := by
  have hnull : d.out.isNone ∨ d.outLen.isNone := by simpa using h
  cases b with
  | stm32 uid => exact if_pos hnull
  | nxp regs => exact if_pos hnull
  | rp2040 id => exact if_pos hnull
  | esp32 hw => exact if_pos hnull
  | baremetal page => exact absurd rfl hb
  | none => exact absurd rfl hn

/-- The sources of a board end, and there are few of them; the stub of `hal/none` has no end. -/
theorem sources_end {b : Board} (hn : b.kind ≠ .none) :
    ∃ k, 0 < k ∧ k ≤ VL_ID_SEGMENT_COUNT_MAX ∧ ∀ i, b.sources i = none ↔ k ≤ i := by
  have hsingle : ∀ (src : Source) (i : Nat), single src i = none ↔ 1 ≤ i := by
    intro src i
    unfold single
    split <;> simp <;> omega
  cases b with
  | stm32 uid => exact ⟨1, by decide, by decide, hsingle _⟩
  | nxp regs => exact ⟨1, by decide, by decide, hsingle _⟩
  | rp2040 id => exact ⟨1, by decide, by decide, hsingle _⟩
  | esp32 hw =>
    refine ⟨3, by decide, by decide, fun i => ?_⟩
    rcases i with _ | _ | _ | i <;> simp [Board.sources]
  | baremetal page =>
    refine ⟨2, by decide, by decide, fun i => ?_⟩
    rcases i with _ | _ | i <;> simp [Board.sources]
  | none => exact absurd rfl hn

/-- The status of a call for a source: too little room, or whether the source answers. -/
theorem answerOf_source {srcs : Nat → Option Source} {cap i : Nat} {src : Source}
    (h : srcs i = some src) : (answerOf srcs cap i).1 =
      if cap < src.width then .errBufferTooSmall
      else if src.bytes.isSome then .ok else .errPlatform := by
  simp only [answerOf, h]
  split <;> rfl

/-- **The contract of `read_id_segment`**, for every board, capacity, index and content of
the caller's buffer: no store is outside the buffer or behind the source's room; a source
that answers, with room for it, is `VL_OK`, and one that does not is `VL_ERR_PLATFORM`;
success comes with the source's bytes and a length within the capacity and a byte; any
other status leaves `*out_len` alone; the sentinel ends the list and nothing else; and
what the buffer held before has no part in it. The list ends within the core's bound but
for the stub of `hal/none`, which answers `VL_ERR_PLATFORM` to every index. -/
theorem identity_contract (b : Board) (cap : Nat) (idx : UInt32) (out : Buf cap) (n : Nat) :
    (∃ st out' len, b.read cap idx ⟨some out, some n⟩ = some (st, ⟨some out', some len⟩) ∧
      (st = .ok → len ≤ cap ∧ len ≤ 255 ∧ ∃ src, b.sources idx.toNat = some src ∧
        src.bytes = some (out'.toList.take len)) ∧
      (st ≠ .ok → len = n) ∧
      (∀ src, b.sources idx.toNat = some src →
        st = if cap < src.width then .errBufferTooSmall
          else if src.bytes.isSome then .ok else .errPlatform) ∧
      (b.kind = .none → st = .errPlatform) ∧
      (st = .errNoMoreSegments ↔ b.sources idx.toNat = none) ∧
      (∀ i, roomOf b.sources idx.toNat ≤ i → out'[i]? = out[i]?) ∧
      ∀ (stale : Buf cap) (m : Nat), ∃ out₂ len₂,
        b.read cap idx ⟨some stale, some m⟩ = some (st, ⟨some out₂, some len₂⟩) ∧
        (st = .ok → len₂ = len ∧ out₂.toList.take len = out'.toList.take len)) ∧
    (b.kind ≠ .none →
      ∃ k, 0 < k ∧ k ≤ VL_ID_SEGMENT_COUNT_MAX ∧ ∀ i, b.sources i = none ↔ k ≤ i) ∧
    (b.kind ≠ .baremetal → b.kind ≠ .none → ∀ d : Dest cap, d.out = none ∨ d.outLen = none →
      b.read cap idx d = some (.errInvalidArg, d)) := by
  refine ⟨?_, sources_end, fun hb hn d h => read_null hb hn idx h⟩
  obtain ⟨ds, hfit, hgot, hroom, hprefix⟩ := (board_reads b cap idx out n).left
  have hbehind : ∀ i, roomOf b.sources idx.toNat ≤ i → (out.copyFront ds hfit)[i]? = out[i]? := by
    intro i hi
    simp only [← Vector.getElem?_toList, Buf.copyFront_toList]
    rw [List.getElem?_append_right (by omega), List.getElem?_drop]
    congr 1
    omega
  have hsame : ∀ (stale : Buf cap) (m : Nat), ∃ out₂ len₂,
      b.read cap idx ⟨some stale, some m⟩ =
        some ((answerOf b.sources cap idx.toNat).1, ⟨some out₂, some len₂⟩) ∧
      ∀ bs, (answerOf b.sources cap idx.toNat).2 = some bs →
        len₂ = bs.length ∧ out₂.toList.take bs.length = bs := by
    intro stale m
    obtain ⟨ds₂, hfit₂, hgot₂, -, hprefix₂⟩ := (board_reads b cap idx stale m).left
    refine ⟨_, _, hgot₂, fun bs hbs => ⟨by simp [hbs], ?_⟩⟩
    obtain ⟨more, rfl⟩ := hprefix₂ bs hbs
    simp
  have hstatus : ∀ src, b.sources idx.toNat = some src → (answerOf b.sources cap idx.toNat).1 =
      if cap < src.width then .errBufferTooSmall
      else if src.bytes.isSome then .ok else .errPlatform := fun _ => answerOf_source
  have hstub : b.kind = .none → (answerOf b.sources cap idx.toNat).1 = .errPlatform := by
    intro hkind
    cases b with
    | none => rfl
    | _ => cases hkind
  refine ⟨_, _, _, hgot, ?_⟩
  rcases answerOf_cases b.sources cap idx.toNat with
    ⟨src, bs, hsrc, hbytes, hwidth, hanswer⟩ | ⟨src, st, hsrc, hst, hanswer⟩ | ⟨hsrc, hanswer⟩
  · rw [hanswer] at hprefix hsame hstatus hstub ⊢
    obtain ⟨more, rfl⟩ := hprefix bs rfl
    have hlen := src.fits bs hbytes
    have hsmall := src.small
    refine ⟨fun _ => ⟨by simp; omega, by simp; omega, src, hsrc, by simp [hbytes]⟩, by simp,
      hstatus, hstub, by simp [hsrc], hbehind, fun stale m => ?_⟩
    obtain ⟨out₂, len₂, hread, hsegment⟩ := hsame stale m
    obtain ⟨rfl, htake⟩ := hsegment bs rfl
    exact ⟨out₂, _, hread, fun _ => ⟨rfl, by simpa using htake⟩⟩
  · rw [hanswer] at hsame hstatus hstub ⊢
    have hno : st ≠ .ok ∧ st ≠ .errNoMoreSegments := by rcases hst with rfl | rfl <;> simp
    refine ⟨fun h => absurd h hno.1, fun _ => rfl, hstatus, hstub, by simp [hsrc, hno.2], hbehind,
      fun stale m => ?_⟩
    obtain ⟨out₂, len₂, hread, -⟩ := hsame stale m
    exact ⟨out₂, len₂, hread, fun h => absurd h hno.1⟩
  · rw [hanswer] at hsame hstatus hstub ⊢
    refine ⟨by simp, fun _ => rfl, hstatus, hstub, by simp [hsrc], hbehind, fun stale m => ?_⟩
    obtain ⟨out₂, len₂, hread, -⟩ := hsame stale m
    exact ⟨out₂, len₂, hread, by simp⟩

end VectiLicense.L5
