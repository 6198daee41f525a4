import VectiLicense.L2Transport.Line
import VectiLicense.L6Bridge.License
import VectiLicense.L7Mint.OneBoard

/-!
# The gate of `examples/baremetal/vl_gate.c`

A firmware with nothing below it: its own identity callback, no clock, no heap.
It loads a blob at start-up, takes lines off a UART a byte at a time, verifies
each, stores what verified and opens features by it. `board_load_blob` and
`board_save_blob` are the integrator's; a `BoardSupport` stands for them.

A run is any sequence of power cycles, received bytes and exchanges of the stored
blob behind the firmware's back. What the stack holds at a call is part of the
event, so nothing rests on it.

* `Desk`: the gate without its framer, in terms of whole lines.
* `run_refines`: every run ends, inside its buffers, where the `Desk` is.
* `gate_safe`: what an open gate stands for, in every reachable state.
-/
namespace VectiLicense.L8

open VectiLicense.Core VectiLicense.L0 VectiLicense.L1.Base32 VectiLicense.L2.Line VectiLicense.L3
open VectiLicense.L5 VectiLicense.L7
open VectiLicense.L1.Hash (sha256)
open VectiLicense.L6 (VL_BLOB_STR_BUF_LEN License.vlHasFeature)

/-- mirrors core/vl_core.c:51-76 -/
def vlStatusStr : VlStatus → String
  | .ok => "ok"
  | .errInvalidArg => "invalid argument"
  | .errBufferTooSmall => "output buffer too small"
  | .errBadFormat => "licence blob is malformed"
  | .errBadMagic => "not a VectiLicense blob"
  | .errBadVersion => "licence format is newer than this firmware"
  | .errBadFamily => "licence is for a different product"
  | .errUnknownKey => "licence signed by an unknown key"
  | .errBadSignature => "signature did not verify"
  | .errDeviceMismatch => "licence is for a different device"
  | .errNotYetValid => "licence is not valid yet"
  | .errExpired => "licence has expired"
  | .errRevoked => "licence has been revoked"
  | .errClockRollback => "clock is behind the recorded high-water mark"
  | .errNoClock => "no clock available to check the validity window"
  | .errPlatform => "platform callback failed"
  | .errNoMoreSegments => "no more identity segments"
  | .errNotFound => "no licence stored"
  | .errInternal => "internal error"

/-! ## The firmware -/

/-- `board_load_blob`, with `none` for 0, and `board_save_blob`, over a storage of type `β`.
mirrors examples/baremetal/vl_gate.c:189-192 -/
structure BoardSupport (β : Type) where
  load : (cap : Nat) → β → Option CStr
  save : CStr → β → β

/-- The storage keeps a string that fits into the 161 bytes it is meant for. -/
def BoardSupport.Keeps {β : Type} (bs : BoardSupport β) : Prop :=
  ∀ (s : CStr) (st : β), s.bytes.length < VL_BLOB_STR_BUF_LEN →
    bs.load VL_BLOB_STR_BUF_LEN (bs.save s st) = some s

/-- The board, and the vendor's keys compiled in. -/
structure Firmware where
  page : Baremetal.Page
  keys : List VlPubkey

/-- `CFG`: family 3, nothing revoked, no flags.
mirrors examples/baremetal/vl_gate.c:169-174 -/
def Firmware.cfg (fw : Firmware) : VlConfig := ⟨some fw.keys, 3, none, 0⟩

/-- What a call finds on the stack. -/
structure Garbage where
  stack : Stack
  stale : UInt32 → Unit → Buf 255

/-- `BOARD_HAL`: every optional callback is NULL.
mirrors examples/baremetal/vl_gate.c:137-144 -/
abbrev Firmware.hal (fw : Firmware) (g : Garbage) : VlHal Unit :=
  boardHal (.baremetal fw.page) identityOnly g.stale

section
variable [Target]

/-- `vl_verify(blob, &CFG, &BOARD_HAL, &g_license)`, with `g_license` afterwards. -/
def Firmware.verify (fw : Firmware) (g : Garbage) (blob : CStr) (license : VlLicense) :
    VlStatus × VlLicense :=
  let v := (verifyOn (deviceCrypto g.stack) (some blob) (some fw.cfg) (some (fw.hal g))
    (some license) ()).val
  (v.1, v.2.getD license)

/-- The statics, the storage behind the board support, and what was printed.
mirrors examples/baremetal/vl_gate.c:183-184, 256 -/
structure Gate (β : Type) where
  license : VlLicense
  status : VlStatus
  rx : VlLine
  storage : β
  printed : List String

variable {β : Type}

/-- After a power cycle, before `gate_init`. -/
def Gate.powerOn (storage : β) (printed : List String) : Gate β :=
  ⟨VlLicense.zero, .errNotFound, VlLine.zero, storage, printed⟩

/-- mirrors examples/baremetal/vl_gate.c:196-208 -/
def gateInit (fw : Firmware) (bs : BoardSupport β) (g : Garbage) (m : Gate β) : Gate β :=
  match bs.load VL_BLOB_STR_BUF_LEN m.storage with
  | none => { m with status := .errNotFound }
  | some blob =>
    let (st, license) := fw.verify g blob m.license
    { m with status := st, license, printed := m.printed ++ [vlStatusStr st] }

/-- A line is in `rx.buf`; `none` is a string without an end.
mirrors examples/baremetal/vl_gate.c:268-276 -/
def gateLine (fw : Firmware) (bs : BoardSupport β) (g : Garbage) (m : Gate β) : Option (Gate β) :=
  if 0 ∉ m.rx.buf.toList then none
  else
    let blob := CStr.ofMem m.rx.buf.toList
    let (st, license) := fw.verify g blob m.license
    if st = .ok then
      some { m with
        status := st, license, storage := bs.save blob m.storage,
        printed := m.printed ++ ["licensed"] }
    else some { m with status := st, license, printed := m.printed ++ [vlStatusStr st] }

/-- `none` is a store or a read outside `g_rx`.
mirrors examples/baremetal/vl_gate.c:260-279 -/
def gateUartRx (fw : Firmware) (bs : BoardSupport β) (g : Garbage) (ch : UInt8) (m : Gate β) :
    Option (UInt32 × Gate β) := do
  let (st, rx) ← vlLinePush (some m.rx) ch
  let rx ← rx
  if st ≠ .ok then return (0, { m with rx })
  else
    let m ← gateLine fw bs g { m with rx }
    let rx ← vlLineReset (some m.rx)
    let rx ← rx
    return (1, { m with rx })

/-- mirrors examples/baremetal/vl_gate.c:212-224 -/
def gateDeviceId (fw : Firmware) (g : Garbage) (cap : Nat) : VlStatus × Writes :=
  let (st, fp) := (identityRun (deviceCrypto g.stack) (fw.hal g) ()).val
  if st = .ok then vlEncodeDeviceId fp .buf cap else (st, [])

/-- mirrors examples/baremetal/vl_gate.c:235 -/
def gateLicensed (m : Gate β) : Bool := m.status = .ok

/-- mirrors examples/baremetal/vl_gate.c:230-233 -/
def gateAllows (m : Gate β) (featureBit : UInt32) : Bool :=
  m.status = .ok && License.vlHasFeature (some m.license) featureBit ≠ 0

/-- mirrors examples/baremetal/vl_gate.c:236 -/
def gateReason (m : Gate β) : String := vlStatusStr m.status

/-- mirrors examples/baremetal/vl_gate.c:241-244 -/
def gateExpiryEnforced (m : Gate β) : Bool :=
  m.status = .ok && m.license.checked &&& VL_CHECKED_TIME ≠ 0

/-- A power cycle with `gate_init`, a received byte, another blob in the storage. -/
inductive GateEvent (β : Type) where
  | boot (g : Garbage)
  | rx (g : Garbage) (ch : UInt8)
  | swap (storage : β)

def Gate.step (fw : Firmware) (bs : BoardSupport β) (m : Gate β) : GateEvent β → Option (Gate β)
  | .boot g => some (gateInit fw bs g (Gate.powerOn m.storage m.printed))
  | .rx g ch => (gateUartRx fw bs g ch m).map Prod.snd
  | .swap storage => some { m with storage }

def Gate.run (fw : Firmware) (bs : BoardSupport β) (m : Gate β) : List (GateEvent β) → Option (Gate β)
  | [] => some m
  | e :: es => (m.step fw bs e).bind fun m => m.run fw bs es

/-! ## The gate in terms of lines -/

/-- The verdict on a string; what the stack holds has no part in it (`verify_eq`). -/
def Firmware.judge (fw : Firmware) (s : CStr) : VlStatus × VlLicense :=
  fw.verify ⟨zeroStack, fun _ _ => Vector.replicate 255 0⟩ s VlLicense.zero

/-- The string in a line that a terminator closes: no blanks, and up to the first NUL. -/
def lineOf (typed : List UInt8) : Option CStr :=
  if content typed = [] ∨ VL_LINE_MAX_LEN < (content typed).length then none
  else some (CStr.ofMem (content typed))

/-- The bytes since the last terminator, the verdict in force, the storage. -/
structure Desk (β : Type) where
  typed : List UInt8
  verdict : VlStatus × VlLicense
  storage : β

/-- The verdict that a start-up comes to. -/
def bootVerdict (fw : Firmware) (bs : BoardSupport β) (storage : β) : VlStatus × VlLicense :=
  match bs.load VL_BLOB_STR_BUF_LEN storage with
  | none => (.errNotFound, VlLicense.zero)
  | some s => fw.judge s

/-- A whole line: its verdict is in force, and the storage has it if it verified. -/
def Desk.line (fw : Firmware) (bs : BoardSupport β) (d : Desk β) (s : CStr) : Desk β where
  typed := []
  verdict := fw.judge s
  storage := if (fw.judge s).1 = .ok then bs.save s d.storage else d.storage

def Desk.step (fw : Firmware) (bs : BoardSupport β) (d : Desk β) : GateEvent β → Desk β
  | .boot _ => ⟨[], bootVerdict fw bs d.storage, d.storage⟩
  | .rx _ ch =>
    if isTerm ch = true then
      match lineOf d.typed with
      | none => { d with typed := [] }
      | some s => d.line fw bs s
    else { d with typed := d.typed ++ [ch] }
  | .swap storage => { d with storage }

/-- The gate stands where the desk does. -/
structure Shows (m : Gate β) (d : Desk β) : Prop where
  rx : Holds d.typed m.rx
  verdict : (m.status, m.license) = d.verdict
  storage : m.storage = d.storage

theorem Desk.step_rx_line (fw : Firmware) (bs : BoardSupport β) (g : Garbage) {d : Desk β}
    {ch : UInt8} {s : CStr} (hterm : isTerm ch = true) (hline : lineOf d.typed = some s) :
    d.step fw bs (.rx g ch) = d.line fw bs s := by
  simp only [Desk.step, hterm, if_true, hline]

theorem Desk.step_rx_open (fw : Firmware) (bs : BoardSupport β) (g : Garbage) {d : Desk β}
    {ch : UInt8} (h : ¬ (isTerm ch = true ∧ (lineOf d.typed).isSome = true)) :
    (d.step fw bs (.rx g ch)).verdict = d.verdict ∧
      (d.step fw bs (.rx g ch)).storage = d.storage := by
  unfold Desk.step
  dsimp only
  split
  · rename_i hterm
    have hline : lineOf d.typed = none := by simpa [hterm] using h
    rw [hline]
    exact ⟨rfl, rfl⟩
  · exact ⟨rfl, rfl⟩

theorem verifyOn_some (cr : Crypto) (str : CStr) (c : VlConfig) (hal : VlHal Unit)
    (lic : VlLicense) :
    ∃ lic', (verifyOn cr (some str) (some c) (some hal) (some lic) ()).val.2 = some lic' := by
  obtain ⟨r, -, hval, -⟩ := verifyOn_cases cr (some str) (some c) (some hal) (some lic) ()
  rw [hval]
  cases r with
  | error e => exact ⟨_, rfl⟩
  | ok lic' => exact ⟨_, rfl⟩

theorem verify_eq (fw : Firmware) (g : Garbage) (s : CStr) (license : VlLicense) :
    fw.verify g s license = fw.judge s := by
  have hsame := verdict_stack (.baremetal fw.page) s fw.cfg license VlLicense.zero g.stack zeroStack
    g.stale fun _ _ => Vector.replicate 255 0
  obtain ⟨lic, hlic⟩ := verifyOn_some (deviceCrypto zeroStack) s fw.cfg
    (fw.hal ⟨zeroStack, fun _ _ => Vector.replicate 255 0⟩) VlLicense.zero
  simp only [Firmware.judge, Firmware.verify, Firmware.hal, hsame, hlic, Option.getD_some]

/-! ## One event -/

omit [Target] in
theorem ofMem_nul (bs rest : List UInt8) : CStr.ofMem (bs ++ 0 :: rest) = CStr.ofMem bs := by
  refine CStr.ext_bytes ?_
  simp only [CStr.ofMem]
  rw [List.takeWhile_append, List.takeWhile_cons_of_neg (by simp), List.append_nil]
  split
  · rename_i hall
    exact ((List.takeWhile_prefix _).eq_of_length hall).symm
  · rfl

omit [Target] in
theorem lineOf_observe {typed : List UInt8} {st : VlStatus} {l : VlLine}
    (h : observe (st, l) = reference typed) :
    (st ≠ .ok ∧ lineOf typed = none) ∨
      st = .ok ∧ 0 ∈ l.buf.toList ∧ lineOf typed = some (CStr.ofMem l.buf.toList) := by
  have hst : st = (reference typed).1 := congrArg Prod.fst h
  unfold reference at h hst
  unfold lineOf
  by_cases hlong : VL_LINE_MAX_LEN < (content typed).length
  · rw [if_pos hlong] at hst
    exact .inl ⟨by rw [hst]; decide, if_pos (.inr hlong)⟩
  by_cases hblank : content typed = []
  · rw [if_neg hlong, if_pos hblank] at hst
    exact .inl ⟨by rw [hst]; decide, if_pos (.inl hblank)⟩
  · rw [if_neg hlong, if_neg hblank] at h hst
    subst hst
    have hbuf : l.buf.toList.take (l.len + 1) = content typed ++ [0] := by
      simp only [observe, if_true, Prod.mk.injEq, Option.some.injEq] at h
      exact h.2.2
    have hsplit : l.buf.toList = content typed ++ 0 :: l.buf.toList.drop (l.len + 1) := by
      have h := List.take_append_drop (l.len + 1) l.buf.toList
      rw [hbuf, List.append_assoc] at h
      exact h.symm
    refine .inr ⟨rfl, by rw [hsplit]; simp, ?_⟩
    rw [if_neg (not_or_intro hblank hlong), hsplit, ofMem_nul]

theorem gateInit_shows (fw : Firmware) (bs : BoardSupport β) (g : Garbage) (storage : β)
    (printed : List String) :
    Shows (gateInit fw bs g (Gate.powerOn storage printed))
      ⟨[], bootVerdict fw bs storage, storage⟩ := by
  have hfresh : Holds [] VlLine.zero := fresh_holds (.inl rfl)
  unfold gateInit bootVerdict
  simp only [Gate.powerOn]
  cases bs.load VL_BLOB_STR_BUF_LEN storage with
  | none => exact ⟨hfresh, rfl, rfl⟩
  | some s => exact ⟨hfresh, verify_eq fw g s _, rfl⟩

theorem gateLine_shows (fw : Firmware) (bs : BoardSupport β) {m : Gate β} {d : Desk β}
    (g : Garbage) (hstorage : m.storage = d.storage) (hnul : 0 ∈ m.rx.buf.toList) :
    ∃ m', gateLine fw bs g m = some m' ∧ m'.rx = m.rx ∧
      (m'.status, m'.license) = (d.line fw bs (CStr.ofMem m.rx.buf.toList)).verdict ∧
      m'.storage = (d.line fw bs (CStr.ofMem m.rx.buf.toList)).storage := by
  unfold gateLine
  rw [if_neg (not_not.mpr hnul)]
  simp only [verify_eq, Desk.line]
  split
  · exact ⟨_, rfl, rfl, rfl, by rw [hstorage]⟩
  · exact ⟨_, rfl, rfl, rfl, hstorage⟩

/-- **A received byte.** The answer is 1 where it closes a line. -/
theorem gateUartRx_shows (fw : Firmware) (bs : BoardSupport β) {m : Gate β} {d : Desk β}
    (h : Shows m d) (g : Garbage) (ch : UInt8) :
    ∃ r m', gateUartRx fw bs g ch m = some (r, m') ∧ Shows m' (d.step fw bs (.rx g ch)) ∧
      (r = 1 ↔ isTerm ch = true ∧ (lineOf d.typed).isSome) ∧ (r = 0 ∨ r = 1) := by
  obtain ⟨st, rx, hpush, -, hterm, hother⟩ := push_spec h.rx ch
  simp only [gateUartRx, hpush, Option.bind_eq_bind, Option.bind_some, Desk.step]
  cases hc : isTerm ch with
  | false =>
    obtain ⟨rfl, hholds⟩ := hother hc
    exact ⟨0, _, rfl, ⟨hholds, h.verdict, h.storage⟩, by simp, .inl rfl⟩
  | true =>
    obtain ⟨hobs, hholds⟩ := hterm hc
    rcases lineOf_observe hobs with ⟨hst, hline⟩ | ⟨rfl, hnul, hline⟩
    · rw [if_pos hst, hline]
      exact ⟨0, _, rfl, ⟨hholds, h.verdict, h.storage⟩, by simp, .inl rfl⟩
    · have hreceived : ({ m with rx } : Gate β).storage = d.storage := h.storage
      obtain ⟨m', hm', hrx, hverdict, hstorage⟩ := gateLine_shows fw bs g hreceived hnul
      obtain ⟨rx', hreset⟩ : ∃ rx', vlLineReset (some rx) = some (some rx') := by
        rw [vlLineReset, Buf.store?_eq (by decide)]
        exact ⟨_, rfl⟩
      have hrx' : m'.rx = rx := hrx
      rw [if_neg (by simp), hline, hm']
      simp only [Option.bind_some, hrx', hreset]
      exact ⟨1, _, rfl, ⟨fresh_holds (.inr ⟨rx, hreset⟩), hverdict, hstorage⟩, by simp, .inr rfl⟩

theorem step_shows (fw : Firmware) (bs : BoardSupport β) {m : Gate β} {d : Desk β} (h : Shows m d)
    (e : GateEvent β) : ∃ m', m.step fw bs e = some m' ∧ Shows m' (d.step fw bs e) := by
  cases e with
  | boot g => exact ⟨_, rfl, h.storage ▸ gateInit_shows fw bs g m.storage m.printed⟩
  | rx g ch =>
    obtain ⟨r, m', hm', hshows, -⟩ := gateUartRx_shows fw bs h g ch
    exact ⟨m', by rw [Gate.step, hm']; rfl, hshows⟩
  | swap storage => exact ⟨_, rfl, h.rx, h.verdict, rfl⟩

/-- **A run** ends where the desk does. -/
theorem run_shows (fw : Firmware) (bs : BoardSupport β) (es : List (GateEvent β)) :
    ∀ {m : Gate β} {d : Desk β}, Shows m d →
      ∃ m', m.run fw bs es = some m' ∧ Shows m' (es.foldl (Desk.step fw bs) d) := by
  induction es with
  | nil => exact fun h => ⟨_, rfl, h⟩
  | cons e es ih =>
    intro m d h
    obtain ⟨m₁, hstep, h₁⟩ := step_shows fw bs h e
    obtain ⟨m', hrun, h'⟩ := ih h₁
    exact ⟨m', by rw [Gate.run, hstep, Option.bind_some, hrun], h'⟩

/-! ## What an open gate stands for -/

/-- A licence that the firmware accepts. -/
structure Licensed (fw : Firmware) (s : CStr) (lic : VlLicense) (segs : List (List UInt8))
    (bytes : List UInt8) : Prop where
  judged : fw.judge s = (.ok, lic)
  segments : (Board.baremetal fw.page).segments = some segs
  genuine : Genuine fw.cfg s bytes
  device : (sha256 (preimage segs)).toList.take 16 = (bytes.drop 8).take 16
  license : lic = { readPayload bytes with checked := VL_CHECKED_SIGNATURE ||| VL_CHECKED_DEVICE }

omit [Target] in
theorem checkedBits_eq (fw : Firmware) (g : Garbage) :
    checkedBits fw.cfg (fw.hal g).mask = VL_CHECKED_SIGNATURE ||| VL_CHECKED_DEVICE := by
  have hdenied : fw.cfg.revokedSerials.getD [] = [] := rfl
  have hclock : (fw.hal g).mask.nowEpoch = false := rfl
  rw [checkedBits, if_pos hdenied, if_pos hclock, UInt32.or_zero, UInt32.or_zero]

theorem judge_ok {fw : Firmware} {s : CStr} (h : (fw.judge s).1 = .ok) :
    ∃ lic segs bytes, Licensed fw s lic segs bytes := by
  have hok : (verifyOn (deviceCrypto zeroStack) (some s) (some fw.cfg)
      (some (fw.hal ⟨zeroStack, fun _ _ => Vector.replicate 255 0⟩)) (some VlLicense.zero) ()).val.1 =
        .ok := h
  obtain ⟨segs, bytes, hsegs, hgenuine, hdevice⟩ := genuine_of_board hok
  have hlic := verifyOn_license hgenuine.decodes hok
  refine ⟨(fw.judge s).2, segs, bytes, Prod.ext h rfl, hsegs, hgenuine, hdevice, ?_⟩
  rw [checkedBits_eq] at hlic
  simp only [Firmware.judge, Firmware.verify, hlic]
  rfl

/-- The string that an event puts before the firmware. -/
def Desk.presents (bs : BoardSupport β) (d : Desk β) : GateEvent β → Option CStr
  | .boot _ => bs.load VL_BLOB_STR_BUF_LEN d.storage
  | .rx _ ch => if isTerm ch = true then lineOf d.typed else none
  | .swap _ => none

/-- All strings of a run: those read at start-ups, and the lines received. -/
def Desk.seen (fw : Firmware) (bs : BoardSupport β) : Desk β → List (GateEvent β) → List CStr
  | _, [] => []
  | d, e :: es => (d.presents bs e).toList ++ (d.step fw bs e).seen fw bs es

/-- An accepting verdict is on the string of the event, or was in force before. -/
theorem step_verdict {fw : Firmware} {bs : BoardSupport β} {d : Desk β} (e : GateEvent β)
    (hok : (d.step fw bs e).verdict.1 = .ok) :
    (∃ s, d.presents bs e = some s ∧ fw.judge s = (d.step fw bs e).verdict) ∨
      (d.step fw bs e).verdict = d.verdict := by
  cases e with
  | boot g =>
    simp only [Desk.step, bootVerdict, Desk.presents] at hok ⊢
    cases hload : bs.load VL_BLOB_STR_BUF_LEN d.storage with
    | none => rw [hload] at hok; cases hok
    | some s => exact .inl ⟨s, rfl, rfl⟩
  | rx g ch =>
    by_cases h : isTerm ch = true ∧ (lineOf d.typed).isSome = true
    · obtain ⟨s, hs⟩ := Option.isSome_iff_exists.mp h.2
      rw [Desk.step_rx_line fw bs g h.1 hs]
      exact .inl ⟨s, by rw [Desk.presents, if_pos h.1, hs], rfl⟩
    · exact .inr (Desk.step_rx_open fw bs g h).1
  | swap storage => exact .inr rfl

theorem run_verdict {fw : Firmware} {bs : BoardSupport β} (es : List (GateEvent β)) :
    ∀ {d : Desk β}, (es.foldl (Desk.step fw bs) d).verdict.1 = .ok →
      (∃ s ∈ d.seen fw bs es, fw.judge s = (es.foldl (Desk.step fw bs) d).verdict) ∨
        (es.foldl (Desk.step fw bs) d).verdict = d.verdict := by
  induction es with
  | nil => exact fun _ => .inr rfl
  | cons e es ih =>
    intro d hok
    rw [List.foldl_cons] at hok ⊢
    rcases ih hok with ⟨s, hs, hjudge⟩ | hsame
    · exact .inl ⟨s, List.mem_append_right _ hs, hjudge⟩
    · rw [hsame] at hok ⊢
      rcases step_verdict e hok with ⟨s, hs, hjudge⟩ | hbefore
      · exact .inl ⟨s, List.mem_append_left _ (by simp [hs]), hjudge⟩
      · exact .inr hbefore

omit [Target] in
theorem vlHasFeature_iff (lic : VlLicense) (bit : UInt32) :
    License.vlHasFeature (some lic) bit ≠ 0 ↔
      bit.toNat < 32 ∧ lic.features.toNat.testBit bit.toNat = true := by
  unfold License.vlHasFeature
  dsimp only
  by_cases hbit : bit > 31
  · rw [if_pos hbit]
    have h32 : 31 < bit.toNat := UInt32.lt_iff_toNat_lt.mp hbit
    simp only [ne_eq, not_true_eq_false, false_iff]
    omega
  · have h32 : bit.toNat ≤ 31 := Nat.not_lt.mp fun h => hbit (UInt32.lt_iff_toNat_lt.mpr h)
    have hlt : bit.toNat < 32 := by omega
    rw [if_neg hbit, Ne, ← UInt32.toNat_inj, UInt32.toNat_and, UInt32.toNat_shiftRight,
      Nat.mod_eq_of_lt hlt]
    simp [hlt, Nat.testBit]

omit [Target] in
theorem vlStatusStr_ok {st : VlStatus} : vlStatusStr st = "ok" ↔ st = .ok := by
  cases st <;> simp [vlStatusStr]

theorem gateDeviceId_eq {fw : Firmware} {segs : List (List UInt8)}
    (h : (Board.baremetal fw.page).segments = some segs) :
    ∃ id : CStr, text id = b32 ((sha256 (preimage segs)).toList.take 16) ∧
      ∀ g cap, 27 ≤ cap → gateDeviceId fw g cap = (.ok, seqWrites (id.bytes ++ [0])) := by
  obtain ⟨id, htext, hencode⟩ := vlEncodeDeviceId_spec (sha256 (preimage segs))
  refine ⟨id, by rw [htext, deviceIdOf_toList], fun g cap hcap => ?_⟩
  have hrun := identityRun_genuine g.stack (board_yields h identityOnly g.stale ())
  rw [segmentsFp_board h] at hrun
  rw [gateDeviceId, hrun]
  exact hencode cap hcap

/-- A gate that has not been started. -/
def Desk.off (storage : β) : Desk β := ⟨[], (.errNotFound, VlLicense.zero), storage⟩

omit [Target] in
theorem powerOn_shows (storage : β) (printed : List String) :
    Shows (Gate.powerOn storage printed) (Desk.off storage) :=
  ⟨fresh_holds (.inl rfl), rfl, rfl⟩

theorem run_licensed {fw : Firmware} {bs : BoardSupport β} {m : Gate β} {storage : β}
    {es : List (GateEvent β)} (h : Shows m (es.foldl (Desk.step fw bs) (Desk.off storage)))
    (hok : m.status = .ok) : ∃ s ∈ (Desk.off storage).seen fw bs es, ∃ segs bytes,
      Licensed fw s m.license segs bytes := by
  have hverdict : (.ok, m.license) = (es.foldl (Desk.step fw bs) (Desk.off storage)).verdict :=
    hok ▸ h.verdict
  have hfrom := run_verdict es (congrArg Prod.fst hverdict).symm
  obtain ⟨s, hseen, hs⟩ := hfrom.resolve_right fun hoff => by
    rw [← hverdict] at hoff
    cases hoff
  rw [← hverdict] at hs
  obtain ⟨lic, segs, bytes, hlic⟩ := judge_ok (congrArg Prod.fst hs)
  have hsame : lic = m.license := (Prod.mk.inj (hlic.judged.symm.trans hs)).2
  exact ⟨s, hseen, segs, bytes, hsame ▸ hlic⟩

theorem gateUartRx_keeps (fw : Firmware) (bs : BoardSupport β) {m : Gate β} {d : Desk β}
    (h : Shows m d) (g : Garbage) (ch : UInt8) :
    ∃ r m', gateUartRx fw bs g ch m = some (r, m') ∧
      (r = 0 → m'.status = m.status ∧ m'.license = m.license ∧ m'.storage = m.storage) ∧
      (r ≠ 0 → ∃ s, (m'.status, m'.license) = fw.judge s ∧
        m'.storage = if m'.status = .ok then bs.save s m.storage else m.storage) := by
  obtain ⟨r, m', hm', h', hr, hbit⟩ := gateUartRx_shows fw bs h g ch
  have hverdict := h.verdict
  have hverdict' := h'.verdict
  have hstorage' := h'.storage
  refine ⟨r, m', hm', fun h0 => ?_, fun hne => ?_⟩
  · have hno : ¬ (isTerm ch = true ∧ (lineOf d.typed).isSome = true) := by
      rw [← hr, h0]
      decide
    obtain ⟨hv, hst⟩ := Desk.step_rx_open fw bs g hno
    rw [hv, ← hverdict] at hverdict'
    obtain ⟨hstatus, hlicense⟩ := Prod.mk.inj hverdict'
    exact ⟨hstatus, hlicense, by rw [hstorage', hst, h.storage]⟩
  · obtain ⟨hterm, hline⟩ := hr.mp (hbit.resolve_left hne)
    obtain ⟨s, hs⟩ := Option.isSome_iff_exists.mp hline
    rw [Desk.step_rx_line fw bs g hterm hs] at hverdict' hstorage'
    have hstatus : m'.status = (fw.judge s).1 := congrArg Prod.fst hverdict'
    refine ⟨s, hverdict', ?_⟩
    rw [hstorage', hstatus, h.storage]
    rfl

/-- **What an open gate stands for.** Every run of power cycles, bytes and exchanged blobs
ends inside the buffers. If the gate is licensed then, one of the strings of the run has a
payload that is signed by the vendor for the id this board displays, features open by the bits
of that payload alone, and no expiry is claimed to be enforced; if not, no feature is open. A
byte that closes no line changes none of this, and one that does stores the line only if it
verified. -/
theorem gate_safe (fw : Firmware) (bs : BoardSupport β) (storage : β) (printed : List String)
    (es : List (GateEvent β)) :
    ∃ m, (Gate.powerOn storage printed).run fw bs es = some m ∧
      gateExpiryEnforced m = false ∧ (gateReason m = "ok" ↔ gateLicensed m = true) ∧
      (gateLicensed m = true → ∃ s ∈ (Desk.off storage).seen fw bs es, ∃ bytes segs,
        Licensed fw s m.license segs bytes ∧
        (∀ bit, gateAllows m bit = true ↔
          bit.toNat < 32 ∧ (le32 bytes 4).toNat.testBit bit.toNat = true) ∧
        ∃ id : CStr, text id = b32 ((bytes.drop 8).take 16) ∧
          ∀ g cap, 27 ≤ cap → gateDeviceId fw g cap = (.ok, seqWrites (id.bytes ++ [0]))) ∧
      (gateLicensed m = false → ∀ bit, gateAllows m bit = false) ∧
      ∀ g ch, ∃ r m', gateUartRx fw bs g ch m = some (r, m') ∧
        (r = 0 → m'.status = m.status ∧ m'.license = m.license ∧ m'.storage = m.storage) ∧
        (r ≠ 0 → ∃ s, (m'.status, m'.license) = fw.judge s ∧
          m'.storage = if m'.status = .ok then bs.save s m.storage else m.storage) := by
  obtain ⟨m, hrun, hshows⟩ := run_shows fw bs es (powerOn_shows storage printed)
  have hlicensed : m.status = .ok → ∃ s ∈ (Desk.off storage).seen fw bs es, ∃ segs bytes,
      Licensed fw s m.license segs bytes := run_licensed hshows
  refine ⟨m, hrun, ?_, ?_, ?_, ?_, gateUartRx_keeps fw bs hshows⟩
  · by_cases hok : m.status = .ok
    · obtain ⟨s, -, segs, bytes, hlic⟩ := hlicensed hok
      have hclear : (VL_CHECKED_SIGNATURE ||| VL_CHECKED_DEVICE) &&& VL_CHECKED_TIME = 0 := by decide
      simp only [gateExpiryEnforced, hok, hlic.license, hclear, decide_true, Bool.true_and,
        ne_eq, not_true_eq_false, decide_false]
    · simp [gateExpiryEnforced, hok]
  · simp [gateReason, gateLicensed, vlStatusStr_ok]
  · intro hok
    have hok' : m.status = .ok := by simpa [gateLicensed] using hok
    obtain ⟨s, hseen, segs, bytes, hlic⟩ := hlicensed hok'
    obtain ⟨id, htext, hid⟩ := gateDeviceId_eq hlic.segments
    refine ⟨s, hseen, bytes, segs, hlic, fun bit => ?_, id, by rw [htext, hlic.device], hid⟩
    have hfeatures : m.license.features = le32 bytes 4 := by
      rw [hlic.license]
      exact rdLe32_eq (by simp [hlic.genuine.decodes.1, OFF_FEATURES])
    simp only [gateAllows, hok', decide_true, Bool.true_and, decide_eq_true_eq, vlHasFeature_iff,
      hfeatures]
  · intro hno bit
    have hno' : m.status ≠ .ok := by simpa [gateLicensed] using hno
    simp [gateAllows, hno']

end

end VectiLicense.L8
