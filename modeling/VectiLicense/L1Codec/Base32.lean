import VectiLicense.Core.Mem
import VectiLicense.Core.Bits

/-!
# Crockford base32: `core/vl_base32.c`

`vlBase32Encode` and `vlBase32Decode` as the code computes them: a 32-bit
shift register `buffer` with `bits` live bits, fed 8 bits and drained 5 at a
time by the encoder, fed 5 and drained 8 by the decoder. `size_t` arithmetic
that can wrap (`VL_BASE32_CHARS`) is done modulo the width of `size_t`, a
parameter of the target. Every store through `out` and every index of `in`
that is read goes to a log.

The second half is about single characters: which bytes are grouping
characters, which are symbols, what value a symbol has, and how the encoder's
alphabet and the decoder's folding of case and aliases fit together
(`alpha_val`, `val_alpha`).
-/
namespace VectiLicense.L1.Base32

open VectiLicense.Core

/-- The width of `size_t`; C99 7.18.3 makes `SIZE_MAX` at least 65535. -/
class Target where
  sizeBits : Nat
  sizeBits_ge : 16 ≤ sizeBits

/-- A host with a 64-bit `size_t`. -/
abbrev host64 : Target := ⟨64, by decide⟩

/-- mirrors core/vl_base32.h:18 -/
def VL_BASE32_MAX_INPUT : Nat := 1024

/-- `(((n) * 8u + 4u) / 5u)` in `size_t`.
mirrors core/vl_base32.h:21 -/
def vlBase32Chars [Target] (n : Nat) : Nat := (n * 8 + 4) % 2 ^ Target.sizeBits / 5

/-- `0-9A-HJKMNP-TV-Z`.
mirrors core/vl_base32.c:19-24 -/
def ENC_ALPHA : List UInt8 := [
  0x30, 0x31, 0x32, 0x33, 0x34, 0x35, 0x36, 0x37, 0x38, 0x39,
  0x41, 0x42, 0x43, 0x44, 0x45, 0x46, 0x47, 0x48, 0x4A, 0x4B,
  0x4D, 0x4E, 0x50, 0x51, 0x52, 0x53, 0x54, 0x56, 0x57, 0x58,
  0x59, 0x5A]

/-- mirrors core/vl_base32.c:29-32 -/
def A2V : List Int := [
  10, 11, 12, 13, 14, 15, 16, 17,  1, 18, 19,  1, 20,
  21,  0, 22, 23, 24, 25, 26, -1, 27, 28, 29, 30, 31]

/-- mirrors core/vl_base32.c:36-53 -/
def b32Val (ch : UInt8) : Int :=
  if ch = 0x2D ∨ ch = 0x20 ∨ ch = 0x09 ∨ ch = 0x0D ∨ ch = 0x0A then -2
  else if 0x30 ≤ ch ∧ ch ≤ 0x39 then ((ch - 0x30).toNat : Int)
  else
    let c := if 0x61 ≤ ch ∧ ch ≤ 0x7A then ch - 32 else ch
    if 0x41 ≤ c ∧ c ≤ 0x5A then A2V.getD (c - 0x41).toNat (-1)
    else -1

/-- `ENC_ALPHA[x & 0x1F]`. -/
def alpha (x : UInt32) : UInt8 := ENC_ALPHA.getD (x &&& 0x1F).toNat 0

/-! ## The encoder -/

/-- The encoder's locals after some input bytes; `chars` is what has been
stored so far, so `out_idx` is its length. -/
structure EncodeSt where
  buffer : UInt32
  bits : Nat
  chars : List UInt8
  deriving DecidableEq, Repr

/-- `while (bits >= 5u) { bits -= 5u; out[out_idx++] = …; }`.
mirrors core/vl_base32.c:78-81 -/
def encodeDrain (buffer : UInt32) : Nat → List UInt8 → EncodeSt
  | bits + 5, chars => encodeDrain buffer bits (chars ++ [alpha (buffer >>> UInt32.ofNat bits)])
  | bits, chars => ⟨buffer, bits, chars⟩

/-- mirrors core/vl_base32.c:75-82 -/
def encodeByte (st : EncodeSt) (b : UInt8) : EncodeSt :=
  encodeDrain ((st.buffer <<< 8) ||| b.toUInt32) (st.bits + 8) st.chars

/-- A return value, `none` for -1, and the stores through `out`. -/
structure EncodeResult where
  ret : Option Nat
  writes : Writes
  deriving DecidableEq, Repr

/-- mirrors core/vl_base32.c:55-88 -/
def vlBase32Encode [Target] (inp : Option (List UInt8)) (out : OutPtr) (outCapacity : Nat) :
    EncodeResult :=
  match inp, out with
  | none, _ => ⟨none, []⟩
  | _, .null => ⟨none, []⟩
  | some inp, .buf =>
    if inp.length > VL_BASE32_MAX_INPUT / 2 then ⟨none, []⟩
    else if outCapacity < vlBase32Chars inp.length + 1 then ⟨none, []⟩
    else
      let st := inp.foldl encodeByte ⟨0, 0, []⟩
      let chars :=
        if st.bits > 0 then st.chars ++ [alpha (st.buffer <<< UInt32.ofNat (5 - st.bits))]
        else st.chars
      ⟨some chars.length, seqWrites (chars ++ [0])⟩

/-! ## The decoder -/

/-- The decoder's locals, with the logs of indices of `in` read and of stores
through `out`. -/
structure DecodeSt where
  buffer : UInt32
  bits : Nat
  outIdx : Nat
  chars : Nat
  writes : Writes
  deriving DecidableEq, Repr

/-- `(uint8_t)((buffer >> bits) & 0xFFu)`. -/
def topByte (buffer : UInt32) (bits : Nat) : UInt8 :=
  ((buffer >>> UInt32.ofNat bits) &&& 0xFF).toUInt8

/-- One character that is not the NUL: the loop body after the scan bound.
`error` is `return -1`.
mirrors core/vl_base32.c:112-128 -/
def decodeChar (outCapacity : Nat) (st : DecodeSt) (ch : UInt8) : Except DecodeSt DecodeSt :=
  let v := b32Val ch
  if v = -2 then .ok st
  else if v < 0 then .error st
  else
    let buffer := (st.buffer <<< 5) ||| UInt32.ofNat v.toNat
    let bits := st.bits + 5
    let st := { st with buffer, bits, chars := st.chars + 1 }
    if bits ≥ 8 then
      let bits := bits - 8
      if st.outIdx ≥ outCapacity then .error { st with bits }
      else .ok { st with
        bits, outIdx := st.outIdx + 1,
        writes := st.writes ++ [(st.outIdx, topByte buffer bits)] }
    else .ok st

/-- `for (scanned = 0; in[scanned] != '\0'; scanned++)`, from `scanned` with
`rest` still to come before the NUL; the list is the indices of `in` read.
mirrors core/vl_base32.c:107-129 -/
def decodeLoop (outCapacity : Nat) : List UInt8 → Nat → DecodeSt →
    List Nat × Except DecodeSt DecodeSt
  | [], scanned, st => ([scanned], .ok st)
  | ch :: rest, scanned, st =>
    if scanned ≥ VL_BASE32_MAX_INPUT then ([scanned], .error st)
    else
      match decodeChar outCapacity st ch with
      | .error st => ([scanned], .error st)
      | .ok st =>
        let (reads, r) := decodeLoop outCapacity rest (scanned + 1) st
        (scanned :: reads, r)

/-- A return value, `none` for -1, the indices of `in` read, and the stores
through `out`. -/
structure DecodeResult where
  ret : Option Nat
  reads : List Nat
  writes : Writes
  deriving DecidableEq, Repr

/-- What follows the loop: pad bits, then the strict length contract.
mirrors core/vl_base32.c:131-145 -/
def decodeFinish [Target] (expectBytes : Nat) (st : DecodeSt) : Option Nat :=
  if st.bits > 0 ∧ st.buffer &&& ((1 <<< UInt32.ofNat st.bits) - 1) ≠ 0 then none
  else if expectBytes ≠ 0 ∧ st.chars ≠ vlBase32Chars expectBytes then none
  else if expectBytes ≠ 0 ∧ st.outIdx ≠ expectBytes then none
  else some st.outIdx

/-- mirrors core/vl_base32.c:90-146 -/
def vlBase32Decode [Target] (inp : Option CStr) (out : OutPtr) (outCapacity expectBytes : Nat) :
    DecodeResult :=
  match inp, out with
  | none, _ => ⟨none, [], []⟩
  | _, .null => ⟨none, [], []⟩
  | some inp, .buf =>
    if expectBytes ≠ 0 ∧ outCapacity < expectBytes then ⟨none, [], []⟩
    else
      match decodeLoop outCapacity inp.bytes 0 ⟨0, 0, 0, 0, []⟩ with
      | (reads, .error st) => ⟨none, reads, st.writes⟩
      | (reads, .ok st) => ⟨decodeFinish expectBytes st, reads, st.writes⟩

/-! ## Characters -/

/-- `-`, space, tab, CR, LF. -/
def IsGrouping (c : UInt8) : Prop := c = 0x2D ∨ c = 0x20 ∨ c = 0x09 ∨ c = 0x0D ∨ c = 0x0A

/-- `0-9`, `A-Z`, `a-z`, except `U` and `u`. -/
def IsSymbol (c : UInt8) : Prop :=
  ((0x30 ≤ c ∧ c ≤ 0x39) ∨ (0x41 ≤ c ∧ c ≤ 0x5A) ∨ (0x61 ≤ c ∧ c ≤ 0x7A)) ∧ c ≠ 0x55 ∧ c ≠ 0x75

instance (c : UInt8) : Decidable (IsGrouping c) :=
  inferInstanceAs (Decidable (_ ∨ _))
instance (c : UInt8) : Decidable (IsSymbol c) :=
  inferInstanceAs (Decidable (_ ∧ _))

/-- The 5-bit value of a symbol. -/
def symVal (c : UInt8) : Nat := (b32Val c).toNat

/-- Upper case, with the aliases `I`, `L` and `O` folded. -/
def foldChar (c : UInt8) : UInt8 :=
  let c := if 0x61 ≤ c ∧ c ≤ 0x7A then c - 32 else c
  if c = 0x49 ∨ c = 0x4C then 0x31 else if c = 0x4F then 0x30 else c

theorem forall_byte {P : UInt8 → Prop} (h : ∀ n : Fin 256, P (UInt8.ofNat n)) (c : UInt8) : P c := by
  have := h ⟨c.toNat, c.toNat_lt⟩
  simpa using this

/-- A byte is a grouping character, a symbol with a value below 32, or refused. -/
theorem b32Val_cases (c : UInt8) :
    (IsGrouping c ∧ b32Val c = -2) ∨
    (¬ IsGrouping c ∧ IsSymbol c ∧ b32Val c = (symVal c : Int) ∧ symVal c < 32) ∨
    (¬ IsGrouping c ∧ ¬ IsSymbol c ∧ b32Val c = -1) := by
  refine forall_byte (P := fun c => (IsGrouping c ∧ b32Val c = -2) ∨
    (¬ IsGrouping c ∧ IsSymbol c ∧ b32Val c = (symVal c : Int) ∧ symVal c < 32) ∨
    (¬ IsGrouping c ∧ ¬ IsSymbol c ∧ b32Val c = -1)) ?_ c
  decide +kernel

/-- The alphabet character of a symbol's value is the symbol, folded. -/
theorem alpha_val (c : UInt8) (h : IsSymbol c) : alpha (UInt32.ofNat (symVal c)) = foldChar c := by
  revert h
  refine forall_byte (P := fun c => IsSymbol c → alpha (UInt32.ofNat (symVal c)) = foldChar c) ?_ c
  decide +kernel

theorem val_alpha (v : Nat) (h : v < 32) :
    IsSymbol (alpha (UInt32.ofNat v)) ∧ ¬ IsGrouping (alpha (UInt32.ofNat v)) ∧
      alpha (UInt32.ofNat v) ≠ 0 ∧ symVal (alpha (UInt32.ofNat v)) = v := by
  have key : ∀ v : Fin 32, IsSymbol (alpha (UInt32.ofNat v)) ∧
      ¬ IsGrouping (alpha (UInt32.ofNat v)) ∧ alpha (UInt32.ofNat v) ≠ 0 ∧
      symVal (alpha (UInt32.ofNat v)) = v := by decide +kernel
  exact key ⟨v, h⟩

end VectiLicense.L1.Base32
