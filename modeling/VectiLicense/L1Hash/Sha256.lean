import VectiLicense.Core.Bits
import VectiLicense.L1Hash.Stream

/-!
# SHA-256: `core/vl_sha256.c`

The compression function as the code computes it, and the three calls as
instances of the streaming hash. `sha256` is what FIPS 180-4 defines: the fold
of the compression function over the padded message, from the standard initial
value.

* `vlSha256Update_spec`, `vlSha256Final_spec`: a context that has read `m`
  returns `sha256 m`, however the input was cut.
-/
namespace VectiLicense.L1.Hash

open VectiLicense.Core

/-! ## The compression function -/

/-- mirrors core/vl_sha256.c:16-28 -/
def K256 : List UInt32 := [
  0x428a2f98, 0x71374491, 0xb5c0fbcf, 0xe9b5dba5, 0x3956c25b, 0x59f111f1, 0x923f82a4, 0xab1c5ed5,
  0xd807aa98, 0x12835b01, 0x243185be, 0x550c7dc3, 0x72be5d74, 0x80deb1fe, 0x9bdc06a7, 0xc19bf174,
  0xe49b69c1, 0xefbe4786, 0x0fc19dc6, 0x240ca1cc, 0x2de92c6f, 0x4a7484aa, 0x5cb0a9dc, 0x76f988da,
  0x983e5152, 0xa831c66d, 0xb00327c8, 0xbf597fc7, 0xc6e00bf3, 0xd5a79147, 0x06ca6351, 0x14292967,
  0x27b70a85, 0x2e1b2138, 0x4d2c6dfc, 0x53380d13, 0x650a7354, 0x766a0abb, 0x81c2c92e, 0x92722c85,
  0xa2bfe8a1, 0xa81a664b, 0xc24b8b70, 0xc76c51a3, 0xd192e819, 0xd6990624, 0xf40e3585, 0x106aa070,
  0x19a4c116, 0x1e376c08, 0x2748774c, 0x34b0bcb5, 0x391c0cb3, 0x4ed8aa4a, 0x5b9cca4f, 0x682e6ff3,
  0x748f82ee, 0x78a5636f, 0x84c87814, 0x8cc70208, 0x90befffa, 0xa4506ceb, 0xbef9a3f7, 0xc67178f2]

/-- mirrors core/vl_sha256.c:30-33 -/
def rotr32 (x n : UInt32) : UInt32 := (x >>> n) ||| (x <<< (32 - n))

/-- `w[i]` for `i < 16`.
mirrors core/vl_sha256.c:41-46 -/
def loadWord (block : List UInt8) (i : Nat) : UInt32 :=
  ((block.getD (i * 4) 0).toUInt32 <<< 24) ||| ((block.getD (i * 4 + 1) 0).toUInt32 <<< 16) |||
    ((block.getD (i * 4 + 2) 0).toUInt32 <<< 8) ||| (block.getD (i * 4 + 3) 0).toUInt32

/-- `w[i]` from the words before it, for `16 ≤ i`.
mirrors core/vl_sha256.c:48-50 -/
def nextWord (w : List UInt32) (i : Nat) : UInt32 :=
  let w15 := w.getD (i - 15) 0
  let w2 := w.getD (i - 2) 0
  let s0 := rotr32 w15 7 ^^^ rotr32 w15 18 ^^^ (w15 >>> 3)
  let s1 := rotr32 w2 17 ^^^ rotr32 w2 19 ^^^ (w2 >>> 10)
  w.getD (i - 16) 0 + s0 + w.getD (i - 7) 0 + s1

/-- mirrors core/vl_sha256.c:37-51 -/
def schedule (block : List UInt8) : List UInt32 :=
  (List.range' 16 48).foldl (fun w i => w ++ [nextWord w i]) ((List.range 16).map (loadWord block))

/-- The working variables. -/
structure Regs where
  (a b c d e f g h : UInt32)

/-- mirrors core/vl_sha256.c:56-66 -/
def Regs.round (r : Regs) (k w : UInt32) : Regs :=
  let S1 := rotr32 r.e 6 ^^^ rotr32 r.e 11 ^^^ rotr32 r.e 25
  let ch := (r.e &&& r.f) ^^^ (~~~r.e &&& r.g)
  let t1 := r.h + S1 + ch + k + w
  let S0 := rotr32 r.a 2 ^^^ rotr32 r.a 13 ^^^ rotr32 r.a 22
  let maj := (r.a &&& r.b) ^^^ (r.a &&& r.c) ^^^ (r.b &&& r.c)
  let t2 := S0 + maj
  ⟨t1 + t2, r.a, r.b, r.c, r.d + t1, r.e, r.f, r.g⟩

/-- mirrors core/vl_sha256.c:35-72 -/
def sha256Compress (state : Vector UInt32 8) (block : List UInt8) : Vector UInt32 8 :=
  let w := schedule block
  let start : Regs :=
    ⟨state[0], state[1], state[2], state[3], state[4], state[5], state[6], state[7]⟩
  let r := (List.range 64).foldl (fun r i => Regs.round r (K256.getD i 0) (w.getD i 0)) start
  #v[state[0] + r.a, state[1] + r.b, state[2] + r.c, state[3] + r.d,
    state[4] + r.e, state[5] + r.f, state[6] + r.g, state[7] + r.h]

/-! ## The calls -/

/-- mirrors core/vl_sha256.c:79-86 -/
def SHA256_IV : Vector UInt32 8 := #v[
  0x6a09e667, 0xbb67ae85, 0x3c6ef372, 0xa54ff53a, 0x510e527f, 0x9b05688c, 0x1f83d9ab, 0x5be0cd19]

/-- mirrors core/vl_sha256.h:20-25 -/
abbrev VlSha256Ctx := HashCtx (Vector UInt32 8) 64

/-- The buffer keeps what the memory held.
mirrors core/vl_sha256.c:74-89 -/
def vlSha256Init (buffer : Buf 64) : VlSha256Ctx := ⟨SHA256_IV, 0, buffer, 0⟩

/-- mirrors core/vl_sha256.c:91-133 -/
def vlSha256Update (ctx : VlSha256Ctx) (data : Option (List UInt8)) : Option VlSha256Ctx :=
  hashUpdate sha256Compress 8 ctx data

/-- `buffer[63 - i] = bits & 0xFF; bits >>= 8`, for `n` bytes.
mirrors core/vl_sha256.c:155-158 -/
def lengthField : (n : Nat) → UInt64 → List UInt8
  | 0, _ => []
  | n + 1, bits => lengthField n (bits >>> 8) ++ [(bits &&& 0xFF).toUInt8]

/-- mirrors core/vl_sha256.c:161-166 -/
def digestBytes (state : Vector UInt32 8) : Vector UInt8 32 :=
  Vector.ofFn fun i => (state[i.val / 4] >>> UInt32.ofNat (24 - 8 * (i.val % 4))).toUInt8

/-- The digest is the state's words, each most significant byte first. -/
theorem digestBytes_toList (state : Vector UInt32 8) :
    (digestBytes state).toList = state.toList.flatMap fun w => beBytes 4 w.toNat := by
  refine toList_eq_beBytes (by decide) (by decide : 8 * 4 = 32) UInt32.toNat state (digestBytes state)
    fun i hi hdiv => ?_
  have hmod := Nat.mod_lt i (by decide : 0 < 4)
  have hshift : 8 * (4 - 1 - i % 4) = 24 - 8 * (i % 4) := by omega
  rw [digestBytes, Vector.getElem_ofFn, hshift]
  apply UInt8.toNat.inj
  have hword : (24 - 8 * (i % 4)) % 4294967296 % 32 = 24 - 8 * (i % 4) := by omega
  simp [hword]

/-- What is stored through `out`; neither pointer is NULL.
mirrors core/vl_sha256.c:135-168 -/
def vlSha256Final (ctx : VlSha256Ctx) : Option (Vector UInt8 32) :=
  (hashFinal sha256Compress 56 (lengthField 8 ctx.count) ctx).map digestBytes

/-! ## The definition of the standard -/

/-- SHA-256 of a message. -/
def sha256 (m : List UInt8) : Vector UInt8 32 :=
  digestBytes (absorb 64 sha256Compress SHA256_IV
    (m ++ mdPad 64 56 m.length (beBytes 8 (8 * m.length))))

/-- The context has read `m`. -/
abbrev Sha256Read (m : List UInt8) (ctx : VlSha256Ctx) : Prop :=
  Streamed sha256Compress SHA256_IV 8 m ctx

theorem vlSha256Init_spec (buffer : Buf 64) : Sha256Read [] (vlSha256Init buffer) :=
  ⟨Absorbed.init (by decide) SHA256_IV, (by decide : 0 < 64), rfl⟩

theorem vlSha256Update_spec {m : List UInt8} {ctx : VlSha256Ctx} (h : Sha256Read m ctx)
    (data : Option (List UInt8)) :
    ∃ ctx', vlSha256Update ctx data = some ctx' ∧ Sha256Read (m ++ data.getD []) ctx' :=
  hashUpdate_spec h data

theorem lengthField_eq (n : Nat) (bits : UInt64) : lengthField n bits = beBytes n bits.toNat := by
  induction n generalizing bits with
  | zero => rfl
  | succ n ih =>
    have hshift : (bits >>> 8).toNat = bits.toNat / 2 ^ 8 := by
      rw [UInt64.toNat_shiftRight]
      exact Nat.shiftRight_eq_div_pow _ _
    have hbyte : (bits &&& 0xFF).toUInt8 = UInt8.ofNat bits.toNat := by
      apply UInt8.toNat_inj.mp
      rw [UInt64.toNat_toUInt8, UInt64.toNat_and, UInt8.toNat_ofNat']
      have hmask : bits.toNat &&& (0xFF : UInt64).toNat = bits.toNat % 2 ^ 8 :=
        Nat.and_two_pow_sub_one_eq_mod _ 8
      rw [hmask, Nat.mod_mod]
    rw [lengthField, ih, hshift, hbyte, beBytes, beBytes, leBytes, List.reverse_cons]

theorem vlSha256Final_spec {m : List UInt8} {ctx : VlSha256Ctx} (h : Sha256Read m ctx) :
    vlSha256Final ctx = some (sha256 m) := by
  have hcount : ctx.count.toNat = 8 * m.length % 2 ^ (8 * 8) := by
    rw [h.count, UInt64.toNat_mul, UInt64.toNat_ofNat', Nat.mod_mul_mod, Nat.mul_comm]
    rfl
  have hfield : lengthField 8 ctx.count = beBytes 8 (8 * m.length) := by
    rw [lengthField_eq, hcount, beBytes, beBytes, leBytes_mod]
  rw [vlSha256Final, hfield, hashFinal_spec (by decide) (by simp) h.absorbed h.len]
  rfl

/-- The standard's first example. -/
example : sha256 [0x61, 0x62, 0x63] = #v[
    0xba, 0x78, 0x16, 0xbf, 0x8f, 0x01, 0xcf, 0xea, 0x41, 0x41, 0x40, 0xde, 0x5d, 0xae, 0x22, 0x23,
    0xb0, 0x03, 0x61, 0xa3, 0x96, 0x17, 0x7a, 0x9c, 0xb4, 0x10, 0xff, 0x61, 0xf2, 0x00, 0x15, 0xad]
    := by
  decide +kernel

end VectiLicense.L1.Hash
