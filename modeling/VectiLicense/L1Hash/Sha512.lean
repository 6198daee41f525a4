import VectiLicense.L1Hash.Sha256

/-!
# SHA-512: `core/vl_sha512.c`

The same shape as SHA-256 over 64-bit words: blocks of 128 bytes, 80 rounds,
a length field of 128 bits. The counter counts bytes, and `final` turns it into
the two halves of the number of bits.

* `vlSha512Update_spec`, `vlSha512Final_spec`: a context that has read `m`
  returns `sha512 m`, however the input was cut.
-/
namespace VectiLicense.L1.Hash

open VectiLicense.Core

/-! ## The compression function -/

/-- mirrors core/vl_sha512.c:13-41 -/
def K512 : List UInt64 := [
  0x428a2f98d728ae22, 0x7137449123ef65cd, 0xb5c0fbcfec4d3b2f, 0xe9b5dba58189dbbc,
  0x3956c25bf348b538, 0x59f111f1b605d019, 0x923f82a4af194f9b, 0xab1c5ed5da6d8118,
  0xd807aa98a3030242, 0x12835b0145706fbe, 0x243185be4ee4b28c, 0x550c7dc3d5ffb4e2,
  0x72be5d74f27b896f, 0x80deb1fe3b1696b1, 0x9bdc06a725c71235, 0xc19bf174cf692694,
  0xe49b69c19ef14ad2, 0xefbe4786384f25e3, 0x0fc19dc68b8cd5b5, 0x240ca1cc77ac9c65,
  0x2de92c6f592b0275, 0x4a7484aa6ea6e483, 0x5cb0a9dcbd41fbd4, 0x76f988da831153b5,
  0x983e5152ee66dfab, 0xa831c66d2db43210, 0xb00327c898fb213f, 0xbf597fc7beef0ee4,
  0xc6e00bf33da88fc2, 0xd5a79147930aa725, 0x06ca6351e003826f, 0x142929670a0e6e70,
  0x27b70a8546d22ffc, 0x2e1b21385c26c926, 0x4d2c6dfc5ac42aed, 0x53380d139d95b3df,
  0x650a73548baf63de, 0x766a0abb3c77b2a8, 0x81c2c92e47edaee6, 0x92722c851482353b,
  0xa2bfe8a14cf10364, 0xa81a664bbc423001, 0xc24b8b70d0f89791, 0xc76c51a30654be30,
  0xd192e819d6ef5218, 0xd69906245565a910, 0xf40e35855771202a, 0x106aa07032bbd1b8,
  0x19a4c116b8d2d0c8, 0x1e376c085141ab53, 0x2748774cdf8eeb99, 0x34b0bcb5e19b48a8,
  0x391c0cb3c5c95a63, 0x4ed8aa4ae3418acb, 0x5b9cca4f7763e373, 0x682e6ff3d6b2b8a3,
  0x748f82ee5defb2fc, 0x78a5636f43172f60, 0x84c87814a1f0ab72, 0x8cc702081a6439ec,
  0x90befffa23631e28, 0xa4506cebde82bde9, 0xbef9a3f7b2c67915, 0xc67178f2e372532b,
  0xca273eceea26619c, 0xd186b8c721c0c207, 0xeada7dd6cde0eb1e, 0xf57d4f7fee6ed178,
  0x06f067aa72176fba, 0x0a637dc5a2c898a6, 0x113f9804bef90dae, 0x1b710b35131c471b,
  0x28db77f523047d84, 0x32caab7b40c72493, 0x3c9ebe0a15c9bebc, 0x431d67c49c100d4c,
  0x4cc5d4becb3e42b6, 0x597f299cfc657e2a, 0x5fcb6fab3ad6faec, 0x6c44198c4a475817]

/-- mirrors core/vl_sha512.c:43-46 -/
def rotr64 (x n : UInt64) : UInt64 := (x >>> n) ||| (x <<< (64 - n))

/-- `w[i]` for `i < 16`.
mirrors core/vl_sha512.c:54-60 -/
def loadWord64 (block : List UInt8) (i : Nat) : UInt64 :=
  (List.range 8).foldl (fun v j => (v <<< 8) ||| (block.getD (i * 8 + j) 0).toUInt64) 0

/-- `w[i]` from the words before it, for `16 ≤ i`.
mirrors core/vl_sha512.c:61-65 -/
def nextWord64 (w : List UInt64) (i : Nat) : UInt64 :=
  let w15 := w.getD (i - 15) 0
  let w2 := w.getD (i - 2) 0
  let s0 := rotr64 w15 1 ^^^ rotr64 w15 8 ^^^ (w15 >>> 7)
  let s1 := rotr64 w2 19 ^^^ rotr64 w2 61 ^^^ (w2 >>> 6)
  w.getD (i - 16) 0 + s0 + w.getD (i - 7) 0 + s1

/-- mirrors core/vl_sha512.c:54-65 -/
def schedule64 (block : List UInt8) : List UInt64 :=
  (List.range' 16 64).foldl (fun w i => w ++ [nextWord64 w i])
    ((List.range 16).map (loadWord64 block))

/-- The working variables. -/
structure Regs64 where
  (a b c d e f g h : UInt64)

/-- mirrors core/vl_sha512.c:70-81 -/
def Regs64.round (r : Regs64) (k w : UInt64) : Regs64 :=
  let S1 := rotr64 r.e 14 ^^^ rotr64 r.e 18 ^^^ rotr64 r.e 41
  let ch := (r.e &&& r.f) ^^^ (~~~r.e &&& r.g)
  let t1 := r.h + S1 + ch + k + w
  let S0 := rotr64 r.a 28 ^^^ rotr64 r.a 34 ^^^ rotr64 r.a 39
  let maj := (r.a &&& r.b) ^^^ (r.a &&& r.c) ^^^ (r.b &&& r.c)
  let t2 := S0 + maj
  ⟨t1 + t2, r.a, r.b, r.c, r.d + t1, r.e, r.f, r.g⟩

/-- mirrors core/vl_sha512.c:48-87 -/
def sha512Compress (state : Vector UInt64 8) (block : List UInt8) : Vector UInt64 8 :=
  let w := schedule64 block
  let start : Regs64 :=
    ⟨state.get 0, state.get 1, state.get 2, state.get 3,
      state.get 4, state.get 5, state.get 6, state.get 7⟩
  let r := (List.range 80).foldl (fun r i => Regs64.round r (K512.getD i 0) (w.getD i 0)) start
  #v[state.get 0 + r.a, state.get 1 + r.b, state.get 2 + r.c, state.get 3 + r.d,
    state.get 4 + r.e, state.get 5 + r.f, state.get 6 + r.g, state.get 7 + r.h]

/-! ## The calls -/

/-- mirrors core/vl_sha512.c:94-101 -/
def SHA512_IV : Vector UInt64 8 := #v[
  0x6a09e667f3bcc908, 0xbb67ae8584caa73b, 0x3c6ef372fe94f82b, 0xa54ff53a5f1d36f1,
  0x510e527fade682d1, 0x9b05688c2b3e6c1f, 0x1f83d9abfb41bd6b, 0x5be0cd19137e2179]

/-- mirrors core/vl_sha512.h:23-28 -/
abbrev VlSha512Ctx := HashCtx (Vector UInt64 8) 128

/-- The buffer keeps what the memory held.
mirrors core/vl_sha512.c:89-104 -/
def vlSha512Init (buffer : Buf 128) : VlSha512Ctx := ⟨SHA512_IV, 0, buffer, 0⟩

/-- mirrors core/vl_sha512.c:106-145 -/
def vlSha512Update (ctx : VlSha512Ctx) (data : Option (List UInt8)) : Option VlSha512Ctx :=
  hashUpdate sha512Compress 1 ctx data

/-- `hi` and `lo`, each written backwards from its last byte.
mirrors core/vl_sha512.c:157-158, 167-172 -/
def lengthField128 (byteCount : UInt64) : List UInt8 :=
  lengthField 8 (byteCount >>> 61) ++ lengthField 8 (byteCount <<< 3)

/-- mirrors core/vl_sha512.c:175-180 -/
def digestBytes64 (state : Vector UInt64 8) : Vector UInt8 64 :=
  Vector.ofFn fun i => (state[i.val / 8] >>> UInt64.ofNat (56 - 8 * (i.val % 8))).toUInt8

theorem digestBytes64_toList (state : Vector UInt64 8) :
    (digestBytes64 state).toList = state.toList.flatMap fun w => beBytes 8 w.toNat := by
  refine toList_eq_beBytes (by decide) (by decide : 8 * 8 = 64) UInt64.toNat state (digestBytes64 state)
    fun i hi hdiv => ?_
  have hmod := Nat.mod_lt i (by decide : 0 < 8)
  have hshift : 8 * (8 - 1 - i % 8) = 56 - 8 * (i % 8) := by omega
  rw [digestBytes64, Vector.getElem_ofFn, hshift]
  apply UInt8.toNat.inj
  have hword : (56 - 8 * (i % 8)) % 18446744073709551616 % 64 = 56 - 8 * (i % 8) := by omega
  simp [hword]

/-- What is stored through `out`; neither pointer is NULL.
mirrors core/vl_sha512.c:147-182 -/
def vlSha512Final (ctx : VlSha512Ctx) : Option (Vector UInt8 64) :=
  (hashFinal sha512Compress 112 (lengthField128 ctx.count) ctx).map digestBytes64

/-! ## The definition of the standard -/

/-- SHA-512 of a message. -/
def sha512 (m : List UInt8) : Vector UInt8 64 :=
  digestBytes64 (absorb 128 sha512Compress SHA512_IV
    (m ++ mdPad 128 112 m.length (beBytes 16 (8 * m.length))))

/-- The context has read `m`. -/
abbrev Sha512Read (m : List UInt8) (ctx : VlSha512Ctx) : Prop :=
  Streamed sha512Compress SHA512_IV 1 m ctx

theorem vlSha512Init_spec (buffer : Buf 128) : Sha512Read [] (vlSha512Init buffer) :=
  ⟨Absorbed.init (by decide) SHA512_IV, (by decide : 0 < 128), rfl⟩

theorem vlSha512Update_spec {m : List UInt8} {ctx : VlSha512Ctx} (h : Sha512Read m ctx)
    (data : Option (List UInt8)) :
    ∃ ctx', vlSha512Update ctx data = some ctx' ∧ Sha512Read (m ++ data.getD []) ctx' :=
  hashUpdate_spec h data

/-- The two halves are the number of bits, as long as the counter has not wrapped. -/
theorem lengthField128_eq (byteCount : UInt64) :
    lengthField128 byteCount = beBytes 16 (8 * byteCount.toNat) := by
  have hlt := byteCount.toNat_lt
  have hhi : (byteCount >>> 61).toNat = 8 * byteCount.toNat / 2 ^ (8 * 8) := by
    rw [UInt64.toNat_shiftRight]
    have hshift := Nat.shiftRight_eq_div_pow byteCount.toNat 61
    change byteCount.toNat >>> 61 = _
    omega
  have hlo : (byteCount <<< 3).toNat = 8 * byteCount.toNat % 2 ^ (8 * 8) := by
    rw [UInt64.toNat_shiftLeft]
    have hshift := Nat.shiftLeft_eq byteCount.toNat 3
    change byteCount.toNat <<< 3 % 2 ^ 64 = _
    omega
  rw [lengthField128, lengthField_eq, lengthField_eq, hhi, hlo, beBytes_add 8 8]
  congr 1
  rw [beBytes, beBytes, leBytes_mod]

/-- Whatever the length, the digest is a function of the message. -/
theorem vlSha512Final_total (m : List UInt8) :
    ∃ out, (∀ ctx, Sha512Read m ctx → vlSha512Final ctx = some out) ∧
      (m.length < 2 ^ 64 → out = sha512 m) := by
  refine ⟨digestBytes64 (absorb 128 sha512Compress SHA512_IV
    (m ++ mdPad 128 112 m.length (beBytes 16 (8 * (UInt64.ofNat m.length).toNat)))), ?_, ?_⟩
  · intro ctx h
    have hcount : ctx.count = UInt64.ofNat m.length := h.count.trans (UInt64.mul_one _)
    rw [vlSha512Final, lengthField128_eq, hcount,
      hashFinal_spec (by decide) (by simp) h.absorbed h.len]
    rfl
  · intro hlen
    rw [sha512, UInt64.toNat_ofNat', Nat.mod_eq_of_lt hlen]

theorem vlSha512Final_spec {m : List UInt8} {ctx : VlSha512Ctx} (h : Sha512Read m ctx)
    (hlen : m.length < 2 ^ 64) : vlSha512Final ctx = some (sha512 m) := by
  obtain ⟨out, hfinal, hout⟩ := vlSha512Final_total m
  rw [hfinal ctx h, hout hlen]

/-- The standard's first example. -/
example : (sha512 [0x61, 0x62, 0x63]).toList.take 8 =
    [0xdd, 0xaf, 0x35, 0xa1, 0x93, 0x61, 0x7a, 0xba] := by
  decide +kernel

end VectiLicense.L1.Hash
