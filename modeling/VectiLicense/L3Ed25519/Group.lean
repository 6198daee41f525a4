import Mathlib.NumberTheory.LegendreSymbol.Basic
import VectiLicense.Core.Edwards
import VectiLicense.L3Ed25519.Field

/-!
# The group of `core/vl_ed25519.c`

`gf p[4]` holds extended coordinates. `add` is the unified addition of the
complete curve, so it adds whatever it is given, a point to itself included;
`scalarmult` keeps two multiples one apart; `pack` is the standard encoding.

* `add_represents`, `scalarmult_represents`: the routines compute in the group
  of the curve's points.
* `pack_represents`, `encode_inj`: every representative of a point packs into
  the point's one encoding.
* `addOrderOf_base`: the base point has the prime order `ell`.
-/
namespace VectiLicense.L3.Ed25519

open VectiLicense.Core

/-- `gf p[4]`. -/
abbrev Ge := Extended Gf

/-- `q` may be `p`: the four results are stored last.
mirrors core/vl_ed25519.c:249-272 -/
def add (p q : Ge) : Ge :=
  let a := (p.y - p.x) * (q.y - q.x)
  let b := (p.x + p.y) * (q.x + q.y)
  let c := p.t * q.t * D2
  let d := p.z * q.z
  let d := d + d
  let e := b - a
  let f := d - c
  let g := d + c
  let h := b + a
  { x := e * f, y := h * g, z := g * f, t := e * h }

/-- The mask of `sel25519` is all ones for `1`, zero for `0`.
mirrors core/vl_ed25519.c:134-143, 274-278 -/
def cswap (p q : Ge) (b : UInt8) : Ge × Ge := if b = 1 then (q, p) else (p, q)

/-- mirrors core/vl_ed25519.c:280-288 -/
def pack (p : Ge) : Vector UInt8 32 :=
  let zi := inv25519 p.z
  let tx := p.x * zi
  let ty := p.y * zi
  let r := pack25519 ty
  setTop r (top r ^^^ (par25519 tx <<< 7))

/-- `for (i = n - 1; i >= 0; --i)`.
mirrors core/vl_ed25519.c:297-303 -/
def scalarmultLoop (s : List UInt8) : (n : Nat) → Ge → Ge → Ge
  | 0, p, _ => p
  | i + 1, p, q =>
    let b := (s.getD (i / 8) 0 >>> UInt8.ofNat (i % 8)) &&& 1
    let (p, q) := cswap p q b
    let q := add q p
    let p := add p p
    let (p, q) := cswap p q b
    scalarmultLoop s i p q

/-- What ends up in `p`; what it leaves in `q` nobody reads.
mirrors core/vl_ed25519.c:290-304 -/
def scalarmult (q : Ge) (s : List UInt8) : Ge := scalarmultLoop s 256 ⟨0, 1, 1, 0⟩ q

/-- mirrors core/vl_ed25519.c:306-314 -/
def scalarbase (s : List UInt8) : Ge := scalarmult ⟨X, Y, 1, X * Y⟩ s

/-! ## The curve -/

/-- Euler's criterion, with the power by squaring. -/
theorem nonsquare_D (z : Gf) : z ^ 2 ≠ D := by
  intro hz
  have hD : D ≠ 0 := by decide +kernel
  have hpow : D ^ ((2 ^ 255 - 19) / 2) = 1 := by
    rw [← ZMod.euler_criterion _ hD]
    exact ⟨z, by rw [← hz, sq]⟩
  have hval : D ^ ((2 ^ 255 - 19) / 2) =
      (powMod (2 ^ 255 - 19) 256 D.val ((2 ^ 255 - 19) / 2) : Nat) := by
    rw [powMod_eq _ _ _ _ (by decide), ZMod.natCast_mod, Nat.cast_pow, ZMod.natCast_zmod_val]
  have hne : (powMod (2 ^ 255 - 19) 256 D.val ((2 ^ 255 - 19) / 2) : Nat) ≠ (1 : Gf) := by
    decide +kernel
  exact hne (hval.symm.trans hpow)

/-- `-x² + y² = 1 + d x² y²`. -/
def curve : Edwards Gf where
  d := D
  i := I
  i_sq := by decide +kernel
  nonsquare := nonsquare_D
  two_ne := by decide +kernel

theorem add_represents {p q : Ge} {P Q : curve.Point} (hP : Represents p P)
    (hQ : Represents q Q) : Represents (add p q) (P + Q) := by
  have hD2 : D2 = 2 * curve.d := by decide +kernel
  have h := hP.add hQ
  simp only [← hD2, two_mul] at h
  exact h

/-! ## The ladder -/

theorem scalar_bit (s : List UInt8) (i : Nat) :
    ((s.getD (i / 8) 0 >>> UInt8.ofNat (i % 8)) &&& 1).toNat = leNat s / 2 ^ i % 2 := by
  have hi : 8 * (i / 8) + i % 8 = i := Nat.div_add_mod i 8
  have hshift : (UInt8.ofNat (i % 8)).toNat = i % 8 := by
    rw [UInt8.toNat_ofNat']
    omega
  rw [UInt8.toNat_and, UInt8.toNat_shiftRight, hshift, getD_leNat, Nat.shiftRight_eq_div_pow]
  change _ &&& (2 ^ 1 - 1) = _
  rw [Nat.and_two_pow_sub_one_eq_mod, Nat.pow_one, Nat.mod_mod, bit_mod_two_pow (by omega),
    Nat.div_div_eq_div_mul, ← Nat.pow_add, hi]

/-- With `k` for the bits above `n`, `p` is `k` times the point and `q` one more. -/
theorem scalarmultLoop_represents {Q : curve.Point} (s : List UInt8) {n : Nat} (hn : n ≤ 256)
    {p q : Ge} (hp : Represents p ((leNat s % 2 ^ 256 / 2 ^ n) • Q))
    (hq : Represents q ((leNat s % 2 ^ 256 / 2 ^ n + 1) • Q)) :
    Represents (scalarmultLoop s n p q) ((leNat s % 2 ^ 256) • Q) := by
  induction n generalizing p q with
  | zero => rwa [Nat.pow_zero, Nat.div_one] at hp
  | succ i ih =>
    have hbit := scalar_bit s i
    have hhalf : leNat s % 2 ^ 256 / 2 ^ i =
        2 * (leNat s % 2 ^ 256 / 2 ^ (i + 1)) + leNat s / 2 ^ i % 2 := by
      rw [Nat.pow_succ 2 i, ← Nat.div_div_eq_div_mul, ← bit_mod_two_pow (show i < 256 by omega)]
      omega
    rw [scalarmultLoop]
    generalize leNat s % 2 ^ 256 / 2 ^ (i + 1) = k at hp hq hhalf
    generalize (s.getD (i / 8) 0 >>> UInt8.ofNat (i % 8)) &&& 1 = b at hbit ⊢
    by_cases hb : b = 1
    · have hodd : leNat s % 2 ^ 256 / 2 ^ i = 2 * k + 1 := by
        rw [hhalf, ← hbit, hb]
        rfl
      simp only [cswap, if_pos hb]
      refine ih (by omega) ?_ ?_
      · have h := add_represents hp hq
        rwa [← add_nsmul, show k + (k + 1) = 2 * k + 1 by omega, ← hodd] at h
      · have h := add_represents hq hq
        rwa [← add_nsmul, show k + 1 + (k + 1) = 2 * k + 1 + 1 by omega, ← hodd] at h
    · have heven : leNat s % 2 ^ 256 / 2 ^ i = 2 * k := by
        have hzero : b.toNat ≠ 1 := fun h => hb (UInt8.toNat_inj.mp h)
        omega
      simp only [cswap, if_neg hb]
      refine ih (by omega) ?_ ?_
      · have h := add_represents hp hp
        rwa [← add_nsmul, ← Nat.two_mul, ← heven] at h
      · have h := add_represents hq hp
        rwa [← add_nsmul, show k + 1 + k = 2 * k + 1 by omega, ← heven] at h

theorem scalarmult_represents {q : Ge} {Q : curve.Point} (hq : Represents q Q) (s : List UInt8) :
    Represents (scalarmult q s) ((leNat s % 2 ^ 256) • Q) := by
  have hzero : leNat s % 2 ^ 256 / 2 ^ 256 = 0 :=
    Nat.div_eq_of_lt (Nat.mod_lt _ (by decide))
  refine scalarmultLoop_represents s (Nat.le_refl 256) ?_ ?_
  · rw [hzero, zero_nsmul]
    exact Represents.zero
  · rwa [hzero, zero_add, one_nsmul]

/-! ## Encodings -/

/-- The standard encoding: `y` in 255 bits, the parity of `x` on top. -/
def encode (P : curve.Point) : Vector UInt8 32 :=
  ⟨(leBytes 32 (P.y.val + 2 ^ 255 * (P.x.val % 2))).toArray, by simp⟩

theorem leVal_encode (P : curve.Point) : leVal (encode P) = P.y.val + 2 ^ 255 * (P.x.val % 2) := by
  have hy := val_lt P.y
  rw [leVal, encode, Vector.toList_mk, leNat_leBytes, Nat.mod_eq_of_lt (by omega)]

/-- **One point, one encoding, and the other way round.** -/
theorem encode_inj {P Q : curve.Point} : encode P = encode Q ↔ P = Q := by
  refine ⟨fun h => ?_, fun h => by rw [h]⟩
  rw [← leVal_inj, leVal_encode, leVal_encode] at h
  have hyP := val_lt P.y
  have hyQ := val_lt Q.y
  have hy : P.y = Q.y := ZMod.val_injective _ (by omega)
  have hparity : P.x.val % 2 = Q.x.val % 2 := by omega
  rcases Edwards.Point.eq_or_eq_neg hy with hPQ | hPQ
  · exact hPQ
  · by_cases hx : Q.x = 0
    · refine Edwards.Point.ext ?_ hy
      rw [hPQ, Edwards.Point.neg_x, hx, neg_zero]
    · rw [hPQ, Edwards.Point.neg_x] at hparity
      exact absurd hparity (neg_parity hx)

/-- The point that a string stands for, in whatever spelling: `y` may be above
the modulus, and the sign of a zero `x` is free. -/
structure Denotes (p : Vector UInt8 32) (P : curve.Point) : Prop where
  y : P.y = unpack25519 p
  x : P.x ≠ 0 → P.x.val % 2 = leVal p / 2 ^ 255

theorem Denotes.unique {p : Vector UInt8 32} {P Q : curve.Point} (hP : Denotes p P)
    (hQ : Denotes p Q) : P = Q := by
  have hy : P.y = Q.y := hP.y.trans hQ.y.symm
  rcases Edwards.Point.eq_or_eq_neg hy with h | h
  · exact h
  · by_cases hx : Q.x = 0
    · refine Edwards.Point.ext ?_ hy
      rw [h, Edwards.Point.neg_x, hx, neg_zero]
    · have hne : P.x ≠ 0 := by
        rw [h, Edwards.Point.neg_x]
        exact neg_ne_zero.mpr hx
      have hparity : P.x.val % 2 = Q.x.val % 2 := (hP.x hne).trans (hQ.x hx).symm
      rw [h, Edwards.Point.neg_x] at hparity
      exact absurd hparity (neg_parity hx)

theorem denotes_encode (P : curve.Point) : Denotes (encode P) P := by
  have hlt := val_lt P.y
  have hcode := leVal_encode P
  refine ⟨?_, fun _ => by omega⟩
  have hlow : leVal (encode P) % 2 ^ 255 = P.y.val := by omega
  rw [unpack25519, hlow, ZMod.natCast_zmod_val]

theorem xor_parity {b c : UInt8} (hb : b.toNat < 128) (hc : c.toNat < 2) :
    (b ^^^ (c <<< 7)).toNat = b.toNat + 128 * c.toNat := by
  have hbyte : ∀ b : UInt8, b.toNat < 128 →
      (b ^^^ ((0 : UInt8) <<< 7)).toNat = b.toNat + 128 * 0 ∧
        (b ^^^ ((1 : UInt8) <<< 7)).toNat = b.toNat + 128 * 1 := by
    refine L1.Base32.forall_byte ?_
    decide +kernel
  have hcases : c = 0 ∨ c = 1 := by
    rcases (show c.toNat = 0 ∨ c.toNat = 1 by omega) with h | h
    · exact .inl (UInt8.toNat_inj.mp h)
    · exact .inr (UInt8.toNat_inj.mp h)
  rcases hcases with rfl | rfl
  · exact (hbyte b hb).1
  · exact (hbyte b hb).2

/-- **Every representative packs into the encoding.** -/
theorem pack_represents {r : Ge} {P : curve.Point} (h : Represents r P) : pack r = encode P := by
  have hx : r.x * inv25519 r.z = P.x := by
    rw [inv25519_eq, h.x, mul_inv_cancel_right₀ h.z]
  have hy : r.y * inv25519 r.z = P.y := by
    rw [inv25519_eq, h.y, mul_inv_cancel_right₀ h.z]
  have hlt := val_lt P.y
  have htop := top_toNat (pack25519 P.y)
  have hpar := par25519_toNat P.x
  rw [leVal_pack25519] at htop
  simp only [pack, hx, hy]
  rw [← leVal_inj, leVal_encode, leVal_setTop, leVal_pack25519,
    xor_parity (by omega) (by omega)]
  omega

/-! ## The base point -/

/-- The order of the base point. -/
def ell : Nat := 2 ^ 252 + 27742317777372353535851937790883648493

/-- The primes that `ell` is reduced to. -/
def chainEll : List PrattStep := [
  ⟨14741173, 2,
    [2, 2, 3, 3, 409477]⟩,
  ⟨58964693, 2,
    [2, 2, 14741173]⟩,
  ⟨3044861653679985063343, 5,
    [2, 3, 11, 30703, 82163, 132667, 137849]⟩,
  ⟨198211423230930754013084525763697, 5,
    [2, 2, 2, 2, 3, 23, 58964693, 3044861653679985063343]⟩,
  ⟨292386187, 2,
    [2, 3, 3, 3, 3, 307, 5879]⟩,
  ⟨213441916511, 13,
    [2, 5, 73, 292386187]⟩,
  ⟨1224481, 13,
    [2, 2, 2, 2, 2, 3, 5, 2551]⟩,
  ⟨1257559732178653, 2,
    [2, 2, 3, 7, 23, 531581, 1224481]⟩,
  ⟨4434155615661930479, 17,
    [2, 41, 43, 1257559732178653]⟩,
  ⟨172054593956031949258510691, 2,
    [2, 5, 1361, 2851, 4434155615661930479]⟩,
  ⟨19757330305831588566944191468367130476339, 2,
    [2, 269, 213441916511, 172054593956031949258510691]⟩,
  ⟨276602624281642239937218680557139826668747, 2,
    [2, 7, 19757330305831588566944191468367130476339]⟩,
  ⟨7237005577332262213973186563042994240857116359379907606001950938285454250989, 2,
    [2, 2, 3, 11, 198211423230930754013084525763697, 276602624281642239937218680557139826668747]⟩]

theorem prime_ell : ell.Prime := by
  have hchain : chainOk [] chainEll = true := by decide +kernel
  have hprime := chain_prime (by simp) hchain
  exact hprime (chainEll.getLast (by decide)) (List.getLast_mem _)

def base : curve.Point := ⟨X, Y, by unfold Edwards.On; decide +kernel⟩

theorem scalarbase_represents (s : List UInt8) :
    Represents (scalarbase s) ((leNat s % 2 ^ 256) • base) := by
  refine scalarmult_represents ⟨one_ne_zero, ?_, ?_, ?_⟩ s
  · exact (mul_one X).symm
  · exact (mul_one Y).symm
  · exact (mul_one (X * Y)).symm

/-- `ell` times the base point, by the code itself. -/
theorem ell_base : ell • base = 0 := by
  have h := scalarbase_represents (leBytes 32 ell)
  rw [leNat_leBytes, show ell % 2 ^ (8 * 32) % 2 ^ 256 = ell by decide +kernel] at h
  refine h.eq_zero_iff.mpr ?_
  decide +kernel

theorem addOrderOf_base : addOrderOf base = ell := by
  have : Fact ell.Prime := ⟨prime_ell⟩
  refine addOrderOf_eq_prime ell_base fun h => ?_
  have hx : X = 0 := congrArg Edwards.Point.x h
  exact absurd hx (by decide +kernel)

end VectiLicense.L3.Ed25519
