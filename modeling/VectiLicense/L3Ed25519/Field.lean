import Mathlib.FieldTheory.Finite.Basic
import VectiLicense.Core.Pratt
import VectiLicense.L3Verify.Accept

/-!
# The field of `core/vl_ed25519.c`

A `gf` is taken for the number its sixteen limbs stand for, in `Z / (2^255 - 19)`;
`A`, `Z`, `M` and `S` are then the ring's own operations. Strings of 32 bytes
are numbers too (`leVal`), and everything said about them is said there.

* `prime25519`: the modulus is prime, from a certificate.
* `inv25519_eq`: the chain of squarings is the inverse.
* `neq25519_iff`, `par25519_toNat`: what the packed bytes are compared and
  read for.
-/
namespace VectiLicense.L3.Ed25519

open VectiLicense.Core

/-! ## Strings of bytes -/

/-- A string as a number, least significant byte first. -/
def leVal {n : Nat} (p : Vector UInt8 n) : Nat := leNat p.toList

theorem leVal_lt {n : Nat} (p : Vector UInt8 n) : leVal p < 2 ^ (8 * n) := by
  have h := leNat_lt p.toList
  rwa [Vector.length_toList] at h

theorem leVal_inj {n : Nat} {p p' : Vector UInt8 n} : leVal p = leVal p' ↔ p = p' := by
  refine ⟨fun h => Vector.toList_inj.mp (leNat_inj (by simp) h), fun h => by rw [h]⟩

theorem get_toNat {n : Nat} (p : Vector UInt8 n) (i : Fin n) :
    (p.get i).toNat = leVal p / 2 ^ (8 * i.val) % 2 ^ 8 := by
  rw [leVal, ← getD_leNat]
  simp [Vector.get, List.getD_eq_getElem?_getD]

/-- `p[31]`. -/
def top (p : Vector UInt8 32) : UInt8 := p.get 31

/-- `p[31] = b`. -/
def setTop (p : Vector UInt8 32) (b : UInt8) : Vector UInt8 32 := p.set 31 b

theorem top_toNat (p : Vector UInt8 32) : (top p).toNat = leVal p / 2 ^ 248 := by
  have h := get_toNat p 31
  have hlt := leVal_lt p
  change (top p).toNat = leVal p / 2 ^ 248 % 2 ^ 8 at h
  omega

theorem leVal_setTop (p : Vector UInt8 32) (b : UInt8) :
    leVal (setTop p b) = leVal p % 2 ^ 248 + 2 ^ 248 * b.toNat := by
  have h := @leNat_set p.toList 31 (by simp) b
  have htop := top_toNat p
  have hget : (p.toList.getD 31 0).toNat = (top p).toNat := by
    simp [top, Vector.get, List.getD_eq_getElem?_getD]
  have hset : leVal (setTop p b) = leNat (p.toList.set 31 b) := by
    rw [leVal, setTop, Vector.toList_set]
  rw [hset]
  unfold leVal at htop ⊢
  omega

/-! ## The modulus -/

/-- The primes that `2^255 - 19` is reduced to, by the factors of `p - 1`. -/
def chain25519 : List PrattStep := [
  ⟨1923133, 2,
    [2, 2, 3, 43, 3727]⟩,
  ⟨31757755568855353, 10,
    [2, 2, 2, 3, 31, 107, 223, 4153, 430751]⟩,
  ⟨2773320623, 5,
    [2, 2437, 569003]⟩,
  ⟨72106336199, 7,
    [2, 13, 2773320623]⟩,
  ⟨8574133, 2,
    [2, 2, 3, 7, 103, 991]⟩,
  ⟨1919519569386763, 2,
    [2, 3, 7, 19, 47, 47, 127, 8574133]⟩,
  ⟨75445702479781427272750846543864801, 7,
    [2, 2, 2, 2, 2, 3, 3, 5, 5, 75707, 72106336199, 1919519569386763]⟩,
  ⟨74058212732561358302231226437062788676166966415465897661863160754340907, 2,
    [2, 3, 353, 57467, 132049, 1923133, 31757755568855353, 75445702479781427272750846543864801]⟩,
  ⟨57896044618658097711785492504343953926634992332820282019728792003956564819949, 2,
    [2, 2, 3, 65147, 74058212732561358302231226437062788676166966415465897661863160754340907]⟩]

theorem prime25519 : Nat.Prime (2 ^ 255 - 19) := by
  have hchain : chainOk [] chain25519 = true := by decide +kernel
  have hprime := chain_prime (by simp) hchain
  exact hprime (chain25519.getLast (by decide)) (List.getLast_mem _)

instance fact25519 : Fact (Nat.Prime (2 ^ 255 - 19)) := ⟨prime25519⟩

/-- mirrors core/vl_ed25519.c:87 -/
abbrev Gf := ZMod (2 ^ 255 - 19)

/-- What sixteen limbs stand for, the least significant first. -/
def gf (limbs : List Nat) : Gf := ((limbs.foldr (fun l n => l + 2 ^ 16 * n) 0 : Nat) : Gf)

/-- mirrors core/vl_ed25519.c:94-95 -/
def D : Gf := gf [0x78a3, 0x1359, 0x4dca, 0x75eb, 0xd8ab, 0x4141, 0x0a4d, 0x0070,
  0xe898, 0x7779, 0x4079, 0x8cc7, 0xfe73, 0x2b6f, 0x6cee, 0x5203]

/-- mirrors core/vl_ed25519.c:96-97 -/
def D2 : Gf := gf [0xf159, 0x26b2, 0x9b94, 0xebd6, 0xb156, 0x8283, 0x149a, 0x00e0,
  0xd130, 0xeef3, 0x80f2, 0x198e, 0xfce7, 0x56df, 0xd9dc, 0x2406]

/-- mirrors core/vl_ed25519.c:98-99 -/
def X : Gf := gf [0xd51a, 0x8f25, 0x2d60, 0xc956, 0xa7b2, 0x9525, 0xc760, 0x692c,
  0xdc5c, 0xfdd6, 0xe231, 0xc0a4, 0x53fe, 0xcd6e, 0x36d3, 0x2169]

/-- mirrors core/vl_ed25519.c:100-101 -/
def Y : Gf := gf [0x6658, 0x6666, 0x6666, 0x6666, 0x6666, 0x6666, 0x6666, 0x6666,
  0x6666, 0x6666, 0x6666, 0x6666, 0x6666, 0x6666, 0x6666, 0x6666]

/-- mirrors core/vl_ed25519.c:102-103 -/
def I : Gf := gf [0xa0b0, 0x4a0e, 0x1b27, 0xc4ee, 0xe478, 0xad2f, 0x1806, 0x2f43,
  0xd7a7, 0x3dfb, 0x0099, 0x2b4d, 0xdf0b, 0x4fc1, 0x2480, 0x2b83]

/-! ## Packing -/

/-- The bytes of the residue itself.
mirrors core/vl_ed25519.c:145-168 -/
def pack25519 (n : Gf) : Vector UInt8 32 := ⟨(leBytes 32 n.val).toArray, by simp⟩

/-- The low 255 bits, reduced modulo nothing.
mirrors core/vl_ed25519.c:187-192 -/
def unpack25519 (n : Vector UInt8 32) : Gf := ((leVal n % 2 ^ 255 : Nat) : Gf)

/-- mirrors core/vl_ed25519.c:170-178 -/
def neq25519 (a b : Gf) : Bool :=
  vlCtEq (some (pack25519 a).toList) (some (pack25519 b).toList) 32 = 0

/-- mirrors core/vl_ed25519.c:180-185 -/
def par25519 (a : Gf) : UInt8 := (pack25519 a).get 0 &&& 1

theorem val_lt (a : Gf) : a.val < 2 ^ 255 - 19 := ZMod.val_lt a

theorem leVal_pack25519 (a : Gf) : leVal (pack25519 a) = a.val := by
  have hlt := val_lt a
  rw [leVal, pack25519, Vector.toList_mk, leNat_leBytes, Nat.mod_eq_of_lt (by omega)]

theorem pack25519_inj {a b : Gf} : pack25519 a = pack25519 b ↔ a = b := by
  rw [← leVal_inj, leVal_pack25519, leVal_pack25519]
  exact (ZMod.val_injective _).eq_iff

theorem vlCtEq_ne_zero (p p' : Vector UInt8 32) :
    vlCtEq (some p.toList) (some p'.toList) 32 ≠ 0 ↔ p = p' := by
  rw [vlCtEq_ne_zero_iff (by decide) (by simp) (by simp), List.take_of_length_le (by simp),
    List.take_of_length_le (by simp), Vector.toList_inj]

theorem neq25519_iff (a b : Gf) : neq25519 a b = true ↔ a ≠ b := by
  rw [neq25519, decide_eq_true_eq, ← not_iff_not, ← ne_eq, vlCtEq_ne_zero, pack25519_inj,
    ne_eq, not_not]

theorem par25519_toNat (a : Gf) : (par25519 a).toNat = a.val % 2 := by
  have h := get_toNat (pack25519 a) 0
  rw [leVal_pack25519, Fin.val_zero, Nat.mul_zero, Nat.pow_zero, Nat.div_one] at h
  rw [par25519, UInt8.toNat_and, h]
  change a.val % 2 ^ 8 &&& (2 ^ 1 - 1) = _
  rw [Nat.and_two_pow_sub_one_eq_mod]
  omega

/-- A residue and its negative differ in parity: the modulus is odd. -/
theorem neg_parity {a : Gf} (ha : a ≠ 0) : (-a).val % 2 ≠ a.val % 2 := by
  have hlt := val_lt a
  rw [ZMod.neg_val, if_neg ha]
  omega

/-! ## Powers -/

/-- `for (a = n - 1; a >= 0; a--)`, squaring each time and multiplying by `i`
unless `skip a`. -/
def powLoop (skip : Nat → Bool) (i : Gf) : (n : Nat) → Gf → Gf
  | 0, c => c
  | a + 1, c => powLoop skip i a (if skip a then c * c else c * c * i)

/-- mirrors core/vl_ed25519.c:223-233 -/
def inv25519 (i : Gf) : Gf := powLoop (fun a => a = 2 ∨ a = 4) i 254 i

/-- mirrors core/vl_ed25519.c:235-245 -/
def pow2523 (i : Gf) : Gf := powLoop (fun a => a = 1) i 251 i

/-- The exponent that the loop ends with. -/
def powExp (skip : Nat → Bool) : (n e : Nat) → Nat
  | 0, e => e
  | a + 1, e => powExp skip a (if skip a then 2 * e else 2 * e + 1)

theorem powLoop_eq (skip : Nat → Bool) (i : Gf) (n e : Nat) :
    powLoop skip i n (i ^ e) = i ^ powExp skip n e := by
  induction n generalizing e with
  | zero => rfl
  | succ a ih =>
    have hstep : (if skip a then i ^ e * i ^ e else i ^ e * i ^ e * i) =
        i ^ (if skip a then 2 * e else 2 * e + 1) := by
      split
      · ring
      · ring
    rw [powLoop, powExp, hstep, ih]

/-- The exponent is two less than the modulus. -/
theorem inv25519_eq (a : Gf) : inv25519 a = a⁻¹ := by
  have hexp : powExp (fun a => a = 2 ∨ a = 4) 254 1 = 2 ^ 255 - 19 - 2 := by decide +kernel
  have hpow : inv25519 a = a ^ (2 ^ 255 - 19 - 2) := by
    rw [inv25519, ← hexp, ← powLoop_eq, pow_one]
  rw [hpow]
  by_cases ha : a = 0
  · rw [ha, inv_zero, zero_pow (by decide)]
  · refine eq_inv_of_mul_eq_one_left ?_
    rw [← pow_succ]
    exact ZMod.pow_card_sub_one_eq_one ha

end VectiLicense.L3.Ed25519
