import VectiLicense.L3Ed25519.Keys
import VectiLicense.L3Ed25519.Reduce

/-!
# Which keys and signatures are accepted

`Keys` and `Signatures` say what an accepted key or signature has passed; here
is the converse. A square root that exists is found by the candidate of
`unpackneg`, so every encoding of a point that is not of low order is a key, and
the final comparison is the group equation. RFC 8032 signs with a scalar of 255
bits and a nonce of 512; what it makes satisfies the equation.

* `recoverX_complete`: the candidate is a root whenever there is one.
* `unpackneg_iff`: the keys, and what each is unpacked into.
* `verify_exact`: the call answers one exactly where the equation holds.
* `sign_accepted`: signing and verifying agree, for every seed and message.
-/
namespace VectiLicense.L3.Ed25519

open VectiLicense.Core

/-! ## Roots -/

theorem pow2523_eq (a : Gf) : pow2523 a = a ^ (2 ^ 252 - 3) := by
  have hexp : powExp (fun a => a = 1) 251 1 = 2 ^ 252 - 3 := by decide +kernel
  rw [pow2523, ← hexp, ← powLoop_eq, pow_one]

/-- The denominator is never zero: `D` has no square root, and `-1` has one. -/
theorem den_ne_zero (y : Gf) : 1 + y * y * D ≠ 0 := by
  intro h
  have hI : I ^ 2 = -1 := curve.i_sq
  have hy : y ≠ 0 := by
    rintro rfl
    rw [zero_mul, zero_mul, add_zero] at h
    exact one_ne_zero h
  refine nonsquare_D (I / y) ?_
  rw [div_pow, hI, div_eq_iff (pow_ne_zero 2 hy)]
  linear_combination -h

/-- The candidate is a root up to the sign of its square. -/
theorem candidate_sq {u v x : Gf} (h : x * x * v = u) :
    ((u * v ^ 7) ^ (2 ^ 252 - 3) * u * v ^ 3) ^ 2 * v = u ∨
      ((u * v ^ 7) ^ (2 ^ 252 - 3) * u * v ^ 3) ^ 2 * v = -u := by
  obtain ⟨w, hw⟩ : ∃ w, (u * v ^ 7) ^ (2 ^ 252 - 3) = w := ⟨_, rfl⟩
  by_cases hu : u = 0
  · left
    rw [hw, hu]
    ring
  have hx : x ≠ 0 := by
    rintro rfl
    rw [zero_mul, zero_mul] at h
    exact hu h.symm
  have hv : v ≠ 0 := by
    rintro rfl
    rw [mul_zero] at h
    exact hu h.symm
  have hroot : u * v ^ 7 = (x * v ^ 4) ^ 2 := by
    rw [← h]
    ring
  -- `w² t` is a power with half the exponent of Fermat's
  have hone : w ^ 2 * (u * v ^ 7) * (w ^ 2 * (u * v ^ 7)) = 1 := by
    have hexp : 2 * (4 * (2 ^ 252 - 3) + 2) = 2 ^ 255 - 19 - 1 := by decide
    calc w ^ 2 * (u * v ^ 7) * (w ^ 2 * (u * v ^ 7))
        = (u * v ^ 7) ^ (4 * (2 ^ 252 - 3) + 2) := by
          rw [pow_add, mul_comm 4, pow_mul, hw]
          ring
      _ = (x * v ^ 4) ^ (2 ^ 255 - 19 - 1) := by rw [hroot, ← pow_mul, hexp]
      _ = 1 := ZMod.pow_card_sub_one_eq_one (mul_ne_zero hx (pow_ne_zero 4 hv))
  rw [hw]
  rcases mul_self_eq_one_iff.mp hone with h1 | h1
  · left
    linear_combination u * h1
  · right
    linear_combination u * h1

/-- **A root that exists is found.** -/
theorem recoverX_complete {x y : Gf} (h : x * x * (1 + y * y * D) = y * y - 1) :
    ∃ x', recoverX y = some x' := by
  have hcandidate := candidate_sq h
  have hI : I * I = -1 := by
    have h := curve.i_sq
    rwa [sq] at h
  unfold recoverX
  extract_lets y2 dy2 num den den2 den4 den6 t t' x₀ chk₀ x' chk
  have hchk₀ : chk₀ = num ∨ chk₀ = -num := by
    have ht : t = num * den ^ 7 := by
      change den * den * (den * den) * (den * den) * num * den = _
      ring
    have hx₀ : chk₀ = ((num * den ^ 7) ^ (2 ^ 252 - 3) * num * den ^ 3) ^ 2 * den := by
      change pow2523 t * num * den * den * den * (pow2523 t * num * den * den * den) * den = _
      rw [pow2523_eq, ht]
      generalize (num * den ^ 7) ^ (2 ^ 252 - 3) = w
      ring
    rw [hx₀]
    exact hcandidate
  have hchk : chk = num := by
    by_cases hne : neq25519 chk₀ num = true
    · have hx' : x' = x₀ * I := if_pos hne
      have hneg := hchk₀.resolve_left ((neq25519_iff _ _).mp hne)
      have hsq : x₀ * x₀ * den = -num := hneg
      change x' * x' * den = num
      rw [hx']
      linear_combination x₀ * x₀ * den * hI - hsq
    · have hx' : x' = x₀ := if_neg hne
      change x' * x' * den = num
      rw [hx']
      rw [neq25519_iff, not_not] at hne
      exact hne
  have hdone : ¬ neq25519 chk num = true := by
    rw [neq25519_iff, not_not]
    exact hchk
  exact ⟨x', if_neg hdone⟩

/-! ## Keys -/

/-- **Every encoding of a point that is not of low order is accepted.** -/
theorem unpackneg_encode {P : curve.Point} (horder : 8 • P ≠ 0) :
    unpackneg (encode P) = some ⟨-P.x, P.y, 1, -P.x * P.y⟩ := by
  have hy := val_lt P.y
  have hcode := leVal_encode P
  have hx := x_ne_zero horder
  have hcanon : canonicalKey (encode P) = true := by
    rw [canonicalKey_iff, hcode]
    omega
  have hdec : unpack25519 (encode P) = P.y := (denotes_encode P).y.symm
  have hon : P.x * P.x * (1 + P.y * P.y * D) = P.y * P.y - 1 := by
    have h : -P.x ^ 2 + P.y ^ 2 = 1 + D * P.x ^ 2 * P.y ^ 2 := P.on
    linear_combination -h
  obtain ⟨x, hroot⟩ := recoverX_complete hon
  have hsq : x = P.x ∨ x = -P.x := by
    have h := recoverX_spec hroot
    refine mul_self_eq_mul_self_iff.mp (mul_right_cancel₀ (den_ne_zero P.y) ?_)
    rw [h, hon]
  have hsign : P.x.val % 2 = leVal (encode P) / 2 ^ 255 := by omega
  have hchosen : (if par25519 x = top (encode P) >>> 7 then 0 - x else x) = -P.x := by
    simp only [sign_iff, ← hsign, zero_sub]
    rcases hsq with rfl | rfl
    · rw [if_pos rfl]
    · rw [if_neg (neg_parity hx)]
  rw [unpackneg, hcanon, if_pos rfl, hdec, hroot]
  have hrep : Represents (⟨-P.x, P.y, 1, -P.x * P.y⟩ : Ge) (-P) :=
    ⟨one_ne_zero, by simp, by simp, by simp⟩
  have hlow : isLowOrder ⟨-P.x, P.y, 1, -P.x * P.y⟩ = false := by
    rw [Bool.eq_false_iff, ne_eq, isLowOrder_iff hrep, smul_neg, neg_eq_zero]
    exact horder
  change finishKey (encode P) x P.y = _
  unfold finishKey
  dsimp only
  rw [hchosen, hlow, if_neg Bool.false_ne_true]

/-- **The keys that are accepted**, and what each of them is unpacked into. -/
theorem unpackneg_iff (p : Vector UInt8 32) (r : Ge) :
    unpackneg p = some r ↔ ∃ P : curve.Point, 8 • P ≠ 0 ∧ p = encode P ∧
      r = ⟨-P.x, P.y, 1, -P.x * P.y⟩ := by
  constructor
  · intro h
    obtain ⟨P, hP⟩ := unpackneg_spec h
    exact ⟨P, hP.order, hP.encode, hP.coords⟩
  · rintro ⟨P, horder, rfl, rfl⟩
    exact unpackneg_encode horder

/-! ## Signatures -/

theorem leNat_append_zeros (bs : List UInt8) (k : Nat) :
    leNat (bs ++ List.replicate k 0) = leNat bs := by
  induction k with
  | zero => rw [List.replicate_zero, List.append_nil]
  | succ k ih => rw [List.replicate_succ', ← List.append_assoc, leNat_concat, ih]; rfl

theorem leNat_reduce (h : Vector UInt8 64) : leNat (reduce h) = leVal h % ell := by
  have hlt : leVal h % ell < 2 ^ (8 * 32) :=
    (Nat.mod_lt _ (by decide)).trans (by decide)
  rw [reduce_exact, leNat_append_zeros, leNat_leBytes, Nat.mod_eq_of_lt hlt]

/-- What makes `R` and `S` the signature of `m` under the key of `P`: the group
equation, with the hash taken modulo the group order. -/
structure Signs (R S pk : Vector UInt8 32) (m : List UInt8) (P : curve.Point) : Prop where
  order : 8 • P ≠ 0
  key : pk = encode P
  reduced : leVal S < ell
  equation : R = encode (leVal S • base -
    (leVal (L1.Hash.sha512 (R.toList ++ pk.toList ++ m)) % ell) • P)

theorem vlCtEq_eq (a b : Vector UInt8 32) (as : List UInt8) (has : as.take 32 = a.toList)
    (hlen : 32 ≤ as.length) :
    vlCtEq (some as) (some b.toList) 32 = if a = b then 1 else 0 := by
  have hone := vlCtEq_eq_one (a := as) (b := b.toList) (n := 32) (by decide) hlen (by simp)
  have hne := vlCtEq_ne_zero_iff (a := as) (b := b.toList) (n := 32) (by decide) hlen (by simp)
  rw [has, List.take_of_length_le (by simp), Vector.toList_inj] at hone hne
  split
  · rename_i h
    exact hone.mpr h
  · rename_i h
    by_contra hzero
    exact h (hne.mp hzero)

/-- With the checks passed, the equation decides. -/
theorem verify_unpacked {R S pk : Vector UInt8 32} {msg : Option (List UInt8)} {msgLen : Nat}
    {P : curve.Point} {h : Vector UInt8 64} {buffer : Buf 128}
    (hmsg : ¬ (msg = none ∧ msgLen ≠ 0)) (hS : leVal S < ell) (horder : 8 • P ≠ 0)
    (hkey : pk = encode P)
    (hhash : challenge buffer (joinSig R S) (msg.map (·.take msgLen)) pk = some h) :
    vlEd25519Verify buffer (some (joinSig R S)) msg msgLen (some pk) =
      some (if R = encode (leVal S • base - (leVal h % ell) • P) then 1 else 0) := by
  have hred : scalarIsReduced S.toList = true := (scalarIsReduced_iff (by simp)).mpr hS
  have hunpack := unpackneg_encode horder
  rw [← hkey] at hunpack
  obtain ⟨Q, hQ⟩ := unpackneg_spec hunpack
  have hQP : Q = P := encode_inj.mp (hQ.encode.symm.trans hkey)
  have hlt : leVal h % ell < 2 ^ 256 := (Nat.mod_lt _ (by decide)).trans (by decide)
  have hsum := add_represents (scalarmult_represents hQ.represents (reduce h))
    (scalarbase_represents S.toList)
  rw [leNat_reduce, Nat.mod_eq_of_lt hlt, hQP, smul_neg,
    show leNat S.toList % 2 ^ 256 = leVal S from Nat.mod_eq_of_lt (leVal_lt S),
    neg_add_eq_sub] at hsum
  have hpack := pack_represents hsum
  rw [vlEd25519Verify, drop_joinSig, if_neg hmsg, hred, if_neg Bool.true_eq_false_eq_False, hunpack]
  dsimp only
  rw [hhash]
  dsimp only
  rw [hpack, vlCtEq_eq R _ _ (take_joinSig R S) (by simp)]

/-- **Exactly the signatures that satisfy the equation are accepted**; what is not
accepted is answered with zero. -/
theorem verify_exact (buffer : Buf 128) (R S pk : Vector UInt8 32) (msg : Option (List UInt8))
    (msgLen : Nat) (hlen : (messageOf msg msgLen).length + 64 < 2 ^ 64) :
    (vlEd25519Verify buffer (some (joinSig R S)) msg msgLen (some pk) = some 1 ↔
      (msg = none → msgLen = 0) ∧ ∃ P, Signs R S pk (messageOf msg msgLen) P) ∧
    (vlEd25519Verify buffer (some (joinSig R S)) msg msgLen (some pk) ≠ some 1 →
      vlEd25519Verify buffer (some (joinSig R S)) msg msgLen (some pk) = some 0) := by
  obtain ⟨h, hhash, hsha⟩ := challenge_spec R pk (messageOf msg msgLen)
  have hd := hhash buffer S _ (getD_take msg msgLen)
  have hh := hsha (by simp; omega)
  have hzero : some (0 : UInt32) ≠ some 1 := by decide
  by_cases hmsg : msg = none ∧ msgLen ≠ 0
  · have hval : vlEd25519Verify buffer (some (joinSig R S)) msg msgLen (some pk) = some 0 := by
      rw [vlEd25519Verify, if_pos hmsg]
    rw [hval]
    exact ⟨⟨fun h => absurd h hzero, fun h => absurd (h.1 hmsg.1) hmsg.2⟩, fun _ => rfl⟩
  have hmsg' : msg = none → msgLen = 0 := fun h => by
    by_contra hne
    exact hmsg ⟨h, hne⟩
  cases hred : scalarIsReduced S.toList with
  | false =>
    have hval : vlEd25519Verify buffer (some (joinSig R S)) msg msgLen (some pk) = some 0 := by
      rw [vlEd25519Verify, drop_joinSig, if_neg hmsg, hred, if_pos rfl]
    rw [hval]
    refine ⟨⟨fun h => absurd h hzero, ?_⟩, fun _ => rfl⟩
    rintro ⟨-, P, hP⟩
    rw [(scalarIsReduced_iff (by simp)).mpr hP.reduced] at hred
    cases hred
  | true =>
    have hS : leVal S < ell := (scalarIsReduced_iff (by simp)).mp hred
    cases hkey : unpackneg pk with
    | none =>
      rw [vlEd25519Verify_of_refused hkey]
      refine ⟨⟨fun h => absurd h hzero, ?_⟩, fun _ => rfl⟩
      rintro ⟨-, P, hP⟩
      rw [hP.key, unpackneg_encode hP.order] at hkey
      cases hkey
    | some q =>
      obtain ⟨P, horder, hpk, -⟩ := (unpackneg_iff pk q).mp hkey
      rw [verify_unpacked hmsg hS horder hpk hd, hh]
      have hiff : (∃ Q, Signs R S pk (messageOf msg msgLen) Q) ↔
          R = encode (leVal S • base -
            (leVal (L1.Hash.sha512 (R.toList ++ pk.toList ++ messageOf msg msgLen)) % ell) • P) := by
        refine ⟨?_, fun hR => ⟨P, horder, hpk, hS, hR⟩⟩
        rintro ⟨Q, hQ⟩
        have hQP : Q = P := encode_inj.mp (hQ.key.symm.trans hpk)
        rw [← hQP]
        exact hQ.equation
      rw [hiff]
      split
      · rename_i hR
        exact ⟨⟨fun _ => ⟨hmsg', hR⟩, fun _ => rfl⟩, fun h => absurd rfl h⟩
      · rename_i hR
        exact ⟨⟨fun h => absurd h hzero, fun h => absurd h.2 hR⟩, fun _ => rfl⟩

/-! ## Signing -/

/-- The scalar of a seed: the low half of its hash, the three low bits cleared, the
top two set to `01`. -/
def secretScalar (seed : Vector UInt8 32) : Nat :=
  2 ^ 254 + 8 * (leNat ((L1.Hash.sha512 seed.toList).toList.take 32) % 2 ^ 254 / 8)

/-- The nonce, from the high half and the message. -/
def nonce (seed : Vector UInt8 32) (m : List UInt8) : Nat :=
  leVal (L1.Hash.sha512 ((L1.Hash.sha512 seed.toList).toList.drop 32 ++ m))

def publicKey (seed : Vector UInt8 32) : Vector UInt8 32 := encode (secretScalar seed • base)

/-- `R`. -/
def commitment (seed : Vector UInt8 32) (m : List UInt8) : Vector UInt8 32 :=
  encode (nonce seed m • base)

/-- `S`. -/
def response (seed : Vector UInt8 32) (m : List UInt8) : Vector UInt8 32 :=
  let k := leVal (L1.Hash.sha512
    ((commitment seed m).toList ++ (publicKey seed).toList ++ m))
  ⟨(leBytes 32 ((nonce seed m + k * secretScalar seed) % ell)).toArray, by simp⟩

/-- A signature as RFC 8032 has it, which the vendor's tool takes from a library. -/
def sign (seed : Vector UInt8 32) (m : List UInt8) : Vector UInt8 64 :=
  joinSig (commitment seed m) (response seed m)

/-- The scalar is eight times a number below the group order. -/
theorem secretScalar_order (seed : Vector UInt8 32) : 8 • (secretScalar seed • base) ≠ 0 := by
  have hprime := prime_ell
  rw [← mul_nsmul', ne_eq, ← addOrderOf_dvd_iff_nsmul_eq_zero, addOrderOf_base]
  intro hdvd
  unfold secretScalar at hdvd
  generalize leNat ((L1.Hash.sha512 seed.toList).toList.take 32) = n at hdvd
  obtain ⟨t, ht⟩ : ∃ t, 2 ^ 251 + n % 2 ^ 254 / 8 = t := ⟨_, rfl⟩
  have hscalar : 8 * (2 ^ 254 + 8 * (n % 2 ^ 254 / 8)) = 64 * t := by
    rw [← ht]
    ring
  rw [hscalar, hprime.dvd_mul] at hdvd
  have hlt : t < ell := by
    unfold ell
    omega
  rcases hdvd with h | h
  · have := Nat.le_of_dvd (by decide) h
    unfold ell at this
    omega
  · have := Nat.le_of_dvd (by omega) h
    omega

theorem leVal_response (seed : Vector UInt8 32) (m : List UInt8) :
    leVal (response seed m) = (nonce seed m + leVal (L1.Hash.sha512 ((commitment seed m).toList ++
      (publicKey seed).toList ++ m)) * secretScalar seed) % ell := by
  have hell : 0 < ell := by decide
  have hlt : ∀ n, n % ell < 2 ^ (8 * 32) := fun n =>
    (Nat.mod_lt n hell).trans (by decide)
  rw [leVal, response, Vector.toList_mk, leNat_leBytes, Nat.mod_eq_of_lt (hlt _)]

/-- **Every signature that is made is accepted.** -/
theorem sign_accepted (buffer : Buf 128) (seed : Vector UInt8 32) (m : List UInt8)
    (hlen : m.length + 64 < 2 ^ 64) :
    vlEd25519Verify buffer (some (sign seed m)) (some m) m.length (some (publicKey seed)) =
      some 1 := by
  have hmsg : messageOf (some m) m.length = m := List.take_length
  have hresponse := leVal_response seed m
  refine (verify_exact buffer _ _ _ _ _ (by rw [hmsg]; exact hlen)).1.mpr
    ⟨fun h => absurd h (Option.some_ne_none m), secretScalar seed • base, secretScalar_order seed,
      rfl, ?_, ?_⟩
  · rw [hresponse]
    exact Nat.mod_lt _ (by decide)
  · rw [hmsg, hresponse, commitment, encode_inj, eq_sub_iff_add_eq, ← mul_nsmul', ← add_nsmul,
      nsmul_eq_nsmul_iff_modEq, addOrderOf_base]
    refine Nat.ModEq.trans ?_ (Nat.mod_modEq _ _).symm
    exact (Nat.mod_modEq _ _).mul_right _ |>.add_left _

end VectiLicense.L3.Ed25519
