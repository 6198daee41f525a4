import VectiLicense.L3Ed25519.Verify

/-!
# Accepted public keys

A key that `unpackneg` accepts is the one canonical encoding of a point whose
eightfold is not the zero; a key that denotes a point of low order, in whatever
spelling, verifies nothing.

* `Unpacked.encode`: the accepted key is the encoding of its point.
* `unpackneg_low_order`: no spelling of a point of low order is accepted.
* `accepted_keys`: the two together, over all keys.
-/
namespace VectiLicense.L3.Ed25519

open VectiLicense.Core

theorem Unpacked.encode {p : Vector UInt8 32} {P : curve.Point} {r : Ge} (h : Unpacked p P r) :
    p = encode P := by
  have hlt := leVal_lt p
  have hy : P.y.val = leVal p % 2 ^ 255 := by
    rw [h.denotes.y, unpack25519, ZMod.val_natCast, Nat.mod_eq_of_lt h.canonical]
  rw [← leVal_inj, leVal_encode, hy, h.sign]
  omega

/-- The sign of `r` is not the key's. -/
theorem Unpacked.parity {p : Vector UInt8 32} {P : curve.Point} {r : Ge} (h : Unpacked p P r) :
    r.x.val % 2 ≠ leVal p / 2 ^ 255 := by
  rw [h.coords, ← h.sign]
  exact neg_parity (x_ne_zero h.order)

/-- Three doublings of `r`, by the code's own formulas, do not reach the zero. -/
theorem Unpacked.eightfold {p : Vector UInt8 32} {P : curve.Point} {r : Ge}
    (h : Unpacked p P r) :
    let t := add r r
    let t := add t t
    let t := add t t
    t.z ≠ 0 ∧ ¬ (t.x = 0 ∧ t.y = t.z) := by
  have h₂ := add_represents h.represents h.represents
  have h₄ := add_represents h₂ h₂
  have h₈ := add_represents h₄ h₄
  have height : -P + -P + (-P + -P) + (-P + -P + (-P + -P)) = -(8 • P) := by abel
  rw [height] at h₈
  refine ⟨h₈.z, ?_⟩
  rw [← h₈.eq_zero_iff, neg_eq_zero]
  exact h.order

theorem unpackneg_low_order {pk : Vector UInt8 32} {P : curve.Point} (hden : Denotes pk P)
    (hlow : 8 • P = 0) : unpackneg pk = none := by
  cases hkey : unpackneg pk with
  | none => rfl
  | some r =>
    obtain ⟨Q, hQ⟩ := unpackneg_spec hkey
    rw [hQ.denotes.unique hden] at hQ
    exact absurd hlow hQ.order

/-- **Accepted keys.** What `unpackneg` returns, that two keys are two points,
and that a key of low order verifies no signature. -/
theorem accepted_keys :
    (∀ p r, unpackneg p = some r →
      leVal p % 2 ^ 255 < 2 ^ 255 - 19 ∧
      r.z = 1 ∧ r.y = ((leVal p % 2 ^ 255 : Nat) : Gf) ∧ r.t = r.x * r.y ∧
      -r.x ^ 2 + r.y ^ 2 = 1 + D * r.x ^ 2 * r.y ^ 2 ∧
      r.x.val % 2 ≠ leVal p / 2 ^ 255 ∧
      (∃ P, Denotes p P ∧ Represents r (-P) ∧ 8 • P ≠ 0) ∧
      let t := add r r
      let t := add t t
      let t := add t t
      t.z ≠ 0 ∧ ¬ (t.x = 0 ∧ t.y = t.z)) ∧
    (∀ p p' r r' P P', unpackneg p = some r → unpackneg p' = some r' →
      Denotes p P → Denotes p' P' → p ≠ p' → P ≠ P') ∧
    (∀ pk P, Denotes pk P →
      addOrderOf P = 1 ∨ addOrderOf P = 2 ∨ addOrderOf P = 4 ∨ addOrderOf P = 8 →
      ∀ buffer sig msg msgLen, vlEd25519Verify buffer sig msg msgLen (some pk) = some 0) := by
  refine ⟨?_, ?_, ?_⟩
  · intro p r hr
    obtain ⟨P, hP⟩ := unpackneg_spec hr
    have hon := P.on
    refine ⟨hP.canonical, ?_, ?_, ?_, ?_, hP.parity, ⟨P, hP.denotes, hP.represents, hP.order⟩,
      hP.eightfold⟩
    · rw [hP.coords]
    · rw [hP.coords]
      exact hP.denotes.y
    · rw [hP.coords]
    · rw [hP.coords]
      change -(-P.x) ^ 2 + P.y ^ 2 = 1 + D * (-P.x) ^ 2 * P.y ^ 2
      rwa [neg_sq]
  · intro p p' r r' P P' hr hr' hP hP' hne heq
    obtain ⟨Q, hQ⟩ := unpackneg_spec hr
    obtain ⟨Q', hQ'⟩ := unpackneg_spec hr'
    refine hne ?_
    rw [hQ.encode, hQ'.encode, hQ.denotes.unique hP, hQ'.denotes.unique hP', heq]
  · intro pk P hden horder buffer sig msg msgLen
    have hdvd : addOrderOf P ∣ 8 := by
      rcases horder with h | h | h | h <;> exact Nat.dvd_of_mod_eq_zero (by rw [h])
    have hlow : 8 • P = 0 := addOrderOf_dvd_iff_nsmul_eq_zero.mp hdvd
    exact vlEd25519Verify_of_refused (unpackneg_low_order hden hlow) buffer sig msg msgLen

/-- The point of 32 zero bytes. -/
def placeholder : curve.Point := ⟨I, 0, by unfold Edwards.On; decide +kernel⟩

theorem denotes_placeholder : Denotes (Vector.replicate 32 0) placeholder := by
  refine ⟨?_, fun _ => ?_⟩
  · decide +kernel
  · decide +kernel

theorem addOrderOf_placeholder : addOrderOf placeholder = 2 ^ (1 + 1) := by
  refine addOrderOf_eq_prime_pow (fun h => ?_) ?_
  · rw [pow_one, two_nsmul] at h
    have hy := congrArg Edwards.Point.y h
    rw [Edwards.Point.add_y, Edwards.addY, Edwards.cross] at hy
    revert hy
    decide +kernel
  · have hx : (placeholder + placeholder).x = 0 := by
      rw [Edwards.Point.add_x, Edwards.addX]
      decide +kernel
    rw [show 2 ^ (1 + 1) = 2 * 2 by rfl, mul_nsmul, two_nsmul, two_nsmul,
      Edwards.Point.add_self_of_x hx]

/-- The base point and its negative are keys, 32 zero bytes are none. -/
theorem accepted_keys_base :
    leVal (encode base) % 2 ^ 255 < 2 ^ 255 - 19 ∧ base ≠ -base ∧
      vlEd25519Verify (Vector.replicate 128 0) (some (Vector.replicate 64 0)) none 0
        (some (Vector.replicate 32 0)) = some 0 := by
  have hbase : unpackneg (encode base) = some ⟨-X, Y, 1, -X * Y⟩ := by decide +kernel
  have hneg : unpackneg (encode (-base)) = some ⟨X, Y, 1, X * Y⟩ := by decide +kernel
  refine ⟨(accepted_keys.1 _ _ hbase).1, ?_, ?_⟩
  · exact accepted_keys.2.1 _ _ _ _ _ _ hbase hneg (denotes_encode _) (denotes_encode _)
      (by decide +kernel)
  · exact accepted_keys.2.2 _ placeholder denotes_placeholder
      (.inr (.inr (.inl addOrderOf_placeholder))) _ _ _ _

end VectiLicense.L3.Ed25519
