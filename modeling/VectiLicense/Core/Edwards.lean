import Mathlib.Algebra.Field.Basic
import Mathlib.Tactic.FieldSimp
import Mathlib.Tactic.LinearCombination
import Mathlib.Tactic.Ring

/-!
# Complete twisted Edwards curves

The curve `-x² + y² = 1 + d x² y²` over a field in which `-1` is a square and
`d` is not. The addition formulas then never divide by zero, and the points
are a commutative group (`Edwards.Point`), with `(0, 1)` as its zero.

`Extended` are the extended coordinates in which an implementation computes: a
point is represented by many of them, and every one with `Z ≠ 0`,
`X / Z = x`, `Y / Z = y` and `T / Z = x y` is one of its representatives.

* `Edwards.denom_ne`: no denominator is zero.
* `Edwards.add_assoc_x`, `add_assoc_y`: both ways of adding three points, over
  common denominators.
* `Represents.add`: the unified formulas add points.
-/
namespace VectiLicense.Core

/-- The constants of a curve. -/
structure Edwards (F : Type) [Field F] where
  d : F
  i : F
  i_sq : i ^ 2 = -1
  nonsquare : ∀ z, z ^ 2 ≠ d
  two_ne : (2 : F) ≠ 0

namespace Edwards

variable {F : Type} [Field F] (C : Edwards F)

/-- The curve equation. -/
def On (x y : F) : Prop := -x ^ 2 + y ^ 2 = 1 + C.d * x ^ 2 * y ^ 2

/-- The product that both denominators of a sum are made of. -/
def cross (x₁ y₁ x₂ y₂ : F) : F := C.d * x₁ * x₂ * y₁ * y₂

variable {C} {x₁ y₁ x₂ y₂ : F}

/-- Were the product `1` or `-1`, its `d` would be a square. -/
theorem cross_sq_ne (h₁ : C.On x₁ y₁) (h₂ : C.On x₂ y₂) : C.cross x₁ y₁ x₂ y₂ ^ 2 ≠ 1 := by
  intro hsq
  have hne : C.cross x₁ y₁ x₂ y₂ ≠ 0 := fun h0 => by
    rw [h0] at hsq
    exact absurd hsq (by simp)
  have hx : x₁ ≠ 0 := fun h0 => hne (by rw [cross, h0]; ring)
  have hy : y₁ ≠ 0 := fun h0 => hne (by rw [cross, h0]; ring)
  -- the root is `d (x₁ y₁ (i x₂ + s y₂))²` for either sign
  have hroot : ∀ s : F, s ^ 2 = 1 → C.i * x₂ + s * y₂ = 0 := by
    intro s hs
    by_contra hsum
    refine C.nonsquare ((C.i * x₁ + s * C.cross x₁ y₁ x₂ y₂ * y₁) /
      (x₁ * y₁ * (C.i * x₂ + s * y₂))) ?_
    have hi := C.i_sq
    unfold On at h₁ h₂
    unfold cross at hsq ⊢
    rw [div_pow, div_eq_iff (pow_ne_zero 2 (mul_ne_zero (mul_ne_zero hx hy) hsum))]
    linear_combination h₁ + (y₁ ^ 2 - 1) * hsq - C.d * x₁ ^ 2 * y₁ ^ 2 * h₂ +
      (x₁ ^ 2 - C.d * x₁ ^ 2 * y₁ ^ 2 * x₂ ^ 2) * hi +
      ((C.d * x₁ * x₂ * y₁ * y₂) ^ 2 * y₁ ^ 2 - C.d * x₁ ^ 2 * y₁ ^ 2 * y₂ ^ 2) * hs
  have hplus := hroot 1 (by ring)
  have hminus := hroot (-1) (by ring)
  have hy₂ : y₂ = 0 := by
    have htwo : 2 * y₂ = 0 := by linear_combination hplus - hminus
    exact (mul_eq_zero.mp htwo).resolve_left C.two_ne
  have hx₂ : x₂ = 0 := by
    have hi : C.i ≠ 0 := fun h0 => by
      have hi := C.i_sq
      rw [h0] at hi
      exact absurd hi (by simp)
    have hprod : C.i * x₂ = 0 := by linear_combination hplus - hy₂
    exact (mul_eq_zero.mp hprod).resolve_left hi
  exact hne (by rw [cross, hx₂]; ring)

theorem denom_ne (h₁ : C.On x₁ y₁) (h₂ : C.On x₂ y₂) :
    1 + C.cross x₁ y₁ x₂ y₂ ≠ 0 ∧ 1 - C.cross x₁ y₁ x₂ y₂ ≠ 0 := by
  have hsq := cross_sq_ne h₁ h₂
  refine ⟨fun h0 => hsq ?_, fun h0 => hsq ?_⟩
  · linear_combination (C.cross x₁ y₁ x₂ y₂ - 1) * h0
  · linear_combination -(C.cross x₁ y₁ x₂ y₂ + 1) * h0

variable (C)

/-! ## Points -/

@[ext] structure Point where
  x : F
  y : F
  on : C.On x y

def addX (x₁ y₁ x₂ y₂ : F) : F := (x₁ * y₂ + y₁ * x₂) / (1 + C.cross x₁ y₁ x₂ y₂)
def addY (x₁ y₁ x₂ y₂ : F) : F := (y₁ * y₂ + x₁ * x₂) / (1 - C.cross x₁ y₁ x₂ y₂)

variable {C}

theorem on_add (h₁ : C.On x₁ y₁) (h₂ : C.On x₂ y₂) :
    C.On (C.addX x₁ y₁ x₂ y₂) (C.addY x₁ y₁ x₂ y₂) := by
  obtain ⟨hplus, hminus⟩ := denom_ne h₁ h₂
  unfold On addX addY at *
  rw [div_pow, div_pow]
  field_simp
  unfold cross
  grind

theorem addX_comm (x₁ y₁ x₂ y₂ : F) : C.addX x₁ y₁ x₂ y₂ = C.addX x₂ y₂ x₁ y₁ := by
  have hcross : C.cross x₁ y₁ x₂ y₂ = C.cross x₂ y₂ x₁ y₁ := by unfold cross; ring
  rw [addX, addX, hcross, add_comm, mul_comm x₁, mul_comm y₁]

theorem addY_comm (x₁ y₁ x₂ y₂ : F) : C.addY x₁ y₁ x₂ y₂ = C.addY x₂ y₂ x₁ y₁ := by
  have hcross : C.cross x₁ y₁ x₂ y₂ = C.cross x₂ y₂ x₁ y₁ := by unfold cross; ring
  rw [addY, addY, hcross, mul_comm x₁, mul_comm y₁]

/-! ### Associativity

The sum of three points over one denominator, in either order of adding; what
is left is an identity of polynomials under the three curve equations. -/

section
variable {a b α β x y : F}

theorem cross_div (hα : α ≠ 0) (hβ : β ≠ 0) :
    C.cross (a / α) (b / β) x y = C.d * a * b * x * y / (α * β) := by
  unfold cross
  field_simp

theorem addX_div (hα : α ≠ 0) (hβ : β ≠ 0) :
    C.addX (a / α) (b / β) x y = (a * β * y + b * α * x) / (α * β + C.d * a * b * x * y) := by
  have hne := mul_ne_zero hα hβ
  have hnum : a / α * y + b / β * x = (a * β * y + b * α * x) / (α * β) := by field_simp
  have hden : 1 + C.cross (a / α) (b / β) x y = (α * β + C.d * a * b * x * y) / (α * β) := by
    rw [cross_div hα hβ, add_div, div_self hne]
  rw [addX, hnum, hden, div_div_div_cancel_right₀ hne]

theorem addY_div (hα : α ≠ 0) (hβ : β ≠ 0) :
    C.addY (a / α) (b / β) x y = (b * α * y + a * β * x) / (α * β - C.d * a * b * x * y) := by
  have hne := mul_ne_zero hα hβ
  have hnum : b / β * y + a / α * x = (b * α * y + a * β * x) / (α * β) := by field_simp
  have hden : 1 - C.cross (a / α) (b / β) x y = (α * β - C.d * a * b * x * y) / (α * β) := by
    rw [cross_div hα hβ, sub_div, div_self hne]
  rw [addY, hnum, hden, div_div_div_cancel_right₀ hne]

/-- The common denominators, where the sum is a point. -/
theorem denom_div_ne (hα : α ≠ 0) (hβ : β ≠ 0) (h₁ : C.On (a / α) (b / β)) (h₂ : C.On x y) :
    α * β + C.d * a * b * x * y ≠ 0 ∧ α * β - C.d * a * b * x * y ≠ 0 := by
  have hne := mul_ne_zero hα hβ
  obtain ⟨hplus, hminus⟩ := denom_ne h₁ h₂
  rw [cross_div hα hβ] at hplus hminus
  refine ⟨fun h0 => hplus ?_, fun h0 => hminus ?_⟩
  · rw [← div_self hne, ← add_div, h0, zero_div]
  · rw [← div_self hne, ← sub_div, h0, zero_div]

end

variable {x₃ y₃ : F}

theorem add_assoc_x (h₁ : C.On x₁ y₁) (h₂ : C.On x₂ y₂) (h₃ : C.On x₃ y₃) :
    C.addX (C.addX x₁ y₁ x₂ y₂) (C.addY x₁ y₁ x₂ y₂) x₃ y₃ =
      C.addX x₁ y₁ (C.addX x₂ y₂ x₃ y₃) (C.addY x₂ y₂ x₃ y₃) := by
  obtain ⟨hα, hβ⟩ := denom_ne h₁ h₂
  obtain ⟨hγ, hδ⟩ := denom_ne h₂ h₃
  have hleft := (denom_div_ne hα hβ (on_add h₁ h₂) h₃).1
  have hright := (denom_div_ne hγ hδ (on_add h₂ h₃) h₁).1
  have hl : C.addX (C.addX x₁ y₁ x₂ y₂) (C.addY x₁ y₁ x₂ y₂) x₃ y₃ = _ := addX_div hα hβ
  have hr : C.addX (C.addX x₂ y₂ x₃ y₃) (C.addY x₂ y₂ x₃ y₃) x₁ y₁ = _ := addX_div hγ hδ
  rw [hl, addX_comm x₁ y₁, hr, div_eq_div_iff hleft hright]
  clear hα hβ hγ hδ hleft hright hl hr
  unfold cross
  unfold On at h₁ h₂ h₃
  grind

theorem add_assoc_y (h₁ : C.On x₁ y₁) (h₂ : C.On x₂ y₂) (h₃ : C.On x₃ y₃) :
    C.addY (C.addX x₁ y₁ x₂ y₂) (C.addY x₁ y₁ x₂ y₂) x₃ y₃ =
      C.addY x₁ y₁ (C.addX x₂ y₂ x₃ y₃) (C.addY x₂ y₂ x₃ y₃) := by
  obtain ⟨hα, hβ⟩ := denom_ne h₁ h₂
  obtain ⟨hγ, hδ⟩ := denom_ne h₂ h₃
  have hleft := (denom_div_ne hα hβ (on_add h₁ h₂) h₃).2
  have hright := (denom_div_ne hγ hδ (on_add h₂ h₃) h₁).2
  have hl : C.addY (C.addX x₁ y₁ x₂ y₂) (C.addY x₁ y₁ x₂ y₂) x₃ y₃ = _ := addY_div hα hβ
  have hr : C.addY (C.addX x₂ y₂ x₃ y₃) (C.addY x₂ y₂ x₃ y₃) x₁ y₁ = _ := addY_div hγ hδ
  rw [hl, addY_comm x₁ y₁, hr, div_eq_div_iff hleft hright]
  clear hα hβ hγ hδ hleft hright hl hr
  unfold cross
  unfold On at h₁ h₂ h₃
  grind

/-! ## The group -/

namespace Point

instance : Zero C.Point := ⟨⟨0, 1, by unfold On; ring⟩⟩

instance : Neg C.Point := ⟨fun P => ⟨-P.x, P.y, by have h := P.on; unfold On at *; rwa [neg_sq]⟩⟩

instance : Add C.Point :=
  ⟨fun P Q => ⟨C.addX P.x P.y Q.x Q.y, C.addY P.x P.y Q.x Q.y, on_add P.on Q.on⟩⟩

@[simp] theorem zero_x : (0 : C.Point).x = 0 := rfl
@[simp] theorem zero_y : (0 : C.Point).y = 1 := rfl
@[simp] theorem neg_x (P : C.Point) : (-P).x = -P.x := rfl
@[simp] theorem neg_y (P : C.Point) : (-P).y = P.y := rfl

theorem add_x (P Q : C.Point) : (P + Q).x = C.addX P.x P.y Q.x Q.y := rfl
theorem add_y (P Q : C.Point) : (P + Q).y = C.addY P.x P.y Q.x Q.y := rfl

theorem add_comm' (P Q : C.Point) : P + Q = Q + P :=
  Point.ext (addX_comm ..) (addY_comm ..)

theorem zero_add' (P : C.Point) : 0 + P = P := by
  have hcross : C.cross 0 1 P.x P.y = 0 := by unfold cross; ring
  refine Point.ext ?_ ?_
  · rw [add_x, addX, zero_x, zero_y, hcross]
    ring
  · rw [add_y, addY, zero_x, zero_y, hcross]
    ring

theorem neg_add' (P : C.Point) : -P + P = 0 := by
  obtain ⟨-, hminus⟩ := denom_ne (-P).on P.on
  refine Point.ext ?_ ?_
  · rw [add_x, addX, neg_x, neg_y, zero_x, div_eq_zero_iff]
    exact .inl (by ring)
  · rw [neg_x, neg_y] at hminus
    rw [add_y, addY, neg_x, neg_y, zero_y, div_eq_one_iff_eq hminus]
    have hon := P.on
    unfold On at hon
    unfold cross
    linear_combination hon

instance : AddCommGroup C.Point where
  add_assoc P Q R := Point.ext (add_assoc_x P.on Q.on R.on) (add_assoc_y P.on Q.on R.on)
  zero_add := zero_add'
  add_zero P := (add_comm' P 0).trans (zero_add' P)
  neg_add_cancel := neg_add'
  add_comm := add_comm'
  nsmul := nsmulRec
  zsmul := zsmulRec

/-- Two points with one `y` are a point and its negative. -/
theorem eq_or_eq_neg {P Q : C.Point} (h : P.y = Q.y) : P = Q ∨ P = -Q := by
  have hP := P.on
  have hQ := Q.on
  unfold On at hP hQ
  rw [h] at hP
  -- `d y² + 1` is the other factor, and `-(d y²)` is no square
  have hprod : (P.x - Q.x) * (P.x + Q.x) * (1 + C.d * Q.y ^ 2) = 0 := by
    linear_combination hQ - hP
  have hfactor : 1 + C.d * Q.y ^ 2 ≠ 0 := by
    intro h0
    have hy : Q.y ≠ 0 := fun hy => by
      rw [hy] at h0
      exact absurd h0 (by simp)
    refine C.nonsquare (C.i / Q.y) ?_
    rw [div_pow, C.i_sq, div_eq_iff (pow_ne_zero 2 hy)]
    linear_combination -h0
  rcases mul_eq_zero.mp ((mul_eq_zero.mp hprod).resolve_right hfactor) with hx | hx
  · exact .inl (Point.ext (sub_eq_zero.mp hx) h)
  · exact .inr (Point.ext (eq_neg_of_add_eq_zero_left hx) h)

/-- A point with `x = 0` is its own negative. -/
theorem add_self_of_x {P : C.Point} (h : P.x = 0) : P + P = 0 := by
  have hneg : -P = P := Point.ext (by rw [neg_x, h, neg_zero]) rfl
  conv => lhs; arg 1; rw [← hneg]
  exact neg_add_cancel P

end Point

end Edwards

/-! ## Extended coordinates -/

/-- `X`, `Y`, `Z` and `T`. -/
@[ext] structure Extended (F : Type) where
  x : F
  y : F
  z : F
  t : F
  deriving DecidableEq

section
variable {F : Type} [Field F] {C : Edwards F}

/-- Coordinates of a point. -/
structure Represents (r : Extended F) (P : C.Point) : Prop where
  z : r.z ≠ 0
  x : r.x = P.x * r.z
  y : r.y = P.y * r.z
  t : r.t = P.x * P.y * r.z

namespace Represents

variable {r s : Extended F} {P Q : C.Point}

theorem unique (hP : Represents r P) (hQ : Represents r Q) : P = Q :=
  Edwards.Point.ext (mul_right_cancel₀ hP.z (hP.x.symm.trans hQ.x))
    (mul_right_cancel₀ hP.z (hP.y.symm.trans hQ.y))

theorem zero : Represents (⟨0, 1, 1, 0⟩ : Extended F) (0 : C.Point) :=
  ⟨one_ne_zero, by simp, by simp, by simp⟩

theorem eq_zero_iff (hP : Represents r P) : P = 0 ↔ r.x = 0 ∧ r.y = r.z := by
  rw [hP.x, hP.y, mul_eq_right₀ hP.z, mul_eq_zero_iff_right hP.z]
  exact ⟨fun h => by simp [h], fun h => Edwards.Point.ext h.1 h.2⟩

/-- The sum of two points, over the product of their coordinates' `Z`. -/
theorem add (hP : Represents r P) (hQ : Represents s Q) :
    let a := (r.y - r.x) * (s.y - s.x)
    let b := (r.x + r.y) * (s.x + s.y)
    let c := r.t * s.t * (2 * C.d)
    let d := 2 * (r.z * s.z)
    Represents ⟨(b - a) * (d - c), (b + a) * (d + c), (d + c) * (d - c), (b - a) * (b + a)⟩
      (P + Q) := by
  obtain ⟨hplus, hminus⟩ := Edwards.denom_ne P.on Q.on
  have hzz := mul_ne_zero hP.z hQ.z
  have hc : r.t * s.t * (2 * C.d) = 2 * (r.z * s.z) * C.cross P.x P.y Q.x Q.y := by
    rw [hP.t, hQ.t, Edwards.cross]
    ring
  have hx : (P + Q).x * (1 + C.cross P.x P.y Q.x Q.y) = P.x * Q.y + P.y * Q.x := by
    rw [Edwards.Point.add_x, Edwards.addX, div_mul_cancel₀ _ hplus]
  have hy : (P + Q).y * (1 - C.cross P.x P.y Q.x Q.y) = P.y * Q.y + P.x * Q.x := by
    rw [Edwards.Point.add_y, Edwards.addY, div_mul_cancel₀ _ hminus]
  intro a b c d
  have hsum : b - a = 2 * (r.z * s.z) * (P.x * Q.y + P.y * Q.x) := by
    simp only [a, b, hP.x, hP.y, hQ.x, hQ.y]
    ring
  have hdiff : b + a = 2 * (r.z * s.z) * (P.y * Q.y + P.x * Q.x) := by
    simp only [a, b, hP.x, hP.y, hQ.x, hQ.y]
    ring
  have hdp : d + c = 2 * (r.z * s.z) * (1 + C.cross P.x P.y Q.x Q.y) := by
    simp only [c, d, hc]
    ring
  have hdm : d - c = 2 * (r.z * s.z) * (1 - C.cross P.x P.y Q.x Q.y) := by
    simp only [c, d, hc]
    ring
  have hscale : 2 * (r.z * s.z) ≠ 0 := mul_ne_zero C.two_ne hzz
  rw [hsum, hdiff, hdp, hdm, ← hx, ← hy]
  refine ⟨mul_ne_zero (mul_ne_zero hscale hplus) (mul_ne_zero hscale hminus), ?_, ?_, ?_⟩
  · ring
  · ring
  · ring

end Represents

end

end VectiLicense.Core
