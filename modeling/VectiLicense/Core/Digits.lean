import Mathlib.Algebra.Order.Ring.Int
import Mathlib.Tactic.Positivity
import Mathlib.Tactic.Ring

/-!
# Numbers kept in several words

`radixSum w f n` is the number whose `n` words are `f 0`, `f 1`, …, each worth
`2 ^ w` times the one before. A word need not be a digit: between two carries
it may be negative, or as large as its type allows. `Digits w f n` says that
the first `n` are digits, and the number then determines them.

* `radixSum_update`: what storing over a word does to the number.
* `radixSum_digits`, `Digits.digit_eq`: digits and number, both ways.
* `radixSum_carry`, `radixSum_low`: passing carries up computes quotient and
  remainder.
-/
namespace VectiLicense.Core

open Function

/-- The number that `n` words of weight `2 ^ w` spell. -/
def radixSum (w : Nat) (f : Nat → Int) : Nat → Int
  | 0 => 0
  | n + 1 => radixSum w f n + 2 ^ (w * n) * f n

/-- The first `n` words are digits. -/
def Digits (w : Nat) (f : Nat → Int) (n : Nat) : Prop := ∀ j < n, 0 ≤ f j ∧ f j < 2 ^ w

variable {w n i : Nat} {f g : Nat → Int} {v : Int}

theorem radixSum_zero (w : Nat) (f : Nat → Int) : radixSum w f 0 = 0 := rfl

theorem radixSum_succ (w : Nat) (f : Nat → Int) (n : Nat) :
    radixSum w f (n + 1) = radixSum w f n + 2 ^ (w * n) * f n := rfl

theorem radixSum_congr (h : ∀ j < n, f j = g j) : radixSum w f n = radixSum w g n := by
  induction n with
  | zero => rfl
  | succ n ih =>
    rw [radixSum, radixSum, ih fun j hj => h j (by omega), h n (by omega)]

theorem radixSum_add (w : Nat) (f g : Nat → Int) (n : Nat) :
    radixSum w (fun j => f j + g j) n = radixSum w f n + radixSum w g n := by
  induction n with
  | zero => rfl
  | succ n ih =>
    rw [radixSum, ih, radixSum, radixSum]
    ring

theorem radixSum_sub (w : Nat) (f g : Nat → Int) (n : Nat) :
    radixSum w (fun j => f j - g j) n = radixSum w f n - radixSum w g n := by
  induction n with
  | zero => rfl
  | succ n ih =>
    rw [radixSum, ih, radixSum, radixSum]
    ring

theorem radixSum_mul (w : Nat) (c : Int) (f : Nat → Int) (n : Nat) :
    radixSum w (fun j => c * f j) n = c * radixSum w f n := by
  induction n with
  | zero => exact (mul_zero c).symm
  | succ n ih =>
    rw [radixSum, ih, radixSum]
    ring

theorem radixSum_mono (h : ∀ j < n, f j ≤ g j) : radixSum w f n ≤ radixSum w g n := by
  induction n with
  | zero => exact le_refl 0
  | succ n ih =>
    have hword := mul_le_mul_of_nonneg_left (h n (by omega))
      (show (0 : Int) ≤ 2 ^ (w * n) by positivity)
    have hlow := ih fun j hj => h j (by omega)
    rw [radixSum, radixSum]
    omega

theorem radixSum_update_ge (h : n ≤ i) : radixSum w (update f i v) n = radixSum w f n :=
  radixSum_congr fun j hj => update_of_ne (by omega) _ _

theorem radixSum_update (h : i < n) :
    radixSum w (update f i v) n = radixSum w f n + 2 ^ (w * i) * (v - f i) := by
  induction n with
  | zero => cases h
  | succ n ih =>
    rcases Nat.lt_succ_iff_lt_or_eq.mp h with hi | rfl
    · rw [radixSum, radixSum, ih hi, update_of_ne (by omega)]
      ring
    · rw [radixSum, radixSum, radixSum_update_ge (Nat.le_refl i), update_self]
      ring

theorem radixSum_split (w : Nat) (f : Nat → Int) (m n : Nat) :
    radixSum w f (m + n) = radixSum w f m + 2 ^ (w * m) * radixSum w (fun j => f (m + j)) n := by
  induction n with
  | zero => simp [radixSum]
  | succ n ih =>
    rw [← Nat.add_assoc, radixSum, ih, radixSum, Nat.mul_add, pow_add]
    ring

theorem radixSum_zeros {m : Nat} (hmn : n ≤ m) (h : ∀ j, n ≤ j → j < m → f j = 0) :
    radixSum w f m = radixSum w f n := by
  induction m, hmn using Nat.le_induction with
  | base => rfl
  | succ m hnm ih =>
    rw [radixSum, h m hnm (Nat.lt_succ_self m), mul_zero, add_zero]
    exact ih fun j hj hjm => h j hj (Nat.lt_succ_of_lt hjm)

/-! ## Carries -/

/-- What is passed up from a word: the quotient so far. -/
theorem radixSum_carry (w : Nat) (f : Nat → Int) (n : Nat) :
    radixSum w f (n + 1) / 2 ^ (w * (n + 1)) =
      (f n + radixSum w f n / 2 ^ (w * n)) / 2 ^ w := by
  have hpow : (2 : Int) ^ (w * (n + 1)) = 2 ^ (w * n) * 2 ^ w := by rw [Nat.mul_succ, pow_add]
  rw [radixSum, hpow, ← Int.ediv_ediv_of_nonneg (by positivity),
    Int.add_mul_ediv_left _ _ (by positivity), add_comm]

/-- What stays: the remainder so far. -/
theorem radixSum_low (w : Nat) (f : Nat → Int) (n : Nat) :
    radixSum w f (n + 1) % 2 ^ (w * (n + 1)) = radixSum w f n % 2 ^ (w * n) +
      2 ^ (w * n) * ((f n + radixSum w f n / 2 ^ (w * n)) % 2 ^ w) := by
  have hpow : (2 : Int) ^ (w * (n + 1)) = 2 ^ (w * n) * 2 ^ w := by rw [Nat.mul_succ, pow_add]
  rw [Int.emod_def (radixSum w f (n + 1)), radixSum_carry, Int.emod_def (radixSum w f n),
    Int.emod_def (f n + _), radixSum, hpow]
  ring

/-- The words that stay are the remainder's digits. -/
theorem radixSum_carried (w : Nat) (f : Nat → Int) (n : Nat) :
    radixSum w (fun j => (f j + radixSum w f j / 2 ^ (w * j)) % 2 ^ w) n =
      radixSum w f n % 2 ^ (w * n) := by
  induction n with
  | zero => simp [radixSum]
  | succ n ih => rw [radixSum_low, ← ih, radixSum]

/-- Words of a bounded magnitude pass up no more than that. -/
theorem carry_bounds {C : Int} (hw : 0 < w) (hC : 0 ≤ C) (h : ∀ j < n, -C ≤ f j ∧ f j ≤ C) :
    -C ≤ radixSum w f n / 2 ^ (w * n) ∧ radixSum w f n / 2 ^ (w * n) ≤ C := by
  induction n with
  | zero => simp [radixSum, hC]
  | succ n ih =>
    obtain ⟨hlow, hhigh⟩ := ih fun j hj => h j (by omega)
    obtain ⟨hf, hf'⟩ := h n (by omega)
    have htwo : (2 : Int) ≤ 2 ^ w := by
      exact_mod_cast Nat.pow_le_pow_right (show 0 < 2 by decide) (show 1 ≤ w from hw)
    have hdouble : C * 2 ≤ C * 2 ^ w := mul_le_mul_of_nonneg_left htwo hC
    rw [radixSum_carry]
    constructor
    · rw [Int.le_ediv_iff_mul_le (by omega), neg_mul]
      omega
    · have hle : (f n + radixSum w f n / 2 ^ (w * n)) / 2 ^ w ≤ C * 2 ^ w / 2 ^ w :=
        Int.ediv_le_ediv (by omega) (by omega)
      rwa [Int.mul_ediv_cancel _ (by omega)] at hle

/-! ## Digits -/

theorem Digits.sum_bounds (h : Digits w f n) : 0 ≤ radixSum w f n ∧ radixSum w f n < 2 ^ (w * n) := by
  induction n with
  | zero => exact ⟨le_refl 0, by simp [radixSum]⟩
  | succ n ih =>
    obtain ⟨hlow, hhigh⟩ := ih fun j hj => h j (by omega)
    obtain ⟨hd, hd'⟩ := h n (by omega)
    have hpos : (0 : Int) < 2 ^ (w * n) := by positivity
    have hpow : (2 : Int) ^ (w * (n + 1)) = 2 ^ (w * n) * 2 ^ w := by rw [Nat.mul_succ, pow_add]
    rw [radixSum, hpow]
    constructor
    · have := mul_nonneg hpos.le hd
      omega
    · have := mul_le_mul_of_nonneg_left (Int.add_one_le_of_lt hd') hpos.le
      rw [mul_add, mul_one] at this
      omega

theorem Digits.digit_eq (h : Digits w f n) (hi : i < n) :
    f i = radixSum w f n / 2 ^ (w * i) % 2 ^ w := by
  induction n with
  | zero => cases hi
  | succ n ih =>
    have hlow : Digits w f n := fun j hj => h j (by omega)
    have hpos : (0 : Int) < 2 ^ (w * n) := by positivity
    rcases Nat.lt_succ_iff_lt_or_eq.mp hi with hlt | rfl
    · obtain ⟨k, rfl⟩ : ∃ k, n = i + 1 + k := ⟨n - (i + 1), by omega⟩
      have hpow : (2 : Int) ^ (w * (i + 1 + k)) = 2 ^ (w * i) * (2 ^ w * 2 ^ (w * k)) := by
        rw [← pow_add, ← pow_add]
        ring_nf
      rw [radixSum, hpow, mul_assoc, mul_assoc, Int.add_mul_ediv_left _ _ (by positivity),
        Int.add_mul_emod_self_left]
      exact ih hlow hlt
    · obtain ⟨hnonneg, hlt⟩ := hlow.sum_bounds
      obtain ⟨hd, hd'⟩ := h i (by omega)
      rw [radixSum, Int.add_mul_ediv_left _ _ hpos.ne', Int.ediv_eq_zero_of_lt hnonneg hlt, zero_add,
        Int.emod_eq_of_lt hd hd']

theorem radixSum_digits (w : Nat) (y : Int) (n : Nat) :
    radixSum w (fun j => y / 2 ^ (w * j) % 2 ^ w) n = y % 2 ^ (w * n) := by
  induction n with
  | zero => simp [radixSum]
  | succ n ih =>
    have hdiv : y / (2 ^ (w * n) * 2 ^ w) = y / 2 ^ (w * n) / 2 ^ w :=
      (Int.ediv_ediv_of_nonneg (by positivity)).symm
    rw [radixSum, ih, Nat.mul_succ, pow_add, Int.emod_def, Int.emod_def, Int.emod_def, hdiv]
    ring

end VectiLicense.Core
