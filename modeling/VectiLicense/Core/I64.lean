import Mathlib.Algebra.Order.Ring.Int
import Mathlib.Tactic.Positivity

/-!
# Signed 64-bit arithmetic without overflow

`int64_t` is `Int64`; an operation whose exact result does not fit is undefined
in C, and `none` here. `Returns x Q` says that a computation has a result, so no
overflow on its way, and that `Q` holds of it; the rules below follow the
computation (a value, a bind, a counted loop). Shifts to the right and masks
never overflow: they are floor division and remainder.
-/
namespace VectiLicense.Core

/-! ## Computations that end -/

section
variable {α β σ : Type}

/-- There is a result, and `Q` holds of it. -/
def Returns (x : Option α) (Q : α → Prop) : Prop := ∃ a, x = some a ∧ Q a

namespace Returns

theorem ret {a : α} {Q : α → Prop} (h : Q a) : Returns (some a) Q := ⟨a, rfl, h⟩

theorem bind {x : Option α} {f : α → Option β} {Q : α → Prop} {R : β → Prop} (hx : Returns x Q)
    (hf : ∀ a, Q a → Returns (f a) R) : Returns (x >>= f) R := by
  obtain ⟨a, rfl, ha⟩ := hx
  exact hf a ha

theorem mono {x : Option α} {Q R : α → Prop} (hx : Returns x Q) (h : ∀ a, Q a → R a) :
    Returns x R := by
  obtain ⟨a, hxa, ha⟩ := hx
  exact ⟨a, hxa, h a ha⟩

/-- A loop over a list, the invariant told how many turns are done. -/
theorem foldlM {ι : Type} {step : σ → ι → Option σ} {I : Nat → σ → Prop} {l : List ι} {s : σ}
    (h0 : I 0 s)
    (hstep : ∀ k i s, l[k]? = some i → I k s → Returns (step s i) (I (k + 1))) :
    Returns (l.foldlM step s) (I l.length) := by
  induction l generalizing I s with
  | nil => exact ret h0
  | cons i l ih =>
    rw [List.foldlM_cons]
    refine bind (hstep 0 i s rfl h0) fun s' hs' => ?_
    exact @ih (fun k => I (k + 1)) s' hs' fun k j s hj => hstep (k + 1) j s hj

theorem finRange {n : Nat} {step : σ → Fin n → Option σ} {I : Nat → σ → Prop} {s : σ}
    (h0 : I 0 s) (hstep : ∀ (i : Fin n) s, I i.val s → Returns (step s i) (I (i.val + 1))) :
    Returns ((List.finRange n).foldlM step s) (I n) := by
  have hturn : ∀ k i s, (List.finRange n)[k]? = some i → I k s →
      Returns (step s i) (I (k + 1)) := by
    intro k i s hi hk
    obtain ⟨hlt, hget⟩ := List.getElem?_eq_some_iff.mp hi
    have hik : i.val = k := by
      rw [← hget, List.getElem_finRange]
      rfl
    subst hik
    exact hstep i s hk
  have h := foldlM h0 hturn
  rwa [List.length_finRange] at h

end Returns

end

/-! ## Operations -/

/-- The exact result, if it fits. -/
def i64? (v : Int) : Option Int64 := if -2 ^ 63 ≤ v ∧ v < 2 ^ 63 then some (Int64.ofInt v) else none

def addI64? (a b : Int64) : Option Int64 := i64? (a.toInt + b.toInt)
def subI64? (a b : Int64) : Option Int64 := i64? (a.toInt - b.toInt)
def mulI64? (a b : Int64) : Option Int64 := i64? (a.toInt * b.toInt)

/-- `a << k`, undefined for a negative `a` too. -/
def shlI64? (a : Int64) (k : Nat) : Option Int64 := if 0 ≤ a then i64? (a.toInt * 2 ^ k) else none

theorem i64?_spec {v : Int} (h : -2 ^ 63 ≤ v ∧ v < 2 ^ 63) :
    Returns (i64? v) (fun c => c.toInt = v) := by
  rw [i64?, if_pos h]
  exact .ret (Int64.toInt_ofInt_of_le h.1 h.2)

theorem addI64?_spec {a b : Int64} {x y : Int} (ha : a.toInt = x) (hb : b.toInt = y)
    (h : -2 ^ 63 ≤ x + y ∧ x + y < 2 ^ 63) : Returns (addI64? a b) (fun c => c.toInt = x + y) := by
  subst ha hb
  exact i64?_spec h

theorem subI64?_spec {a b : Int64} {x y : Int} (ha : a.toInt = x) (hb : b.toInt = y)
    (h : -2 ^ 63 ≤ x - y ∧ x - y < 2 ^ 63) : Returns (subI64? a b) (fun c => c.toInt = x - y) := by
  subst ha hb
  exact i64?_spec h

theorem mulI64?_spec {a b : Int64} {x y : Int} (ha : a.toInt = x) (hb : b.toInt = y)
    (h : -2 ^ 63 ≤ x * y ∧ x * y < 2 ^ 63) : Returns (mulI64? a b) (fun c => c.toInt = x * y) := by
  subst ha hb
  exact i64?_spec h

theorem shlI64?_spec {a : Int64} {x : Int} {k : Nat} (ha : a.toInt = x) (hx : 0 ≤ x)
    (h : x * 2 ^ k < 2 ^ 63) : Returns (shlI64? a k) (fun c => c.toInt = x * 2 ^ k) := by
  subst ha
  have hpos : 0 ≤ a.toInt * 2 ^ k := by positivity
  have hle : (0 : Int64) ≤ a := Int64.le_iff_toInt_le.mpr hx
  rw [shlI64?, if_pos hle]
  exact i64?_spec (by omega)

/-- The arithmetic shift rounds down. -/
theorem toInt_sar (a : Int64) {b : Int64} {k : Nat} (hb : b.toBitVec.smod 64 = BitVec.ofNat 64 k)
    (hk : k < 64) : (a >>> b).toInt = a.toInt / 2 ^ k := by
  have hshift : (a >>> b).toBitVec = a.toBitVec.sshiftRight' (b.toBitVec.smod 64) := rfl
  rw [← Int64.toInt_toBitVec, hshift, hb, BitVec.sshiftRight_eq', BitVec.toInt_sshiftRight,
    BitVec.toNat_ofNat, Nat.mod_eq_of_lt (by omega), Int.shiftRight_eq_div_pow]
  rfl

/-- A mask of low bits takes the remainder, of a negative number too. -/
theorem toInt_mask (a : Int64) {m : Int64} {k : Nat} (hm : m.toBitVec.toNat = 2 ^ k - 1)
    (hk : k < 63) : (a &&& m).toInt = a.toInt % 2 ^ k := by
  have hand : (a &&& m).toBitVec.toNat = a.toBitVec.toNat % 2 ^ k := by
    rw [Int64.toBitVec_and, BitVec.toNat_and, hm, Nat.and_two_pow_sub_one_eq_mod]
  have hlt : a.toBitVec.toNat % 2 ^ k < 2 ^ 63 :=
    Nat.lt_trans (Nat.mod_lt _ (Nat.two_pow_pos k)) (Nat.pow_lt_pow_right (by decide) hk)
  have hmod : a.toInt % 2 ^ k = (a.toBitVec.toNat : Int) % 2 ^ k := by
    have hdvd : (2 : Int) ^ k ∣ (2 ^ 64 : Nat) := by
      exact_mod_cast Nat.pow_dvd_pow 2 (show k ≤ 64 by omega)
    rw [← Int64.toInt_toBitVec, BitVec.toInt_eq_toNat_bmod, ← Int.emod_emod_of_dvd _ hdvd,
      Int.bmod_emod, Int.emod_emod_of_dvd _ hdvd]
  rw [← Int64.toInt_toBitVec, BitVec.toInt_eq_toNat_of_lt (by omega), hand, hmod]
  norm_cast

/-! ## Arrays -/

section
variable {n : Nat}

/-- The words of an array as integers, zero past its end. -/
def i64s (t : Fin n → Int64) (j : Nat) : Int := if h : j < n then (t ⟨j, h⟩).toInt else 0

theorem i64s_val (t : Fin n → Int64) (i : Fin n) : i64s t i.val = (t i).toInt := by
  rw [i64s, dif_pos i.isLt]

theorem i64s_mk (t : Fin n → Int64) {j : Nat} (hj : j < n) : i64s t j = (t ⟨j, hj⟩).toInt := by
  rw [i64s, dif_pos hj]

theorem i64s_of_ge (t : Fin n → Int64) {j : Nat} (hj : n ≤ j) : i64s t j = 0 := by
  rw [i64s, dif_neg (by omega)]

theorem i64s_update (t : Fin n → Int64) (i : Fin n) (v : Int64) :
    i64s (Function.update t i v) = Function.update (i64s t) i.val v.toInt := by
  funext j
  unfold i64s
  by_cases hj : j < n
  · rw [dif_pos hj]
    by_cases hji : j = i.val
    · subst hji
      rw [Function.update_self, Function.update_self]
    · rw [Function.update_of_ne hji, dif_pos hj,
        Function.update_of_ne fun h => hji (congrArg Fin.val h)]
  · have hji : j ≠ i.val := fun h => hj (h ▸ i.isLt)
    rw [dif_neg hj, Function.update_of_ne hji, dif_neg hj]

end

end VectiLicense.Core
