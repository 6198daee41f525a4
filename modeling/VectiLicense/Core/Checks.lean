import Mathlib.Data.List.Basic

/-!
# Checks made in an order

A gate that makes its checks one after another and stops at the first that
fails, reporting that check's own error. `FirstFailure l e` says that `e` is
the error of the first failing check of `l`.

* `FirstFailure.unique`: there is at most one such error.
* `Verdict`: an outcome that is the one the checks call for; they determine it
  (`Verdict.eq_error`, `Verdict.eq_ok`).
-/
namespace VectiLicense.Core

/-- What a check asks, and the error it fails with. -/
structure Check (ε : Type) where
  passes : Prop
  error : ε

variable {ε : Type}

/-- Every check passes. -/
def PassAll (l : List (Check ε)) : Prop := ∀ c ∈ l, c.passes

inductive FirstFailure : List (Check ε) → ε → Prop where
  | here {c : Check ε} {l : List (Check ε)} : ¬ c.passes → FirstFailure (c :: l) c.error
  | next {c : Check ε} {l : List (Check ε)} {e : ε} : c.passes → FirstFailure l e →
      FirstFailure (c :: l) e

@[simp] theorem passAll_nil : PassAll ([] : List (Check ε)) := by simp [PassAll]

@[simp] theorem passAll_cons {c : Check ε} {l : List (Check ε)} :
    PassAll (c :: l) ↔ c.passes ∧ PassAll l := List.forall_mem_cons

@[simp] theorem passAll_append {l l' : List (Check ε)} :
    PassAll (l ++ l') ↔ PassAll l ∧ PassAll l' := List.forall_mem_append

theorem PassAll.congr {l l' : List (Check ε)}
    (h : List.Forall₂ (fun c c' => (c.passes ↔ c'.passes) ∧ c.error = c'.error) l l')
    (hp : PassAll l) : PassAll l' := by
  induction h with
  | nil => exact hp
  | cons hc _ ih =>
    obtain ⟨hhead, htail⟩ := passAll_cons.mp hp
    exact passAll_cons.mpr ⟨hc.1.mp hhead, ih htail⟩

namespace FirstFailure

variable {l l' : List (Check ε)} {c : Check ε} {e e' : ε}

theorem of_error (h : ¬ c.passes) (he : c.error = e) : FirstFailure (c :: l) e := by
  subst he
  exact .here h

theorem append (h : FirstFailure l e) : FirstFailure (l ++ l') e := by
  induction h with
  | here hc => exact .here hc
  | next hc _ ih => exact .next hc ih

theorem after (hl : PassAll l) (h : FirstFailure l' e) : FirstFailure (l ++ l') e := by
  induction l with
  | nil => exact h
  | cons c l ih =>
    obtain ⟨hc, hl⟩ := passAll_cons.mp hl
    exact .next hc (ih hl)

theorem mem (h : FirstFailure l e) : ∃ c ∈ l, c.error = e := by
  induction h with
  | here _ => exact ⟨_, List.mem_cons_self, rfl⟩
  | next _ _ ih =>
    obtain ⟨c, hc, he⟩ := ih
    exact ⟨c, List.mem_cons_of_mem _ hc, he⟩

/-- Lists that ask the same in the same order fail alike. -/
theorem congr {l l' : List (Check ε)} {e : ε}
    (h : List.Forall₂ (fun c c' => (c.passes ↔ c'.passes) ∧ c.error = c'.error) l l')
    (hf : FirstFailure l e) : FirstFailure l' e := by
  induction h with
  | nil => cases hf
  | cons hc _ ih =>
    cases hf with
    | here hno => exact of_error (fun hp => hno (hc.1.mpr hp)) hc.2.symm
    | next hp hf => exact .next (hc.1.mp hp) (ih hf)

theorem not_passAll (h : FirstFailure l e) : ¬ PassAll l := by
  induction h with
  | here hc => exact fun hl => hc (passAll_cons.mp hl).1
  | next _ _ ih => exact fun hl => ih (passAll_cons.mp hl).2

theorem unique (h : FirstFailure l e) (h' : FirstFailure l e') : e = e' := by
  induction h with
  | here hc =>
    cases h' with
    | here => rfl
    | next hc' => exact absurd hc' hc
  | next hc _ ih =>
    cases h' with
    | here hc' => exact absurd hc hc'
    | next _ h' => exact ih h'

end FirstFailure

/-- The outcome `r` is the one the checks call for. -/
def Verdict (l : List (Check ε)) {α : Type} : Except ε α → Prop
  | .ok _ => PassAll l
  | .error e => FirstFailure l e

section
variable {α : Type} {l l' : List (Check ε)} {r : Except ε α} {e : ε}

theorem Verdict.eq_error (h : Verdict l r) (he : FirstFailure l e) : r = .error e := by
  cases r with
  | ok a => exact absurd h he.not_passAll
  | error e' => rw [FirstFailure.unique h he]

theorem Verdict.eq_ok (h : Verdict l r) (hl : PassAll l) : ∃ a, r = .ok a := by
  cases r with
  | ok a => exact ⟨a, rfl⟩
  | error e => exact absurd hl (FirstFailure.not_passAll h)

theorem Verdict.after (hl : PassAll l) (h : Verdict l' r) : Verdict (l ++ l') r := by
  cases r with
  | ok a => exact passAll_append.mpr ⟨hl, h⟩
  | error e => exact FirstFailure.after hl h

end

end VectiLicense.Core
