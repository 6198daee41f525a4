/-!
# Labelled runs

A system is a step relation `step s l s'` on states `σ` with labels `ℓ`; a
run is a finite sequence of steps, kept with its labels. Everything later in
the development that speaks of "every run" (calls one after another, threads
interleaved at their callbacks, faults striking at any time) is a `Run` of
some step relation, so the induction is done here once:

* `Run.inv`: an invariant kept by every step holds at the end of a run;
* `Run.imp`: a run of stronger steps is a run of weaker ones;
* `Run.append_iff`: a run of `a ++ b` is a run of `a` followed by one of `b`,
  which is how "some step, and some later step" is taken apart;
* `Run.mem_step`: every label of a run comes from a step between two states
  the run passes through.
-/
namespace VectiLicense.Core

variable {σ ℓ : Type}

/-- `Run step s ls s'`: from `s`, taking the steps `ls` in order, to `s'`. -/
inductive Run (step : σ → ℓ → σ → Prop) : σ → List ℓ → σ → Prop where
  | nil (s : σ) : Run step s [] s
  | cons {s s₁ s' : σ} {l : ℓ} {ls : List ℓ} :
      step s l s₁ → Run step s₁ ls s' → Run step s (l :: ls) s'

namespace Run

variable {step : σ → ℓ → σ → Prop}

@[simp] theorem nil_iff {s s' : σ} : Run step s [] s' ↔ s' = s := by
  refine ⟨?_, ?_⟩
  · intro h
    cases h; rfl
  · intro h
    obtain rfl := h
    exact .nil _

@[simp] theorem cons_iff {s s' : σ} {l : ℓ} {ls : List ℓ} :
    Run step s (l :: ls) s' ↔ ∃ s₁, step s l s₁ ∧ Run step s₁ ls s' := by
  refine ⟨?_, ?_⟩
  · intro h
    cases h with
    | cons h₁ h₂ => exact ⟨_, h₁, h₂⟩
  · intro h
    obtain ⟨s₁, h₁, h₂⟩ := h
    exact .cons h₁ h₂

theorem append_iff {s s' : σ} {as bs : List ℓ} :
    Run step s (as ++ bs) s' ↔ ∃ m, Run step s as m ∧ Run step m bs s' := by
  induction as generalizing s with
  | nil => simp
  | cons l ls ih =>
    simp only [List.cons_append, cons_iff, ih]
    refine ⟨?_, ?_⟩
    · intro h
      obtain ⟨s₁, h₁, m, h₂, h₃⟩ := h
      exact ⟨m, ⟨s₁, h₁, h₂⟩, h₃⟩
    · intro h
      obtain ⟨m, ⟨s₁, h₁, h₂⟩, h₃⟩ := h
      exact ⟨s₁, h₁, m, h₂, h₃⟩

/-- An invariant of every step is an invariant of the run. -/
theorem inv {I : σ → Prop} (hI : ∀ s l s', step s l s' → I s → I s') {s s' : σ} {ls : List ℓ}
    (h : Run step s ls s') (h0 : I s) : I s' := by
  induction h with
  | nil => exact h0
  | cons h₁ _ ih => exact ih (hI _ _ _ h₁ h0)

theorem imp {step' : σ → ℓ → σ → Prop} (hs : ∀ s l s', step s l s' → step' s l s') {s s' : σ}
    {ls : List ℓ} (h : Run step s ls s') : Run step' s ls s' := by
  induction h with
  | nil s => exact .nil s
  | cons h₁ _ ih => exact .cons (hs _ _ _ h₁) ih

/-- Every label of a run was a step between two states of the run. -/
theorem mem_step {s s' : σ} {ls : List ℓ} (h : Run step s ls s') {l : ℓ} (hl : l ∈ ls) :
    ∃ as bs m m', ls = as ++ l :: bs ∧ Run step s as m ∧ step m l m' ∧ Run step m' bs s' := by
  obtain ⟨as, bs, rfl⟩ := List.append_of_mem hl
  obtain ⟨m, h₁, h₂⟩ := append_iff.mp h
  obtain ⟨m', h₃, h₄⟩ := cons_iff.mp h₂
  exact ⟨as, bs, m, m', rfl, h₁, h₃, h₄⟩

end Run

end VectiLicense.Core
