import Mathlib.Data.List.Forall2
import VectiLicense.Core.Prog

/-!
# Two runs of one pool

What a thread of a `Pool` can learn of the others is stated over two runs: an
`Unwinding` relates states, calls and answers of the two, so that whatever the one
run does next the other can do too. Calls that are related to themselves alone, and
answers likewise, are what an observer sees; the rest may differ.

* `Alike`: two programs that make related calls as long as they get related answers;
  `Alike.bind` puts it together from the parts of a program.
* `Unwinding.run`: from related states, pools of alike programs have related runs.
* `Alike.refl`: a program whose calls the relation leaves alone is like itself.
-/
namespace VectiLicense.Core

variable {E : Type} {R : E → Type} {σ α : Type}

/-- States, calls and answers of two runs, of which the second follows the first. -/
structure Unwinding (env : Env R σ) where
  state : σ → σ → Prop
  call : E → E → Prop
  answer : (e e' : E) → R e → R e' → Prop
  step : ∀ {s t : σ} {e e' : E} {r : R e} {s' : σ}, state s t → call e e' → env e s r s' →
    ∃ r' t', env e' t r' t' ∧ answer e e' r r' ∧ state s' t'

variable {env : Env R σ}

/-- The programs make related calls as long as the answers are related, and then return
results of which `Q` holds. -/
inductive Alike {β : Type} (U : Unwinding env) (Q : α → β → Prop) :
    Prog E R α → Prog E R β → Prop where
  | ret {a : α} {b : β} (h : Q a b) : Alike U Q (.ret a) (.ret b)
  | call {e e' : E} {k : R e → Prog E R α} {k' : R e' → Prog E R β} (h : U.call e e')
      (hk : ∀ r r', U.answer e e' r r' → Alike U Q (k r) (k' r')) :
      Alike U Q (.call e k) (.call e' k')

namespace Alike

variable {β γ δ : Type} {U : Unwinding env} {Q : α → β → Prop}

theorem ask {e e' : E} (h : U.call e e') : Alike U (U.answer e e') (Prog.ask e) (Prog.ask e') :=
  .call h fun _ _ hr => .ret hr

theorem bind {Q' : γ → δ → Prop} {p : Prog E R α} {q : Prog E R β} {f : α → Prog E R γ}
    {f' : β → Prog E R δ} (hp : Alike U Q p q) (hf : ∀ a b, Q a b → Alike U Q' (f a) (f' b)) :
    Alike U Q' (p >>= f) (q >>= f') := by
  induction hp with
  | ret h => exact hf _ _ h
  | call h _ ih => exact .call h ih

/-- A program that only makes calls of `C`, which are related to themselves and
answered alike. -/
theorem refl {Q : α → α → Prop} {C : E → Prop} {p : Prog E R α} (hp : p.Only C)
    (hcall : ∀ e, C e → U.call e e) (hanswer : ∀ e, C e → ∀ r r', U.answer e e r r' → r' = r)
    (hQ : ∀ a, Q a a) : Alike U Q p p := by
  induction p with
  | ret a => exact .ret (hQ a)
  | call e k ih =>
    refine .call (hcall e hp.1) fun r r' h => ?_
    rw [hanswer e hp.1 r r' h]
    exact ih r (hp.2 r)

end Alike

/-- Steps of the same thread, with related calls and answers. -/
def Unwinding.label (U : Unwinding env) (l l' : Nat × Event R) : Prop :=
  l'.1 = l.1 ∧ U.call l.2.1 l'.2.1 ∧ U.answer l.2.1 l'.2.1 l.2.2 l'.2.2

theorem forall₂_set {β γ : Type} {rel : β → γ → Prop} {xs : List β} {ys : List γ}
    (h : List.Forall₂ rel xs ys) {x : β} {y : γ} (hxy : rel x y) (i : Nat) :
    List.Forall₂ rel (xs.set i x) (ys.set i y) := by
  induction h generalizing i with
  | nil => exact .nil
  | cons h₁ h₂ ih =>
    cases i with
    | zero => exact .cons hxy h₂
    | succ i => exact .cons h₁ (ih i)

theorem Unwinding.step_pool (U : Unwinding env) {Q : α → α → Prop} {m m₁ n : Pool E R σ α} {l : Nat × Event R}
    (h : Pool.Step env m l m₁) (hstate : U.state m.shared n.shared)
    (halike : List.Forall₂ (Alike U Q) m.threads n.threads) :
    ∃ l' n₁, Pool.Step env n l' n₁ ∧ U.label l l' ∧ U.state m₁.shared n₁.shared ∧
      List.Forall₂ (Alike U Q) m₁.threads n₁.threads := by
  obtain ⟨i, ⟨e, r⟩⟩ := l
  obtain ⟨k, hi, henv, hthreads⟩ := h
  obtain ⟨hlt, hget⟩ := List.getElem?_eq_some_iff.mp hi
  have hlt' : i < n.threads.length := halike.length_eq ▸ hlt
  have hone := halike.get hlt hlt'
  simp only [List.get_eq_getElem, hget] at hone
  generalize hq : n.threads[i] = q at hone
  cases hone with
  | @call _ e' _ k' hcall hk =>
    obtain ⟨r', t', henv', hanswer, hstate'⟩ := U.step hstate hcall henv
    refine ⟨(i, ⟨e', r'⟩), ⟨t', n.threads.set i (k' r')⟩,
      ⟨k', List.getElem?_eq_some_iff.mpr ⟨hlt', hq⟩, henv', rfl⟩, ⟨rfl, hcall, hanswer⟩, hstate', ?_⟩
    rw [hthreads]
    exact forall₂_set halike (hk r r' hanswer) i

theorem Unwinding.run (U : Unwinding env) {Q : α → α → Prop} {m m' : Pool E R σ α} {ls : List (Nat × Event R)}
    (h : Run (Pool.Step env) m ls m') {n : Pool E R σ α} (hstate : U.state m.shared n.shared)
    (halike : List.Forall₂ (Alike U Q) m.threads n.threads) :
    ∃ ls' n', Run (Pool.Step env) n ls' n' ∧ List.Forall₂ U.label ls ls' ∧
      U.state m'.shared n'.shared ∧ List.Forall₂ (Alike U Q) m'.threads n'.threads := by
  induction h generalizing n with
  | nil m => exact ⟨[], n, .nil n, .nil, hstate, halike⟩
  | cons hstep _ ih =>
    obtain ⟨l', n₁, hstep', hlabel, hstate', halike'⟩ := U.step_pool hstep hstate halike
    obtain ⟨ls', n', hrun, hlabels, hend⟩ := ih hstate' halike'
    exact ⟨l' :: ls', n', .cons hstep' hrun, .cons hlabel hlabels, hend⟩

end VectiLicense.Core
