import VectiLicense.Core.Run

/-!
# Programs that call out to an environment

`Prog E R α` is a program that returns an `α` after asking its environment
finitely many questions `e : E`, each answered in `R e`. The same program is
read in four ways:

* `Exec env`: against a relational environment (answers may be arbitrary,
  faults included), giving the trace of calls and answers;
* `run h`: against a handler, a function of the environment's own state;
* `answer f`: with a fixed answer to each question;
* `Pool.Step env`: as one of many threads over a shared state, one call
  being one atomic step.

A `Protocol` is an automaton over calls and answers. `Protocol.wp` is the
weakest precondition of a program relative to it: which calls the program
makes in which phase, and what holds in the final phase. It is proved of a
program once and then used for its runs alone (`wp_run`) and for its runs
among other threads (`Pool.run_inv`).
-/
namespace VectiLicense.Core

/-- Programs over the calls `E`; a call `e` is answered in `R e`. -/
inductive Prog (E : Type) (R : E → Type) (α : Type) where
  | ret (a : α)
  | call (e : E) (k : R e → Prog E R α)

/-- A call with its answer. -/
abbrev Event {E : Type} (R : E → Type) := (e : E) × R e

/-- A relational environment: in state `s`, call `e` may be answered `r`,
leaving `s'`. -/
abbrev Env {E : Type} (R : E → Type) (σ : Type) := (e : E) → σ → R e → σ → Prop

/-- A deterministic environment. -/
abbrev Handler {E : Type} (R : E → Type) (σ : Type) := (e : E) → σ → R e × σ

def Handler.env {E : Type} {R : E → Type} {σ : Type} (h : Handler R σ) : Env R σ :=
  fun e s r s' => h e s = (r, s')

variable {E : Type} {R : E → Type} {α β σ ε : Type}

namespace Prog

def bind : Prog E R α → (α → Prog E R β) → Prog E R β
  | .ret a, f => f a
  | .call e k, f => .call e fun r => (k r).bind f

instance : Monad (Prog E R) where
  pure := .ret
  bind := bind

@[simp] theorem pure_eq (a : α) : (pure a : Prog E R α) = .ret a := rfl
@[simp] theorem ret_bind (a : α) (f : α → Prog E R β) : (Prog.ret a >>= f) = f a := rfl
@[simp] theorem call_bind (e : E) (k : R e → Prog E R α) (f : α → Prog E R β) :
    (Prog.call e k >>= f) = .call e fun r => k r >>= f := rfl

/-- Ask one question. -/
def ask (e : E) : Prog E R (R e) := .call e .ret

/-- The call a program makes next. -/
def next? : Prog E R α → Option E
  | .ret _ => none
  | .call e _ => some e

/-! ## Execution against a relational environment -/

inductive Exec (env : Env R σ) : Prog E R α → σ → List (Event R) → α → σ → Prop where
  | ret (a : α) (s : σ) : Exec env (.ret a) s [] a s
  | call {e : E} {k : R e → Prog E R α} {s s₁ s' : σ} {r : R e} {t : List (Event R)} {a : α} :
      env e s r s₁ → Exec env (k r) s₁ t a s' → Exec env (.call e k) s (⟨e, r⟩ :: t) a s'

section
variable {env : Env R σ} {s s' : σ} {t : List (Event R)} {a : α} {b : β}

@[simp] theorem exec_ret {x : α} : Exec env (.ret x) s t a s' ↔ t = [] ∧ a = x ∧ s' = s := by
  refine ⟨?_, ?_⟩
  · intro h
    cases h; exact ⟨rfl, rfl, rfl⟩
  · intro h
    obtain ⟨rfl, rfl, rfl⟩ := h
    exact .ret _ _

theorem exec_call {e : E} {k : R e → Prog E R α} :
    Exec env (.call e k) s t a s' ↔
      ∃ r s₁ t', t = ⟨e, r⟩ :: t' ∧ env e s r s₁ ∧ Exec env (k r) s₁ t' a s' := by
  refine ⟨?_, ?_⟩
  · intro h
    cases h with
    | call h₁ h₂ => exact ⟨_, _, _, rfl, h₁, h₂⟩
  · intro h
    obtain ⟨r, s₁, t', rfl, h₁, h₂⟩ := h
    exact .call h₁ h₂

theorem exec_bind {p : Prog E R α} {f : α → Prog E R β} :
    Exec env (p >>= f) s t b s' ↔
      ∃ a s₁ t₁ t₂, t = t₁ ++ t₂ ∧ Exec env p s t₁ a s₁ ∧ Exec env (f a) s₁ t₂ b s' := by
  induction p generalizing s t with
  | ret a =>
    simp only [ret_bind, exec_ret]
    refine ⟨?_, ?_⟩
    · intro h
      exact ⟨a, s, [], t, rfl, ⟨rfl, rfl, rfl⟩, h⟩
    · intro h
      obtain ⟨a', s₁, t₁, t₂, rfl, ⟨rfl, rfl, rfl⟩, h⟩ := h
      exact h
  | call e k ih =>
    simp only [call_bind, exec_call, ih]
    refine ⟨?_, ?_⟩
    · intro h
      obtain ⟨r, s₁, _, rfl, h₁, a, s₂, t₁, t₂, rfl, h₂, h₃⟩ := h
      exact ⟨a, s₂, ⟨e, r⟩ :: t₁, t₂, rfl, ⟨r, s₁, t₁, rfl, h₁, h₂⟩, h₃⟩
    · intro h
      obtain ⟨a, s₂, _, t₂, rfl, ⟨r, s₁, t₁, rfl, h₁, h₂⟩, h₃⟩ := h
      exact ⟨r, s₁, t₁ ++ t₂, rfl, h₁, a, s₂, t₁, t₂, rfl, h₂, h₃⟩

theorem exec_ask {e : E} {r : R e} :
    Exec env (ask e) s t r s' ↔ t = [⟨e, r⟩] ∧ env e s r s' := by
  simp only [ask, exec_call, exec_ret]
  refine ⟨?_, ?_⟩
  · intro h
    obtain ⟨r', s₁, t', rfl, h, rfl, rfl, rfl⟩ := h
    exact ⟨rfl, h⟩
  · intro h
    obtain ⟨rfl, h⟩ := h
    exact ⟨r, s', [], rfl, h, rfl, rfl, rfl⟩

/-- Environments with the same transitions on the events of `t` execute alike. -/
theorem Exec.mono {env' : Env R σ} {p : Prog E R α}
    (he : ∀ e s r s', env e s r s' → env' e s r s') (h : Exec env p s t a s') :
    Exec env' p s t a s' := by
  induction h with
  | ret a s => exact .ret a s
  | call h₁ _ ih => exact .call (he _ _ _ _ h₁) ih

/-- Every event of an execution was an answer of the environment. -/
theorem Exec.answered {p : Prog E R α} (h : Exec env p s t a s') :
    ∀ ev ∈ t, ∃ s₁ s₂, env ev.1 s₁ ev.2 s₂ := by
  induction h with
  | ret => simp
  | call h₁ _ ih => exact List.forall_mem_cons.mpr ⟨⟨_, _, h₁⟩, ih⟩

/-- What the calls of `C` do not change, an execution of such calls does not. -/
theorem Exec.keeps {τ : Type} {f : σ → τ} {C : E → Prop} {p : Prog E R α}
    (hf : ∀ e s r s', C e → env e s r s' → f s' = f s) (h : Exec env p s t a s')
    (ht : ∀ ev ∈ t, C ev.1) : f s' = f s := by
  induction h with
  | ret => rfl
  | call he _ ih =>
    obtain ⟨hc, ht⟩ := List.forall_mem_cons.mp ht
    exact (ih ht).trans (hf _ _ _ _ hc he)

theorem exists_exec (henv : ∀ e s, ∃ r s', env e s r s') (p : Prog E R α) (s : σ) :
    ∃ t a s', Exec env p s t a s' := by
  induction p generalizing s with
  | ret a => exact ⟨[], a, s, .ret a s⟩
  | call e k ih =>
    obtain ⟨r, s₁, he⟩ := henv e s
    obtain ⟨t, a, s', hk⟩ := ih r s₁
    exact ⟨_, a, s', .call he hk⟩

/-- From `s` the program returns `a`, nothing else, and leaves `s` as it is. -/
def Yields (env : Env R σ) (p : Prog E R α) (s : σ) (a : α) : Prop :=
  (∃ t, Exec env p s t a s) ∧ ∀ t b s', Exec env p s t b s' → b = a ∧ s' = s

theorem Yields.ret (a : α) : Yields env (.ret a) s a := by
  refine ⟨⟨[], .ret _ _⟩, fun t b s' h => ?_⟩
  obtain ⟨-, rfl, rfl⟩ := exec_ret.mp h
  exact ⟨rfl, rfl⟩

theorem Yields.bind {p : Prog E R α} {f : α → Prog E R β} (hp : Yields env p s a)
    (hf : Yields env (f a) s b) : Yields env (p >>= f) s b := by
  obtain ⟨t₁, h₁⟩ := hp.1
  obtain ⟨t₂, h₂⟩ := hf.1
  refine ⟨⟨_, exec_bind.mpr ⟨a, s, t₁, t₂, rfl, h₁, h₂⟩⟩, fun t c s' h => ?_⟩
  obtain ⟨x, s₁, t₃, t₄, -, hx, hc⟩ := exec_bind.mp h
  obtain ⟨rfl, rfl⟩ := hp.2 _ _ _ hx
  exact hf.2 _ _ _ hc

end

end Prog

/-- The answers for which `C` holds. -/
def Env.given (env : Env R σ) (C : σ → Event R → Prop) : Env R σ :=
  fun e s r s' => env e s r s' ∧ C s ⟨e, r⟩

/-- Calls that are themselves programs over another environment: a call is one
execution of its program. -/
def Env.lower {E' : Type} {R' : E' → Type} (env : Env R' σ) (h : (e : E) → Prog E' R' (R e)) :
    Env R σ :=
  fun e s r s' => ∃ t, Prog.Exec env (h e) s t r s'

theorem Env.lower_total {E' : Type} {R' : E' → Type} {env : Env R' σ}
    (henv : ∀ e s, ∃ r s', env e s r s') (h : (e : E) → Prog E' R' (R e)) (e : E) (s : σ) :
    ∃ r s', env.lower h e s r s' := by
  obtain ⟨t, r, s', hexec⟩ := Prog.exists_exec henv (h e) s
  exact ⟨r, s', t, hexec⟩

namespace Prog

/-- A program whose calls are themselves programs. -/
def lower {E' : Type} {R' : E' → Type} (h : (e : E) → Prog E' R' (R e)) :
    Prog E R α → Prog E' R' α
  | .ret a => .ret a
  | .call e k => h e >>= fun r => (k r).lower h

/-- It runs as the program does where its calls are lowered. -/
theorem Exec.of_lower {E' : Type} {R' : E' → Type} {env : Env R' σ}
    {h : (e : E) → Prog E' R' (R e)} {p : Prog E R α} {s s' : σ} {t : List (Event R')} {a : α}
    (hp : Exec env (p.lower h) s t a s') : ∃ t', Exec (env.lower h) p s t' a s' := by
  induction p generalizing s t with
  | ret x =>
    obtain ⟨-, rfl, rfl⟩ := exec_ret.mp hp
    exact ⟨[], .ret _ _⟩
  | call e k ih =>
    obtain ⟨r, s₁, t₁, t₂, -, hcall, hrest⟩ := exec_bind.mp hp
    obtain ⟨t', hk⟩ := ih r hrest
    exact ⟨_, .call ⟨t₁, hcall⟩ hk⟩

theorem Exec.given {env : Env R σ} {C : σ → Event R → Prop} {p : Prog E R α} {s s' : σ}
    {t : List (Event R)} {a : α} (h : Exec (env.given C) p s t a s') : Exec env p s t a s' :=
  h.mono fun _ _ _ _ hans => hans.1

/-! ## Execution against a handler -/

structure Outcome (R : E → Type) (σ α : Type) where
  val : α
  st : σ
  trace : List (Event R)

def run (h : Handler R σ) : Prog E R α → σ → Outcome R σ α
  | .ret a, s => ⟨a, s, []⟩
  | .call e k, s =>
    let o := run h (k (h e s).1) (h e s).2
    ⟨o.val, o.st, ⟨e, (h e s).1⟩ :: o.trace⟩

/-- A handler's run is the one execution of its environment. -/
theorem exec_env_iff {h : Handler R σ} {p : Prog E R α} {s s' : σ} {t : List (Event R)} {a : α} :
    Exec h.env p s t a s' ↔ p.run h s = ⟨a, s', t⟩ := by
  induction p generalizing s t with
  | ret x =>
    simp only [exec_ret, run, Outcome.mk.injEq]
    refine ⟨?_, ?_⟩
    · intro h
      obtain ⟨rfl, rfl, rfl⟩ := h
      exact ⟨rfl, rfl, rfl⟩
    · intro h
      obtain ⟨rfl, rfl, rfl⟩ := h
      exact ⟨rfl, rfl, rfl⟩
  | call e k ih =>
    simp only [exec_call, run, Outcome.mk.injEq, ih, Handler.env]
    refine ⟨?_, ?_⟩
    · intro h
      obtain ⟨r, s₁, t', rfl, he, hr⟩ := h
      rw [he]; simp [hr]
    · intro h
      obtain ⟨rfl, rfl, rfl⟩ := h
      exact ⟨_, _, _, rfl, rfl, rfl⟩

theorem exec_run (h : Handler R σ) (p : Prog E R α) (s : σ) :
    Exec h.env p s (p.run h s).trace (p.run h s).val (p.run h s).st :=
  exec_env_iff.mpr rfl

@[simp] theorem run_ret (h : Handler R σ) (a : α) (s : σ) :
    (Prog.ret a : Prog E R α).run h s = ⟨a, s, []⟩ := rfl

/-! ## Which calls a program makes -/

/-- Every call the program can make satisfies `C`. -/
def Only (C : E → Prop) : Prog E R α → Prop
  | .ret _ => True
  | .call e k => C e ∧ ∀ r, Only C (k r)

theorem Only.bind {C : E → Prop} {p : Prog E R α} {f : α → Prog E R β} (hp : p.Only C)
    (hf : ∀ a, (f a).Only C) : (p >>= f).Only C := by
  induction p with
  | ret a => exact hf a
  | call e k ih => exact ⟨hp.1, fun r => ih r (hp.2 r)⟩

theorem Only.mono {C D : E → Prop} {p : Prog E R α} (h : ∀ e, C e → D e) (hp : p.Only C) :
    p.Only D := by
  induction p with
  | ret a => trivial
  | call e k ih => exact ⟨h _ hp.1, fun r => ih r (hp.2 r)⟩

theorem Only.trace {C : E → Prop} {env : Env R σ} {p : Prog E R α} {s s' : σ}
    {t : List (Event R)} {a : α} (hp : p.Only C) (h : Exec env p s t a s') :
    ∀ ev ∈ t, C ev.1 := by
  induction h with
  | ret => simp
  | call _ _ ih => exact List.forall_mem_cons.mpr ⟨hp.1, ih (hp.2 _)⟩

/-- What a program returns when call `e` is always answered `f e`. -/
def answer (f : (e : E) → R e) : Prog E R α → α
  | .ret a => a
  | .call e k => (k (f e)).answer f

/-- Against an environment that answers the calls of `C` by `f` and keeps its
state, a program that only makes such calls returns its `answer`. -/
theorem Only.exec_answer {C : E → Prop} {f : (e : E) → R e} {env : Env R σ} {p : Prog E R α}
    {s s' : σ} {t : List (Event R)} {a : α} (hp : p.Only C)
    (hf : ∀ e s r s', C e → env e s r s' → r = f e ∧ s' = s) (h : Exec env p s t a s') :
    a = p.answer f ∧ s' = s := by
  induction h with
  | ret => exact ⟨rfl, rfl⟩
  | call he _ ih =>
    obtain ⟨rfl, rfl⟩ := hf _ _ _ _ hp.1 he
    exact ih (hp.2 _)

/-- Such an environment, if it can give the answers `f`, does run the program. -/
theorem Only.exec_of_answer {C : E → Prop} {f : (e : E) → R e} {env : Env R σ} {p : Prog E R α}
    (hp : p.Only C) {s : σ} (hf : ∀ e, C e → env e s (f e) s) :
    ∃ t, Exec env p s t (p.answer f) s := by
  induction p with
  | ret a => exact ⟨[], .ret a s⟩
  | call e k ih =>
    obtain ⟨t, ht⟩ := ih (f e) (hp.2 _)
    exact ⟨_, .call (hf e hp.1) ht⟩

/-! ## Programs that can fail (`ExceptT`) -/

/-- Stop with `e` when `c` holds: `if (c) { rc = e; goto fail; }`. -/
def failIf (c : Prop) [Decidable c] (e : ε) : ExceptT ε (Prog E R) Unit :=
  ExceptT.mk (.ret (if c then .error e else .ok ()))

/-- A pure stage that may stop the program. -/
def ofExcept (x : Except ε α) : ExceptT ε (Prog E R) α := ExceptT.mk (.ret x)

/-- A program run inside a failing one. -/
def liftE (p : Prog E R α) : ExceptT ε (Prog E R) α := ExceptT.mk (p >>= fun a => .ret (.ok a))

section
variable {env : Env R σ} {s s' : σ} {t : List (Event R)} {r : Except ε α} {q : Except ε β}

theorem run_bindE (x : ExceptT ε (Prog E R) α) (f : α → ExceptT ε (Prog E R) β) :
    (x >>= f).run = (x.run >>= fun a => match a with
      | .ok a => (f a).run
      | .error e => .ret (.error e)) := by
  refine congrArg (Prog.bind x.run) (funext fun v => ?_)
  cases v <;> rfl

theorem exec_bindE {x : ExceptT ε (Prog E R) α} {f : α → ExceptT ε (Prog E R) β} :
    Exec env (x >>= f).run s t q s' ↔
      (∃ e, q = .error e ∧ Exec env x.run s t (.error e) s') ∨
      (∃ a s₁ t₁ t₂, t = t₁ ++ t₂ ∧ Exec env x.run s t₁ (.ok a) s₁ ∧
        Exec env (f a).run s₁ t₂ q s') := by
  rw [run_bindE, exec_bind]
  refine ⟨?_, ?_⟩
  · intro h
    obtain ⟨v, s₁, t₁, t₂, rfl, h₁, h₂⟩ := h
    cases v with
    | error e =>
      obtain ⟨rfl, rfl, rfl⟩ := exec_ret.mp h₂
      exact .inl ⟨e, rfl, by simpa using h₁⟩
    | ok a => exact .inr ⟨a, s₁, t₁, t₂, rfl, h₁, h₂⟩
  · intro h
    rcases h with ⟨e, rfl, h⟩ | ⟨a, s₁, t₁, t₂, rfl, h₁, h₂⟩
    · exact ⟨.error e, s', t, [], by simp, h, exec_ret.mpr ⟨rfl, rfl, rfl⟩⟩
    · exact ⟨.ok a, s₁, t₁, t₂, rfl, h₁, h₂⟩

@[simp] theorem exec_pureE {x : α} :
    Exec env (pure x : ExceptT ε (Prog E R) α).run s t r s' ↔ t = [] ∧ r = .ok x ∧ s' = s :=
  exec_ret

@[simp] theorem exec_ofExcept {x : Except ε α} :
    Exec env (ofExcept x : ExceptT ε (Prog E R) α).run s t r s' ↔ t = [] ∧ r = x ∧ s' = s :=
  exec_ret

@[simp] theorem exec_failIf {c : Prop} [Decidable c] {e : ε} {u : Except ε Unit} :
    Exec env (failIf c e).run s t u s' ↔
      t = [] ∧ u = (if c then .error e else .ok ()) ∧ s' = s :=
  exec_ret

theorem exec_failIf_bind {c : Prop} [Decidable c] {e : ε} {f : Unit → ExceptT ε (Prog E R) α} :
    Exec env (failIf c e >>= f).run s t r s' ↔
      (c ∧ t = [] ∧ r = .error e ∧ s' = s) ∨ (¬ c ∧ Exec env (f ()).run s t r s') := by
  rw [exec_bindE]
  refine ⟨?_, ?_⟩
  · intro h
    rcases h with ⟨e', rfl, h⟩ | ⟨a, s₁, t₁, t₂, rfl, h, h₂⟩
    · obtain ⟨rfl, he, rfl⟩ := exec_failIf.mp h
      split at he
      · cases he; exact .inl ⟨‹c›, rfl, rfl, rfl⟩
      · cases he
    · obtain ⟨rfl, he, rfl⟩ := exec_failIf.mp h
      split at he
      · cases he
      · exact .inr ⟨‹¬ c›, h₂⟩
  · intro h
    rcases h with ⟨hc, rfl, rfl, rfl⟩ | ⟨hc, h⟩
    · exact .inl ⟨e, rfl, exec_failIf.mpr ⟨rfl, by rw [if_pos hc], rfl⟩⟩
    · exact .inr ⟨(), s, [], t, rfl, exec_failIf.mpr ⟨rfl, by rw [if_neg hc], rfl⟩, h⟩

theorem exec_liftE_bind {p : Prog E R β} {f : β → ExceptT ε (Prog E R) α} :
    Exec env (liftE p >>= f).run s t r s' ↔
      ∃ b s₁ t₁ t₂, t = t₁ ++ t₂ ∧ Exec env p s t₁ b s₁ ∧ Exec env (f b).run s₁ t₂ r s' := by
  rw [exec_bindE]
  simp only [liftE, ExceptT.run_mk, exec_bind, exec_ret]
  constructor
  · rintro (⟨e, -, b, s₁, t₁, t₂, -, -, -, h, -⟩ |
      ⟨a, s₁, _, t₂, rfl, ⟨b, s₂, t₁, _, rfl, h₁, rfl, h, rfl⟩, h₂⟩)
    · cases h
    · cases h; exact ⟨a, s₁, t₁, t₂, by simp, h₁, h₂⟩
  · intro h
    obtain ⟨b, s₁, t₁, t₂, rfl, h₁, h₂⟩ := h
    exact .inr ⟨b, s₁, t₁, t₂, rfl, ⟨b, s₁, t₁, [], by simp, h₁, rfl, rfl, rfl⟩, h₂⟩

end

end Prog

/-! ## Protocols -/

/-- An automaton over calls and answers: which calls a phase allows, and the
phase an answer leads to. -/
structure Protocol {E : Type} (R : E → Type) (Φ : Type) where
  allowed : Φ → E → Prop
  next : Φ → (e : E) → R e → Φ

namespace Protocol

variable {Φ : Type} (P : Protocol R Φ)

/-- The phase reached by a trace. -/
def after (ph : Φ) (t : List (Event R)) : Φ :=
  t.foldl (fun ph ev => P.next ph ev.1 ev.2) ph

/-- Every call of the trace is allowed in the phase it is made in. -/
def Follows : Φ → List (Event R) → Prop
  | _, [] => True
  | ph, ev :: t => P.allowed ph ev.1 ∧ Follows (P.next ph ev.1 ev.2) t

@[simp] theorem after_nil (ph : Φ) : P.after ph [] = ph := rfl
@[simp] theorem after_cons (ph : Φ) (ev : Event R) (t : List (Event R)) :
    P.after ph (ev :: t) = P.after (P.next ph ev.1 ev.2) t := rfl
@[simp] theorem after_append (ph : Φ) (t u : List (Event R)) :
    P.after ph (t ++ u) = P.after (P.after ph t) u := by
  simp [after]

theorem follows_append {ph : Φ} {t u : List (Event R)} :
    P.Follows ph (t ++ u) ↔ P.Follows ph t ∧ P.Follows (P.after ph t) u := by
  induction t generalizing ph with
  | nil => simp [Follows]
  | cons ev t ih => simp only [List.cons_append, Follows, ih, after_cons, and_assoc]

theorem Follows.mem {ph : Φ} {t : List (Event R)} (h : P.Follows ph t) {ev : Event R}
    (hev : ev ∈ t) : ∃ u v, t = u ++ ev :: v ∧ P.allowed (P.after ph u) ev.1 := by
  obtain ⟨u, v, rfl⟩ := List.append_of_mem hev
  exact ⟨u, v, rfl, ((P.follows_append).mp h).2.1⟩

/-- What allowed calls keep of the phase, a followed trace keeps. -/
theorem Follows.inv {I : Φ → Prop} (hI : ∀ ph e r, P.allowed ph e → I ph → I (P.next ph e r))
    {ph : Φ} {t : List (Event R)} (h : P.Follows ph t) (h0 : I ph) : I (P.after ph t) := by
  induction t generalizing ph with
  | nil => exact h0
  | cons ev t ih => exact ih h.2 (hI _ _ _ h.1 h0)

/-- Weakest precondition: every call `p` can make is allowed, and `Q` holds of
the phase and value it ends with, whatever the answers are. -/
def wp : Prog E R α → (Φ → α → Prop) → Φ → Prop
  | .ret a, Q, ph => Q ph a
  | .call e k, Q, ph => P.allowed ph e ∧ ∀ r, wp (k r) Q (P.next ph e r)

@[simp] theorem wp_ret {a : α} {Q : Φ → α → Prop} {ph : Φ} :
    P.wp (.ret a) Q ph ↔ Q ph a := Iff.rfl

theorem wp_bind {p : Prog E R α} {f : α → Prog E R β} {Q : Φ → β → Prop} {ph : Φ} :
    P.wp (p >>= f) Q ph ↔ P.wp p (fun ph a => P.wp (f a) Q ph) ph := by
  induction p generalizing ph with
  | ret a => rfl
  | call e k ih => simp only [Prog.call_bind, wp, ih]

theorem wp_mono {p : Prog E R α} {Q Q' : Φ → α → Prop} {ph : Φ}
    (hQ : ∀ ph a, Q ph a → Q' ph a) (h : P.wp p Q ph) : P.wp p Q' ph := by
  induction p generalizing ph with
  | ret a => exact hQ _ _ h
  | call e k ih => exact ⟨h.1, fun r => ih r (h.2 r)⟩

theorem wp_bindE {x : ExceptT ε (Prog E R) α} {f : α → ExceptT ε (Prog E R) β}
    {Q : Φ → Except ε β → Prop} {ph : Φ} :
    P.wp (x >>= f).run Q ph ↔
      P.wp x.run (fun ph r => match r with
        | .ok a => P.wp (f a).run Q ph
        | .error e => Q ph (.error e)) ph := by
  rw [Prog.run_bindE, wp_bind]
  refine iff_of_eq (congrArg (fun q => P.wp x.run q ph) (funext fun ph => funext fun r => ?_))
  cases r <;> rfl

theorem wp_failIf {c : Prop} [Decidable c] {e : ε} {Q : Φ → Except ε Unit → Prop} {ph : Φ} :
    P.wp (Prog.failIf c e : ExceptT ε (Prog E R) Unit).run Q ph ↔
      (c → Q ph (.error e)) ∧ (¬ c → Q ph (.ok ())) := by
  by_cases hc : c <;> simp [Prog.failIf, hc]

theorem wp_failIf_bind {c : Prop} [Decidable c] {e : ε} {f : Unit → ExceptT ε (Prog E R) α}
    {Q : Φ → Except ε α → Prop} {ph : Φ} :
    P.wp (Prog.failIf c e >>= f).run Q ph ↔
      (c → Q ph (.error e)) ∧ (¬ c → P.wp (f ()).run Q ph) := by
  rw [wp_bindE, wp_failIf]

theorem wp_liftE_bind {p : Prog E R β} {f : β → ExceptT ε (Prog E R) α}
    {Q : Φ → Except ε α → Prop} {ph : Φ} :
    P.wp (Prog.liftE p >>= f).run Q ph ↔ P.wp p (fun ph b => P.wp (f b).run Q ph) ph := by
  rw [wp_bindE]
  exact P.wp_bind

theorem wp_ofExcept_bind {x : Except ε β} {f : β → ExceptT ε (Prog E R) α}
    {Q : Φ → Except ε α → Prop} {ph : Φ} :
    P.wp (Prog.ofExcept x >>= f).run Q ph ↔
      (∀ e, x = .error e → Q ph (.error e)) ∧ ∀ b, x = .ok b → P.wp (f b).run Q ph := by
  rw [wp_bindE]
  cases x <;> simp [Prog.ofExcept]

/-- Calls that a phase allows and that do not leave it. -/
theorem wp_only {C : E → Prop} {p : Prog E R α} {Q : Φ → α → Prop} {ph : Φ}
    (hp : p.Only C) (hC : ∀ e, C e → P.allowed ph e ∧ ∀ r, P.next ph e r = ph)
    (hQ : ∀ a, Q ph a) : P.wp p Q ph := by
  induction p with
  | ret a => exact hQ a
  | call e k ih =>
    refine ⟨(hC e hp.1).1, fun r => ?_⟩
    rw [(hC e hp.1).2 r]
    exact ih r (hp.2 r)

/-- **An execution as a run of its events.** An invariant tying the phase to
the environment's state holds throughout, and with it what it implies of each
call in the state the call is made in. -/
theorem wp_run {env : Env R σ} {I : Φ → σ → Prop} {C : σ → Event R → Prop}
    (hI : ∀ ph e s r s', I ph s → P.allowed ph e → env e s r s' → I (P.next ph e r) s')
    (hC : ∀ ph e s r, I ph s → P.allowed ph e → C s ⟨e, r⟩)
    {p : Prog E R α} {Q : Φ → α → Prop} {ph : Φ} {s s' : σ} {t : List (Event R)} {a : α}
    (h : P.wp p Q ph) (hx : Prog.Exec env p s t a s') (h0 : I ph s) :
    Run (fun s ev s' => env ev.1 s ev.2 s' ∧ C s ev) s t s' := by
  induction hx generalizing ph with
  | ret a s => exact .nil s
  | call he _ ih => exact .cons ⟨he, hC _ _ _ _ h0 h.1⟩ (ih (h.2 _) (hI _ _ _ _ _ h0 h.1 he))

end Protocol

/-! ## Threads over a shared state -/

/-- Programs in flight over one shared environment state. -/
structure Pool (E : Type) (R : E → Type) (σ α : Type) where
  shared : σ
  threads : List (Prog E R α)

namespace Pool

/-- One atomic step: thread `l.1` makes the call `l.2.1`, answered `l.2.2`. -/
def Step (env : Env R σ) (s : Pool E R σ α) (l : Nat × Event R) (s' : Pool E R σ α) : Prop :=
  ∃ k, s.threads[l.1]? = some (.call l.2.1 k) ∧ env l.2.1 s.shared l.2.2 s'.shared ∧
    s'.threads = s.threads.set l.1 (k l.2.2)

/-- Against a handler, under a scheduler: each entry of the list lets that thread
make its next call. `none` is a thread without one, or a call that `C` forbids. -/
def schedule (h : Handler R σ) (C : Pool E R σ α → Nat × Event R → Bool) (s : Pool E R σ α) :
    List Nat → Option (List (Nat × Event R) × Pool E R σ α)
  | [] => some ([], s)
  | i :: is =>
    match s.threads[i]? with
    | some (.call e k) =>
      let (r, shared) := h e s.shared
      if C s (i, ⟨e, r⟩) then
        (schedule h C ⟨shared, s.threads.set i (k r)⟩ is).map fun x => ((i, ⟨e, r⟩) :: x.1, x.2)
      else none
    | _ => none

theorem run_schedule {h : Handler R σ} {C : Pool E R σ α → Nat × Event R → Bool} {is : List Nat}
    {s s' : Pool E R σ α} {ls : List (Nat × Event R)} (hs : schedule h C s is = some (ls, s')) :
    Run (fun s l s' => Step h.env s l s' ∧ C s l = true) s ls s' := by
  induction is generalizing s ls with
  | nil =>
    obtain ⟨rfl, rfl⟩ := Prod.mk.inj (Option.some.inj hs)
    exact .nil _
  | cons i is ih =>
    unfold schedule at hs
    split at hs
    · rename_i e k hi
      dsimp only at hs
      split at hs
      · rename_i hC
        obtain ⟨⟨ls', s''⟩, htail, heq⟩ := Option.map_eq_some_iff.mp hs
        obtain ⟨rfl, rfl⟩ := Prod.mk.inj heq
        have hstep : Step h.env s (i, ⟨e, (h e s.shared).1⟩)
            ⟨(h e s.shared).2, s.threads.set i (k (h e s.shared).1)⟩ := ⟨k, hi, rfl, rfl⟩
        exact .cons ⟨hstep, hC⟩ (ih htail)
      · cases hs
    · cases hs

/-- The calls of thread `i` in a run. -/
def proj (i : Nat) (ls : List (Nat × Event R)) : List (Event R) :=
  (ls.filter fun l => l.1 == i).map Prod.snd

@[simp] theorem proj_nil (i : Nat) : proj i ([] : List (Nat × Event R)) = [] := rfl

@[simp] theorem proj_append (i : Nat) (as bs : List (Nat × Event R)) :
    proj i (as ++ bs) = proj i as ++ proj i bs := by
  simp [proj]

theorem proj_cons (i : Nat) (l : Nat × Event R) (ls : List (Nat × Event R)) :
    proj i (l :: ls) = if l.1 = i then l.2 :: proj i ls else proj i ls := by
  by_cases h : l.1 = i <;> simp [proj, h]

/-- Running thread `i` through the first part of one of its executions leaves
it with a program that executes the rest. -/
theorem run_of_exec {env : Env R σ} {i : Nat} {p : Prog E R α} {s s' : σ} {t₁ t₂ : List (Event R)}
    {a : α} (h : Prog.Exec env p s (t₁ ++ t₂) a s') {ts : List (Prog E R α)}
    (hi : ts[i]? = some p) :
    ∃ q s₁, Run (Step env) ⟨s, ts⟩ (t₁.map (i, ·)) ⟨s₁, ts.set i q⟩ ∧
      Prog.Exec env q s₁ t₂ a s' := by
  induction t₁ generalizing p s ts with
  | nil =>
    obtain ⟨hlt, rfl⟩ := List.getElem?_eq_some_iff.mp hi
    exact ⟨_, s, by rw [List.set_getElem_self]; exact .nil _, h⟩
  | cons ev t₁ ih =>
    cases h with
    | @call e k _ s₁ _ r _ _ he hk =>
      have hlt := (List.getElem?_eq_some_iff.mp hi).1
      obtain ⟨q, s₂, hrun, hq⟩ := ih hk (List.getElem?_set_self hlt)
      rw [List.set_set] at hrun
      exact ⟨q, s₂, .cons ⟨k, hi, he, rfl⟩ hrun, hq⟩

/-! A protocol followed by every thread: `φ i` is the phase of thread `i`. -/

variable {Φ : Type} (P : Protocol R Φ)

/-- Every thread meets its precondition in its phase. -/
def Tracks (Q : Φ → α → Prop) (s : Pool E R σ α) (φ : Nat → Φ) : Prop :=
  ∀ i p, s.threads[i]? = some p → P.wp p Q (φ i)

/-- The phases after a step. -/
def advance (φ : Nat → Φ) (l : Nat × Event R) : Nat → Φ :=
  fun i => if l.1 = i then P.next (φ i) l.2.1 l.2.2 else φ i

theorem advance_eq (φ : Nat → Φ) (i : Nat) (ev : Event R) :
    advance P φ (i, ev) = fun j => if i = j then P.next (φ i) ev.1 ev.2 else φ j := by
  funext j
  by_cases hj : i = j
  · subst hj
    simp only [advance, if_true]
  · rw [advance, if_neg hj, if_neg hj]

/-- The phases after a run. -/
def phases (φ : Nat → Φ) (ls : List (Nat × Event R)) : Nat → Φ :=
  fun i => P.after (φ i) (proj i ls)

theorem phases_cons (φ : Nat → Φ) (l : Nat × Event R) (ls : List (Nat × Event R)) :
    phases P φ (l :: ls) = phases P (advance P φ l) ls := by
  funext i
  by_cases h : l.1 = i <;> simp [phases, advance, proj_cons, h]

/-- A step makes a call its thread's phase allows, and leaves the rest alone. -/
theorem Tracks.step {env : Env R σ} {Q : Φ → α → Prop} {s s' : Pool E R σ α}
    {φ : Nat → Φ} {l : Nat × Event R} (ht : Tracks P Q s φ) (h : Step env s l s') :
    P.allowed (φ l.1) l.2.1 ∧ Tracks P Q s' (advance P φ l) := by
  obtain ⟨k, hk, -, hts⟩ := h
  obtain ⟨hallowed, hnext⟩ := ht _ _ hk
  refine ⟨hallowed, fun i p hp => ?_⟩
  rw [hts] at hp
  by_cases hi : l.1 = i
  · subst hi
    rw [List.getElem?_set_self (List.getElem?_eq_some_iff.mp hk).1, Option.some.injEq] at hp
    subst hp
    rw [advance, if_pos rfl]
    exact hnext _
  · rw [List.getElem?_set_ne hi] at hp
    rw [advance, if_neg hi]
    exact ht i p hp

/-- **Invariants of a pool.** What allowed steps meeting `C` keep of the shared
state and the phases, a run of such steps keeps; and if each of them satisfies
`D`, so does every step of the run. -/
theorem run_inv {env : Env R σ} {Q : Φ → α → Prop}
    {J : Pool E R σ α → (Nat → Φ) → Prop} {C : Pool E R σ α → Nat × Event R → Prop}
    {D : Pool E R σ α → Pool E R σ α → Prop}
    (hJ : ∀ s φ l s', Step env s l s' → C s l → Tracks P Q s φ → P.allowed (φ l.1) l.2.1 →
      Tracks P Q s' (advance P φ l) → J s φ → J s' (advance P φ l) ∧ D s s')
    {s s' : Pool E R σ α} {ls : List (Nat × Event R)}
    (h : Run (fun s l s' => Step env s l s' ∧ C s l) s ls s') {φ : Nat → Φ}
    (ht : Tracks P Q s φ) (h0 : J s φ) :
    Run (fun s l s' => Step env s l s' ∧ D s s') s ls s' ∧ Tracks P Q s' (phases P φ ls) ∧
      J s' (phases P φ ls) := by
  induction h generalizing φ with
  | nil s => exact ⟨.nil _, ht, h0⟩
  | @cons s s₁ s' l ls h₁ _ ih =>
    obtain ⟨hallowed, ht₁⟩ := ht.step P h₁.1
    obtain ⟨hj, hd⟩ := hJ s φ l s₁ h₁.1 h₁.2 ht hallowed ht₁ h0
    rw [phases_cons]
    obtain ⟨hrun, ht', hj'⟩ := ih ht₁ hj
    exact ⟨.cons ⟨h₁.1, hd⟩ hrun, ht', hj'⟩

theorem follows_run {env : Env R σ} {Q : Φ → α → Prop} {s s' : Pool E R σ α}
    {ls : List (Nat × Event R)} (h : Run (Step env) s ls s') {φ : Nat → Φ}
    (ht : Tracks P Q s φ) (i : Nat) : P.Follows (φ i) (proj i ls) := by
  induction h generalizing φ with
  | nil s => trivial
  | @cons s s₁ s' l ls h₁ _ ih =>
    obtain ⟨hallowed, ht₁⟩ := ht.step P h₁
    have htail := ih ht₁
    rw [proj_cons]
    by_cases hi : l.1 = i
    · subst hi
      rw [advance, if_pos rfl] at htail
      rw [if_pos rfl]
      exact ⟨hallowed, htail⟩
    · rw [advance, if_neg hi] at htail
      rw [if_neg hi]
      exact htail

end Pool

end VectiLicense.Core
