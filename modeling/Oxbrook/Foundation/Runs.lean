import Mathlib.Data.Nat.Notation
import Mathlib.Logic.Function.Basic

/-!
# Runs of partial step functions

A concurrent component is modelled by a type of states `σ`, a type of atomic actions `α` and a
partial step function `step : σ → α → Option σ`: `step s a = some s'` says that the action `a` is
enabled in `s` and leads to `s'`.  An interleaving is then nothing but a list of actions.

`Reaches step ok s₀ s` says that `s` is reached from `s₀` by a run all of whose steps meet the side
condition `ok`; `Reachable` is the case with no side condition.  `Reaches.invariant` is the
induction every safety result of this development goes through: a property of the initial state
that each permitted step preserves holds in every state reached.  `exec` performs a concrete list
of actions, checking the side condition before each, and `Reaches.of_exec` turns such a computation
into a state reached.

`Ends` is for a loop that nothing else interferes with: it says that the loop ends, and with what.
-/

namespace StepMachine

variable {σ α : Type*}

/-- `s` is reached from `s₀` by steps each of which meets the condition `ok` on the state before
the step and the action taken. -/
inductive Reaches (step : σ → α → Option σ) (ok : σ → α → Prop) (s₀ : σ) : σ → Prop
  | start : Reaches step ok s₀ s₀
  | next {s s' : σ} (a : α) (run : Reaches step ok s₀ s) (permitted : ok s a)
      (taken : step s a = some s') : Reaches step ok s₀ s'

/-- `s` is reached from `s₀` by some interleaving. -/
def Reachable (step : σ → α → Option σ) (s₀ s : σ) : Prop :=
  Reaches step (fun _ _ => True) s₀ s

/-- Perform a list of actions, failing at the first one that is not permitted or not enabled. -/
def exec (step : σ → α → Option σ) (ok : σ → α → Prop) [∀ s a, Decidable (ok s a)] :
    σ → List α → Option σ
  | s, [] => some s
  | s, a :: actions =>
    if ok s a then (step s a).bind fun s' => exec step ok s' actions else none

variable {step : σ → α → Option σ} {ok ok' : σ → α → Prop} {s₀ s s' : σ}

/-- A guarded step that is taken has its guard and its effect. -/
theorem of_guard {c : Prop} [Decidable c] {t t' : σ} (h : (if c then some t else none) = some t') :
    c ∧ t = t' := by
  obtain ⟨hc, ht⟩ := Option.ite_none_right_eq_some.mp h
  exact ⟨hc, Option.some.inj ht⟩

/-- **Invariant rule.**  A property of the initial state that every permitted step preserves holds
in every state reached. -/
theorem Reaches.invariant {I : σ → Prop} (h : Reaches step ok s₀ s) (start : I s₀)
    (preserved : ∀ s a s', I s → ok s a → step s a = some s' → I s') : I s := by
  induction h with
  | start => exact start
  | next a _ permitted taken ih => exact preserved _ a _ ih permitted taken

/-- Runs under a stronger side condition are runs under a weaker one. -/
theorem Reaches.mono (h : Reaches step ok s₀ s) (weaker : ∀ s a, ok s a → ok' s a) :
    Reaches step ok' s₀ s := by
  induction h with
  | start => exact .start
  | next a _ permitted taken ih => exact ih.next a (weaker _ _ permitted) taken

/-- A run can be prolonged by a computed list of actions. -/
theorem Reaches.exec [∀ s a, Decidable (ok s a)] (actions : List α) (h : Reaches step ok s₀ s)
    (run : exec step ok s actions = some s') : Reaches step ok s₀ s' := by
  induction actions generalizing s with
  | nil =>
    cases run
    exact h
  | cons a actions ih =>
    obtain ⟨permitted, rest⟩ := Option.ite_none_right_eq_some.mp run
    obtain ⟨t, taken, rest⟩ := Option.bind_eq_some_iff.mp rest
    exact ih (h.next a permitted taken) rest

/-- The final state of a computed list of permitted actions is reached. -/
theorem Reaches.of_exec [∀ s a, Decidable (ok s a)] (actions : List α)
    (run : StepMachine.exec step ok s₀ actions = some s) : Reaches step ok s₀ s :=
  Reaches.start.exec actions run

/-- The final state of a computed list of actions is reachable. -/
theorem Reachable.of_exec (actions : List α)
    (run : StepMachine.exec step (fun _ _ => True) s₀ actions = some s) : Reachable step s₀ s :=
  Reaches.of_exec actions run

/-- Invariant rule for unconstrained runs. -/
theorem Reachable.invariant {I : σ → Prop} (h : Reachable step s₀ s) (start : I s₀)
    (preserved : ∀ s a s', I s → step s a = some s' → I s') : I s :=
  Reaches.invariant h start fun s a s' hI _ taken => preserved s a s' hI taken

/-! ## Loops -/

/-- A loop whose body goes on with a state or leaves with a result ends with `r`. -/
inductive Ends {ρ : Type*} (body : σ → σ ⊕ ρ) : σ ⊕ ρ → ρ → Prop
  | now {r : ρ} : Ends body (.inr r) r
  | later {s : σ} {r : ρ} (rest : Ends body (body s) r) : Ends body (.inl s) r

/-- A round of a loop, and the rest of it. -/
lemma Ends.round {ρ : Type*} {body : σ → σ ⊕ ρ} {next : σ ⊕ ρ} {r : ρ} (rest : Ends body next r) (h : body s = next) :
    Ends body (.inl s) r := by
  apply Ends.later
  rw [h]
  exact rest

/-- A loop ends in one way. -/
theorem Ends.unique {ρ : Type*} {body : σ → σ ⊕ ρ} {start : σ ⊕ ρ} {r r' : ρ} (h : Ends body start r)
    (h' : Ends body start r') : r = r' := by
  induction h with
  | now =>
    cases h'
    rfl
  | later _ ih =>
    cases h' with
    | later rest => exact ih rest

/-- Perform a loop, at most `fuel` times. -/
def performed {ρ : Type*} (body : σ → σ ⊕ ρ) : ℕ → σ ⊕ ρ → Option ρ
  | _, .inr r => some r
  | 0, .inl _ => none
  | fuel + 1, .inl s => performed body fuel (body s)

/-- A loop that was performed ends. -/
theorem Ends.of_performed {ρ : Type*} {body : σ → σ ⊕ ρ} (fuel : ℕ) {start : σ ⊕ ρ} {r : ρ}
    (h : performed body fuel start = some r) : Ends body start r := by
  induction fuel generalizing start with
  | zero =>
    cases start with
    | inl s => cases h
    | inr r' =>
      obtain rfl := Option.some.inj h
      exact .now
  | succ fuel ih =>
    cases start with
    | inl s => exact .later (ih h)
    | inr r' =>
      obtain rfl := Option.some.inj h
      exact .now

end StepMachine
