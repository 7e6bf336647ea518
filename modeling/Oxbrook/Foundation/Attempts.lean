import Mathlib.Logic.Basic

/-!
# Programs that raise

A program of `EStateM ε σ` changes a state and may raise an exception; what it had done by then stays done.  This
is what an `except` clause sees: not the state from before the attempt, but the state the attempt left.

`Hands` is about programs that hand something over.  Such a program is good to retry: either the thing was handed
over, or the program raised and has done nothing.  So what a chain of attempts hands over can be computed without a
state, and `Keeps` gives the invariants of the programs that are not of this kind.
-/

namespace Attempt

variable {ε σ ρ α β : Type}

/-! ## Running a program -/

/-- A computation without a state. -/
def lift : Except ε α → EStateM ε σ α
  | .ok a => pure a
  | .error e => throw e

@[simp] lemma run_lift_ok (a : α) (s : σ) : (lift (.ok a : Except ε α)).run s = .ok a s := rfl

@[simp] lemma run_lift_error (e : ε) (s : σ) : (lift (.error e : Except ε α)).run s = .error e s := rfl

lemma ok_bind (a : α) (f : α → Except ε β) : (Except.ok a >>= f) = f a := rfl

lemma bind_eq_error {x : Except ε α} {f : α → Except ε β} {e : ε} :
    (x >>= f) = .error e ↔ x = .error e ∨ ∃ a, x = .ok a ∧ f a = .error e := by
  cases x with
  | error e' =>
    change Except.error e' = Except.error e ↔ _
    simp
  | ok a =>
    rw [ok_bind]
    simp

lemma bind_eq_ok {ε : Type*} {β γ : Type} {x : Except ε β} {f : β → Except ε γ} {r : γ} :
    (x >>= f) = .ok r ↔ ∃ a, x = .ok a ∧ f a = .ok r := by
  cases x with
  | error e => simp [bind, Except.bind]
  | ok a => simp [bind, Except.bind]

/-- What a loop of attempts gives, one for each item. -/
lemma mem_of_mapM_ok {items : List α} {results : List β} {f : α → Except ε β} (h : items.mapM f = .ok results) :
    (∀ a ∈ items, ∃ b ∈ results, f a = .ok b) ∧ ∀ b ∈ results, ∃ a ∈ items, f a = .ok b := by
  induction items generalizing results with
  | nil =>
    cases h
    simp
  | cons a items ih =>
    rw [List.mapM_cons] at h
    obtain ⟨b, hb, h⟩ := bind_eq_ok.mp h
    obtain ⟨rest, hrest, h⟩ := bind_eq_ok.mp h
    cases h
    obtain ⟨hall, hmem⟩ := ih hrest
    constructor
    · rw [List.forall_mem_cons]
      refine ⟨⟨b, List.mem_cons_self .., hb⟩, fun a' ha' => ?_⟩
      obtain ⟨b', hb', heq⟩ := hall a' ha'
      exact ⟨b', List.mem_cons_of_mem _ hb', heq⟩
    · rw [List.forall_mem_cons]
      refine ⟨⟨a, List.mem_cons_self .., hb⟩, fun b' hb' => ?_⟩
      obtain ⟨a', ha', heq⟩ := hmem b' hb'
      exact ⟨a', List.mem_cons_of_mem _ ha', heq⟩

lemma exists_of_mapM_error {items : List α} {f : α → Except ε β} {e : ε} (h : items.mapM f = .error e) :
    ∃ a ∈ items, f a = .error e := by
  induction items with
  | nil => cases h
  | cons a items ih =>
    rw [List.mapM_cons] at h
    rcases bind_eq_error.mp h with h | ⟨b, -, h⟩
    · exact ⟨a, List.mem_cons_self .., h⟩
    · rcases bind_eq_error.mp h with h | ⟨rest, -, h⟩
      · obtain ⟨a', ha', herror⟩ := ih h
        exact ⟨a', List.mem_cons_of_mem _ ha', herror⟩
      · cases h

lemma run_bind_ok {act : EStateM ε σ α} {s s' : σ} {a : α} (h : act.run s = .ok a s') (next : α → EStateM ε σ β) :
    (act >>= next).run s = (next a).run s' := by
  rw [EStateM.run_bind, h]

lemma run_bind_error {act : EStateM ε σ α} {s s' : σ} {e : ε} (h : act.run s = .error e s')
    (next : α → EStateM ε σ β) : (act >>= next).run s = .error e s' := by
  rw [EStateM.run_bind, h]

lemma run_tryCatch_ok {act : EStateM ε σ α} {s s' : σ} {a : α} (h : act.run s = .ok a s')
    (handler : ε → EStateM ε σ α) : (tryCatch act handler).run s = .ok a s' := by
  change EStateM.tryCatch act handler s = _
  unfold EStateM.tryCatch
  rw [show act s = .ok a s' from h]

lemma run_tryCatch_error {act : EStateM ε σ α} {s s' : σ} {e : ε} (h : act.run s = .error e s')
    (handler : ε → EStateM ε σ α) : (tryCatch act handler).run s = (handler e).run s' := by
  change EStateM.tryCatch act handler s = _
  unfold EStateM.tryCatch
  rw [show act s = .error e s' from h]
  rfl

lemma run_map_ok {act : EStateM ε σ α} {s s' : σ} {a : α} (h : act.run s = .ok a s') (f : α → β) :
    (f <$> act).run s = .ok (f a) s' := by
  change EStateM.map f act s = _
  unfold EStateM.map
  rw [show act s = .ok a s' from h]

lemma run_map_error {act : EStateM ε σ α} {s s' : σ} {e : ε} (h : act.run s = .error e s') (f : α → β) :
    (f <$> act).run s = .error e s' := by
  change EStateM.map f act s = _
  unfold EStateM.map
  rw [show act s = .error e s' from h]

lemma run_map_congr {act other : EStateM ε σ α} {s : σ} (h : act.run s = other.run s) (f : α → β) :
    (f <$> act).run s = (f <$> other).run s := by
  cases hother : other.run s with
  | ok a s' => rw [run_map_ok (h.trans hother), run_map_ok hother]
  | error e s' => rw [run_map_error (h.trans hother), run_map_error hother]

/-- A program is what its runs are. -/
lemma ext_run {act other : EStateM ε σ α} (h : ∀ s, act.run s = other.run s) : act = other := funext h

/-! ## Exceptions that are never raised -/

/-- No exception of the set is raised. -/
def Spares (H : ε → Prop) (act : EStateM ε σ α) : Prop := ∀ s e s', act.run s = .error e s' → ¬ H e

namespace Spares

variable {H : ε → Prop} {act : EStateM ε σ α} {handler : ε → EStateM ε σ α}

theorem map (h : Spares H act) (f : α → β) : Spares H (f <$> act) := by
  intro s e s' hrun
  cases hact : act.run s with
  | ok a t =>
    rw [run_map_ok hact] at hrun
    cases hrun
  | error e' t =>
    rw [run_map_error hact] at hrun
    cases hrun
    exact h s e s' hact

/-- An `except` clause for the set catches nothing. -/
theorem tryCatch_eq (h : Spares H act) (hrethrow : ∀ e, ¬ H e → handler e = throw e) : tryCatch act handler = act := by
  apply ext_run
  intro s
  cases hact : act.run s with
  | ok a s' => exact run_tryCatch_ok hact handler
  | error e s' =>
    rw [run_tryCatch_error hact, hrethrow e (h s e s' hact)]
    rfl

/-- An `except` clause whose handlers raise nothing of the set leaves nothing of it. -/
theorem tryCatch (hrethrow : ∀ e, ¬ H e → handler e = throw e) (hhandler : ∀ e, H e → Spares H (handler e)) :
    Spares H (tryCatch act handler) := by
  intro s e s' hrun
  cases hact : act.run s with
  | ok a t =>
    rw [run_tryCatch_ok hact] at hrun
    cases hrun
  | error e' t =>
    rw [run_tryCatch_error hact] at hrun
    by_cases he : H e'
    · exact hhandler e' he t e s' hrun
    · rw [hrethrow e' he] at hrun
      cases hrun
      exact he

/-- The clause around the whole does what a second one around the end of it would do. -/
theorem tryCatch_bind {first : EStateM ε σ β} (hrethrow : ∀ e, ¬ H e → handler e = throw e)
    (hhandler : ∀ e, H e → Spares H (handler e)) :
    MonadExcept.tryCatch (first >>= fun _ => MonadExcept.tryCatch act handler) handler =
      MonadExcept.tryCatch (first >>= fun _ => act) handler := by
  apply ext_run
  intro s
  cases hfirst : first.run s with
  | error e s' =>
    rw [run_tryCatch_error (run_bind_error hfirst _), run_tryCatch_error (run_bind_error hfirst _)]
  | ok b s' =>
    cases hact : act.run s' with
    | ok a t =>
      have hinner : (first >>= fun _ => MonadExcept.tryCatch act handler).run s = .ok a t :=
        (run_bind_ok hfirst _).trans (run_tryCatch_ok hact handler)
      rw [run_tryCatch_ok hinner, run_tryCatch_ok ((run_bind_ok hfirst _).trans hact)]
    | error e t =>
      have hinner : (first >>= fun _ => MonadExcept.tryCatch act handler).run s = (handler e).run t :=
        (run_bind_ok hfirst _).trans (run_tryCatch_error hact handler)
      have houter : (first >>= fun _ => act).run s = .error e t := (run_bind_ok hfirst _).trans hact
      rw [run_tryCatch_error houter]
      cases hsettled : (handler e).run t with
      | ok a t' => exact run_tryCatch_ok (hinner.trans hsettled) handler
      | error e' t' =>
        rw [run_tryCatch_error (hinner.trans hsettled)]
        have hspared : ¬ H e' := by
          by_cases he : H e
          · exact hhandler e he t e' t' hsettled
          · rw [hrethrow e he] at hsettled
            cases hsettled
            exact he
        rw [hrethrow e' hspared]
        rfl

end Spares

/-! ## Handing something over -/

/-- How a program ends that hands over what is wanted, if there is something to hand over, and goes on with
`next`. -/
def handOver (hand : ρ → σ → σ) (s : σ) (next : EStateM ε σ α) : Except ε ρ → EStateM.Result ε σ α
  | .ok r => next.run (hand r s)
  | .error e => .error e s

/-- Started in `s`, the program hands over what is wanted; if there is nothing to hand over it raises, and the state
is still `s`. -/
def Hands (hand : ρ → σ → σ) (act : EStateM ε σ Unit) (s : σ) (wanted : Except ε ρ) : Prop :=
  act.run s = handOver hand s (pure ()) wanted

namespace Hands

variable {hand : ρ → σ → σ} {act other : EStateM ε σ Unit} {s : σ} {wanted otherwise : Except ε ρ}

lemma ok {r : ρ} (h : Hands hand act s (.ok r)) : act.run s = .ok () (hand r s) := h

lemma error {e : ε} (h : Hands hand act s (.error e)) : act.run s = .error e s := h

/-- Something is computed first. -/
theorem lift_bind (x : Except ε β) {next : β → EStateM ε σ Unit} {wanted : β → Except ε ρ}
    (h : ∀ b, x = .ok b → Hands hand (next b) s (wanted b)) : Hands hand (lift x >>= next) s (x >>= wanted) := by
  cases x with
  | ok b =>
    have hb : Hands hand (next b) s (wanted b) := h b rfl
    unfold Hands at hb ⊢
    rw [run_bind_ok (run_lift_ok b s), hb]
    rfl
  | error e =>
    unfold Hands
    rw [run_bind_error (run_lift_error e s)]
    rfl

/-- After a failure something else is tried, from the state the attempt began in. -/
theorem orElse (h : Hands hand act s wanted) (hother : Hands hand other s otherwise) :
    Hands hand (tryCatch act fun _ => other) s (wanted.tryCatch fun _ => otherwise) := by
  cases wanted with
  | ok r =>
    unfold Hands
    rw [run_tryCatch_ok h.ok]
    rfl
  | error e =>
    unfold Hands at hother ⊢
    rw [run_tryCatch_error h.error, hother]
    rfl

end Hands

/-! ## Invariants -/

/-- Whether it returns or raises, the program leaves the invariant as it was. -/
def Keeps (I : σ → Prop) (act : EStateM ε σ α) : Prop :=
  ∀ s, I s → match act.run s with
    | .ok _ s' => I s'
    | .error _ s' => I s'

namespace Keeps

variable {I : σ → Prop} {act : EStateM ε σ α}

lemma ok {s s' : σ} {a : α} (h : Keeps I act) (hs : I s) (hrun : act.run s = .ok a s') : I s' := by
  have h' := h s hs
  rw [hrun] at h'
  exact h'

lemma error {s s' : σ} {e : ε} (h : Keeps I act) (hs : I s) (hrun : act.run s = .error e s') : I s' := by
  have h' := h s hs
  rw [hrun] at h'
  exact h'

lemma pure (a : α) : Keeps I (pure a : EStateM ε σ α) := by
  intro s hs
  exact hs

lemma throw (e : ε) : Keeps I (throw e : EStateM ε σ α) := by
  intro s hs
  exact hs

lemma lift (x : Except ε α) : Keeps I (lift x : EStateM ε σ α) := by
  cases x with
  | ok a => exact Keeps.pure a
  | error e => exact Keeps.throw e

theorem bind {next : α → EStateM ε σ β} (h : Keeps I act) (hnext : ∀ a, Keeps I (next a)) :
    Keeps I (act >>= next) := by
  intro s hs
  cases hrun : act.run s with
  | ok a s' =>
    rw [run_bind_ok hrun]
    exact hnext a s' (h.ok hs hrun)
  | error e s' =>
    rw [run_bind_error hrun]
    exact h.error hs hrun

theorem tryCatch {handler : ε → EStateM ε σ α} (h : Keeps I act) (hhandler : ∀ e, Keeps I (handler e)) :
    Keeps I (tryCatch act handler) := by
  intro s hs
  cases hrun : act.run s with
  | ok a s' =>
    rw [run_tryCatch_ok hrun]
    exact h.ok hs hrun
  | error e s' =>
    rw [run_tryCatch_error hrun]
    exact hhandler e s' (h.error hs hrun)

end Keeps

/-! ## Two conditions for the two ends -/

/-- Started where `P` holds, the program returns where `Q` holds of the value and the state, or raises where `R` holds
of the exception and the state. -/
def Meets (P : σ → Prop) (act : EStateM ε σ α) (Q : α → σ → Prop) (R : ε → σ → Prop) : Prop :=
  ∀ s, P s → match act.run s with
    | .ok a s' => Q a s'
    | .error e s' => R e s'

namespace Meets

variable {P P' : σ → Prop} {Q Q' : α → σ → Prop} {R : ε → σ → Prop} {act : EStateM ε σ α}

lemma ok {s s' : σ} {a : α} (h : Meets P act Q R) (hs : P s) (hrun : act.run s = .ok a s') : Q a s' := by
  have h' := h s hs
  rw [hrun] at h'
  exact h'

lemma error {s s' : σ} {e : ε} (h : Meets P act Q R) (hs : P s) (hrun : act.run s = .error e s') : R e s' := by
  have h' := h s hs
  rw [hrun] at h'
  exact h'

lemma weaken (h : Meets P act Q R) (hpre : ∀ s, P' s → P s) (hpost : ∀ a s, Q a s → Q' a s) :
    Meets P' act Q' R := by
  intro s hs
  cases hrun : act.run s with
  | ok a s' => exact hpost a s' (h.ok (hpre s hs) hrun)
  | error e s' => exact h.error (hpre s hs) hrun

lemma pure {a : α} (h : ∀ s, P s → Q a s) : Meets P (pure a) Q R := by
  intro s hs
  exact h s hs

/-- What the state is can be asked. -/
theorem get_bind {next : σ → EStateM ε σ α} (h : ∀ t, Meets (fun s => P s ∧ s = t) (next t) Q R) :
    Meets P (get >>= next) Q R := by
  intro s hs
  exact h s s ⟨hs, rfl⟩

theorem bind {next : α → EStateM ε σ β} {Q' : β → σ → Prop} (h : Meets P act Q R)
    (hnext : ∀ a, Meets (Q a) (next a) Q' R) : Meets P (act >>= next) Q' R := by
  intro s hs
  cases hrun : act.run s with
  | ok a s' =>
    rw [run_bind_ok hrun]
    exact hnext a s' (h.ok hs hrun)
  | error e s' =>
    rw [run_bind_error hrun]
    exact h.error hs hrun

end Meets

end Attempt
