import Oxbrook.Errors.Guard

/-!
# Chains of middleware with pass-through links

`Closed` is the condition on exception handlers: what a handler raises has no handler, unless it is an `HTTPError`
whose handler raises nothing that has one.  Then no guard lets out an exception that has a handler.  A guard around a
guard has nothing to do, and a link that only calls the next can be taken out of any chain.
-/

namespace Oxbrook

open Attempt

variable {κ α ρ σ : Type} [DecidableEq κ] [DecidableEq α]

/-- The second chain is the first with pass-through middleware put in. -/
inductive Padded : List (Middleware κ α ρ σ) → List (Middleware κ α ρ σ) → Prop
  | nil : Padded [] []
  | keep {chain chain' : List (Middleware κ α ρ σ)} (middleware : Middleware κ α ρ σ) :
      Padded chain chain' → Padded (middleware :: chain) (middleware :: chain')
  | pass {chain chain' : List (Middleware κ α ρ σ)} : Padded chain chain' → Padded chain (passThrough :: chain')

namespace Padded

omit [DecidableEq κ] [DecidableEq α]

variable {outer outer' inner inner' : List (Middleware κ α ρ σ)}

lemma append (houter : Padded outer outer') (hinner : Padded inner inner') :
    Padded (outer ++ inner) (outer' ++ inner') := by
  induction houter with
  | nil => exact hinner
  | keep middleware _ ih => exact ih.keep middleware
  | pass _ ih => exact ih.pass

lemma eq_nil (h : Padded outer []) : outer = [] := by
  cases h
  rfl

end Padded

namespace ErrorMapping

variable (m : ErrorMapping κ α ρ σ) {request : ρ} {exc e : Exc κ α} {s s' : σ} {handler : ExcHandler κ α ρ σ}
  {target : Endpoint κ α ρ σ} {result : Returned α}

/-! ## The most specific handler -/

/-- The handler is that of the first class of the MRO that has one. -/
def MostSpecific (exc : Exc κ α) (handler : ExcHandler κ α ρ σ) : Prop :=
  ∃ before cls after, exc.mro = before ++ cls :: after ∧ (∀ c ∈ before, m.handlers c = none) ∧
    m.handlers cls = some handler

lemma find_eq_some_iff : m.find exc = some handler ↔ m.MostSpecific exc handler := by
  unfold find MostSpecific
  rw [List.findSome?_eq_some_iff]
  constructor
  · rintro ⟨before, cls, after, hmro, hcls, hbefore⟩
    exact ⟨before, cls, after, hmro, hbefore, hcls⟩
  · rintro ⟨before, cls, after, hmro, hbefore, hcls⟩
    exact ⟨before, cls, after, hmro, hcls, hbefore⟩

/-- Some class of the exception has a handler. -/
def Handled (exc : Exc κ α) : Prop := m.find exc ≠ none

lemma not_handled_iff : ¬ m.Handled exc ↔ m.find exc = none := by
  unfold Handled
  rw [not_not]

/-! ## What a guard does -/

/-- The `except` clause of a guard. -/
def clause (request : ρ) (exc : Exc κ α) : EStateM (Exc κ α) σ (Returned α) :=
  match m.find exc with
  | none => throw exc
  | some handler => do
    modify (m.takeAfter request)
    m.settle handler request exc

lemma guard_eq (target : Endpoint κ α ρ σ) (request : ρ) :
    m.guard target request = tryCatch (target request) (m.clause request) := rfl

lemma clause_unhandled (h : ¬ m.Handled exc) : m.clause request exc = throw exc := by
  unfold clause
  rw [m.not_handled_iff.mp h]

lemma clause_handled (h : m.find exc = some handler) :
    (m.clause request exc).run s = (m.settle handler request exc).run (m.takeAfter request s) := by
  unfold clause
  rw [h]
  rfl

lemma settle_other (h : (handler request exc).run s = .error e s') (he : e.kind.isHttp = false) :
    (m.settle handler request exc).run s = .error e s' := by
  unfold settle
  rw [run_tryCatch_error h, if_neg (by simp [he])]
  rfl

lemma settle_unhandled (h : (handler request exc).run s = .error e s') (he : m.find e = none) :
    (m.settle handler request exc).run s = .error e s' := by
  unfold settle
  rw [run_tryCatch_error h, he, ite_self]
  rfl

lemma settle_fallback {fallback : ExcHandler κ α ρ σ} (h : (handler request exc).run s = .error e s')
    (he : e.kind.isHttp = true) (hfind : m.find e = some fallback) :
    (m.settle handler request exc).run s = (fallback request e).run s' := by
  unfold settle
  rw [run_tryCatch_error h, if_pos he, hfind]

/-! ## Closed handlers -/

/-- No exception handler raises an exception that has a handler, but for an `HTTPError` whose own handler raises
none. -/
def Closed : Prop :=
  ∀ exc handler, m.find exc = some handler → ∀ request s e s',
    (handler request exc).run (m.takeAfter request s) = .error e s' → ∀ fallback, m.find e = some fallback →
      e.kind.isHttp = true ∧ ∀ e' s'', (fallback request e).run s' = .error e' s'' → m.find e' = none

/-- An exception that has a handler does not come out of an `except` clause. -/
lemma Closed.clause (h : m.Closed) (request : ρ) (exc : Exc κ α) (hexc : m.Handled exc) :
    Spares m.Handled (m.clause request exc) := by
  obtain ⟨handler, hfind⟩ := Option.ne_none_iff_exists'.mp hexc
  intro s e' s'' hrun
  rw [m.clause_handled hfind] at hrun
  rw [m.not_handled_iff]
  cases hhandler : (handler request exc).run (m.takeAfter request s) with
  | ok result s' =>
    unfold settle at hrun
    rw [run_tryCatch_ok hhandler] at hrun
    cases hrun
  | error e s' =>
    cases hfallback : m.find e with
    | none =>
      rw [m.settle_unhandled hhandler hfallback] at hrun
      cases hrun
      exact hfallback
    | some fallback =>
      obtain ⟨hhttp, hquiet⟩ := h exc handler hfind request s e s' hhandler fallback hfallback
      rw [m.settle_fallback hhandler hhttp hfallback] at hrun
      exact hquiet e' s'' hrun

lemma closed_of_clause (h : ∀ request exc, m.Handled exc → Spares m.Handled (m.clause request exc)) : m.Closed := by
  intro exc handler hfind request s e s' hhandler fallback hfallback
  have hexc : m.Handled exc := by simp [Handled, hfind]
  have hspares := h request exc hexc s
  rw [m.clause_handled hfind] at hspares
  cases hhttp : e.kind.isHttp with
  | false =>
    have hraised := hspares e s' (m.settle_other hhandler hhttp)
    rw [m.not_handled_iff, hfallback] at hraised
    cases hraised
  | true =>
    refine ⟨rfl, ?_⟩
    intro e' s'' hrun
    rw [← m.not_handled_iff]
    apply hspares e' s''
    rw [m.settle_fallback hhandler hhttp hfallback, hrun]

/-! ## Guards -/

lemma guard_ok (h : (target request).run s = .ok result s') : (m.guard target request).run s = .ok result s' :=
  run_tryCatch_ok h _

lemma guard_error (h : (target request).run s = .error exc s') :
    (m.guard target request).run s = (m.clause request exc).run s' :=
  run_tryCatch_error h _

variable {m}

/-- A guard lets out no exception that has a handler. -/
lemma Closed.guard_spares (h : m.Closed) (target : Endpoint κ α ρ σ) (request : ρ) :
    Spares m.Handled (m.guard target request) := by
  rw [guard_eq]
  exact Spares.tryCatch (fun exc hexc => m.clause_unhandled hexc) (h.clause m request)

/-- A guard around what raises no such exception does nothing. -/
lemma guard_eq_self (h : ∀ request, Spares m.Handled (target request)) : m.guard target = target := by
  funext request
  rw [guard_eq]
  exact (h request).tryCatch_eq fun exc hexc => m.clause_unhandled hexc

lemma Closed.guard_check (h : m.Closed) (check : ρ → EStateM (Exc κ α) σ Unit) (target : Endpoint κ α ρ σ) :
    m.guard (checkWrap check (m.guard target)) = m.guard (checkWrap check target) := by
  funext request
  exact Spares.tryCatch_bind (fun exc hexc => m.clause_unhandled hexc) (h.clause m request)

/-! ## Chains -/

omit [DecidableEq κ] [DecidableEq α] in
lemma asReply_map_reply (act : EStateM (Exc κ α) σ (ReplyValue α)) : asReply <$> Returned.reply <$> act = act := by
  apply ext_run
  intro s
  cases hact : act.run s with
  | ok r s' => exact run_map_ok (run_map_ok hact _) _
  | error e s' => exact run_map_error (run_map_error hact _) _

@[simp] lemma calls_nil (target : Endpoint κ α ρ σ) :
    m.calls target [] = fun request => asReply <$> m.guard target request := rfl

@[simp] lemma calls_cons (target : Endpoint κ α ρ σ) (middleware : Middleware κ α ρ σ)
    (rest : List (Middleware κ α ρ σ)) :
    m.calls target (middleware :: rest) = m.around (link middleware (m.calls target rest)) := rfl

/-- No `call_next` raises an exception that has a handler. -/
lemma Closed.calls_spares (h : m.Closed) (target : Endpoint κ α ρ σ) (chain : List (Middleware κ α ρ σ))
    (request : ρ) : Spares m.Handled (m.calls target chain request) := by
  cases chain with
  | nil => exact (h.guard_spares target request).map asReply
  | cons middleware rest => exact (h.guard_spares _ request).map asReply

/-- A link that only calls the next can be left out. -/
lemma Closed.calls_pass (h : m.Closed) (target : Endpoint κ α ρ σ) (rest : List (Middleware κ α ρ σ)) :
    m.calls target (passThrough :: rest) = m.calls target rest := by
  have hlink : link passThrough (m.calls target rest) = m.calls target rest := by
    funext request
    exact asReply_map_reply _
  have hquiet : m.guard (fun request => Returned.reply <$> m.calls target rest request) =
      fun request => Returned.reply <$> m.calls target rest request :=
    guard_eq_self fun request => (h.calls_spares target rest request).map _
  funext request
  rw [calls_cons, hlink, around, hquiet]
  exact asReply_map_reply _

/-- The same holds for any number of them, anywhere. -/
theorem Closed.calls_padded (h : m.Closed) (target : Endpoint κ α ρ σ) {chain chain' : List (Middleware κ α ρ σ)}
    (hpadded : Padded chain chain') : m.calls target chain' = m.calls target chain := by
  induction hpadded with
  | nil => rfl
  | keep middleware _ ih => rw [calls_cons, calls_cons, ih]
  | pass _ ih => rw [h.calls_pass, ih]

/-- Behind `as_reply` it does not matter which of a value and its reply a target returns. -/
lemma asReply_guard_congr {target target' : Endpoint κ α ρ σ}
    (h : asReply <$> target request = asReply <$> target' request) :
    asReply <$> m.guard target request = asReply <$> m.guard target' request := by
  apply ext_run
  intro s
  have hs : (asReply <$> target request).run s = (asReply <$> target' request).run s := by rw [h]
  cases htarget : (target request).run s with
  | ok result t =>
    rw [run_map_ok htarget] at hs
    cases htarget' : (target' request).run s with
    | ok result' t' =>
      rw [run_map_ok htarget'] at hs
      rw [run_map_ok (m.guard_ok htarget), run_map_ok (m.guard_ok htarget'), hs]
    | error e t' =>
      rw [run_map_error htarget'] at hs
      cases hs
  | error e t =>
    rw [run_map_error htarget] at hs
    cases htarget' : (target' request).run s with
    | ok result' t' =>
      rw [run_map_ok htarget'] at hs
      cases hs
    | error e' t' =>
      rw [run_map_error htarget'] at hs
      obtain ⟨rfl, rfl⟩ := EStateM.Result.error.inj hs
      apply run_map_congr
      rw [m.guard_error htarget, m.guard_error htarget']

/-- A check in front of the target is the same as a link. -/
lemma Closed.calls_check (h : m.Closed) (check : ρ → EStateM (Exc κ α) σ Unit) (target : Endpoint κ α ρ σ) :
    m.calls target [checkLink check] = m.calls (checkWrap check target) [] := by
  funext request
  rw [calls_nil, ← h.guard_check, calls_cons, around]
  apply asReply_guard_congr
  rw [asReply_map_reply]
  unfold link checkLink checkWrap
  rw [map_bind, map_bind]
  simp only [asReply_map_reply, calls_nil]

end ErrorMapping

end Oxbrook
