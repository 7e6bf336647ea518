import Oxbrook.Errors.Chain

/-!
# The mapping of exceptions does not depend on middleware

`independent_iff` says for which exception handlers this is so.  A handler that raises an exception that has a
handler of its own is a `500` on a route without middleware; with a middleware the guard outside it maps that
exception as well, and the middleware has seen it raised by its `call_next`.

On a route with no middleware and no registered handler nothing is guarded, and `_respond` applies the defaults
itself.  Its clauses are compared here with the handlers of `DEFAULT_HANDLERS`.
-/

namespace Oxbrook

open Attempt PyStr

variable {κ α ρ σ : Type}

namespace PyHost

variable [DecidableEq α] (host : PyHost α) {debug kept : Bool}

/-! ## The replies to an outcome -/

/-- A reply that is sent, if there is one. -/
def sent : Except PyError HandlerReply → List HandlerReply
  | .ok reply => [reply]
  | .error _ => []

/-- The `500` in place of an exception, if it can be sent. -/
def standIn (debug : Bool) (e : PyError) : List HandlerReply := sent (e.detail debug >>= host.serverErrorReply)

lemma repliesOf_hands {act : Attempted Unit} {reply : Except PyError HandlerReply}
    (h : Hands Responder.hand act (.new kept) reply) : repliesOf (act.run (.new kept)) = sent reply := by
  cases reply with
  | ok r =>
    rw [h.ok]
    rfl
  | error e =>
    rw [h.error]
    rfl

lemma repliesOf_then {act : Attempted Unit} {answered : Bool} {s : Responder} :
    repliesOf ((do act; return answered : Attempted Bool).run s) = repliesOf (act.run s) := by
  cases hact : act.run s with
  | ok _ s' =>
    rw [run_bind_ok hact]
    rfl
  | error e s' =>
    rw [run_bind_error hact]
    rfl

lemma repliesOf_unsendable (e : PyError) :
    repliesOf ((host.unsendable debug e).run (.new kept)) = host.standIn debug e := by
  unfold unsendable standIn
  cases e.detail debug with
  | error e' =>
    rw [run_bind_error (run_lift_error e' _)]
    rfl
  | ok detail =>
    rw [run_bind_ok (run_lift_ok detail _), ok_bind]
    have hands := host.sendServerError_hands detail (s := .new kept) rfl
    cases hreply : host.serverErrorReply detail with
    | ok reply =>
      rw [hreply] at hands
      rw [run_tryCatch_ok hands.ok]
      rfl
    | error e' =>
      rw [hreply] at hands
      rw [run_tryCatch_error hands.error]
      rfl

lemma repliesOf_raised (e : PyError) :
    repliesOf ((host.respond debug (.raised e)).run (.new kept)) = host.standIn debug e := by
  rw [respond]
  unfold standIn
  cases e.detail debug with
  | error e' =>
    rw [run_bind_error (run_lift_error e' _)]
    rfl
  | ok detail =>
    rw [run_bind_ok (run_lift_ok detail _), repliesOf_then, ok_bind]
    exact repliesOf_hands (host.sendServerError_hands detail rfl)

lemma repliesOf_invalid (body : PyArg α) :
    repliesOf ((host.respond debug (.invalid body)).run (.new kept)) =
      sent (host.sentReply ⟨.int 422, problemType, body, none⟩) := by
  rw [respond, repliesOf_then]
  exact repliesOf_hands (host.send_hands _ rfl)

lemma repliesOf_httpError_ok {exc : HttpError α} {reply : HandlerReply} (h : host.httpErrorReply exc = .ok reply) :
    repliesOf ((host.respond debug (.httpError exc)).run (.new kept)) = [reply] := by
  have hands := host.sendHttpError_hands exc (s := .new kept) rfl
  rw [h] at hands
  rw [respond, repliesOf_then, run_tryCatch_ok hands.ok]
  rfl

lemma repliesOf_httpError_error {exc : HttpError α} {e : PyError} (h : host.httpErrorReply exc = .error e) :
    repliesOf ((host.respond debug (.httpError exc)).run (.new kept)) =
      if e.isValueError then host.standIn debug e else [] := by
  have hands := host.sendHttpError_hands exc (s := .new kept) rfl
  rw [h] at hands
  rw [respond, repliesOf_then, run_tryCatch_error hands.error]
  cases e.isValueError with
  | true => exact host.repliesOf_unsendable e
  | false => rfl

lemma repliesOf_returned_ok {result : Returned α} {reply : HandlerReply} (h : host.resultReply result = .ok reply)
    (hpumped : result.pumped = .ok ()) :
    repliesOf ((host.respond debug (.returned result)).run (.new kept)) = [reply] := by
  rw [host.respond_of_sent h hpumped]
  rfl

lemma repliesOf_returned_error {result : Returned α} {e : PyError} (h : host.resultReply result = .error e) :
    repliesOf ((host.respond debug (.returned result)).run (.new kept)) = host.standIn debug e := by
  have hsend : (host.sendResult result).run (.new kept) = .error e (.new kept) := by
    rw [host.sendResult_run result rfl, h]
    rfl
  rw [respond, run_tryCatch_error (run_bind_error hsend _), repliesOf_then]
  exact host.repliesOf_unsendable e

/-- Without `debug` there always is a `500`. -/
lemma standIn_ne_nil (e : PyError) : host.standIn false e ≠ [] := by
  obtain ⟨body, hbody⟩ : ∃ body, host.serverError none = .ok body := host.serverError_ok (by simp)
  unfold standIn PyError.detail
  rw [if_neg (by simp), ok_bind, host.serverErrorReply_eq, hbody]
  simp [sent, Except.map]

/-! ## The defaults -/

/-- What the default handlers return. -/
def problemResponse (body : PyArg α) (status : ℤ) (headers : HeaderDict α) : Returned α :=
  .value (.response ⟨body, .int status, problemType, .dict headers⟩)

/-- What the default handlers make of an exception. -/
def defaultOutcome : ExcKind α → HandlerOutcome α
  | .invalid body => .returned (problemResponse body 422 [])
  | .http exc =>
    match host.httpErrorBody exc with
    | .ok body => .returned (problemResponse (.bytes body) exc.status exc.headers)
    | .error e => .raised e
  | .other e => .raised e

/-- The clauses of `_respond` send what the default handlers would: the body of a `RequestValidationError` is bytes,
and an `HTTPError` is refused with a `ValueError` only. -/
def Sendable : ExcKind α → Prop
  | .invalid body => ∃ b, body = .bytes b
  | .http exc =>
    (∀ e, host.httpErrorBody exc = .error e → e.isValueError = true) ∧
      ∀ body, host.httpErrorBody exc = .ok body → TextFirst exc
  | .other _ => True

/-- `bytes(b)` is `b`. -/
def CopiesBytes : Prop := ∀ b, host.toBytes (.bytes b) = .ok b

variable {host}

lemma resultReply_problemResponse (hbytes : host.CopiesBytes) (body : List UInt8) (status : ℤ)
    (headers : HeaderDict α) :
    host.resultReply (problemResponse (.bytes body) status headers) =
      host.sentReply ⟨.int status, problemType, .bytes body, headerPairs headers⟩ := by
  have hargs : host.responseArgs ⟨.bytes body, .int status, problemType, .dict headers⟩ =
      .ok ⟨.int status, problemType, .bytes body, headerPairs headers⟩ := by
    unfold responseArgs encoded
    dsimp only
    rw [hbytes body, ok_bind]
    rfl
  have hmerged : host.resultReply (problemResponse (.bytes body) status headers) =
      host.responseArgs ⟨.bytes body, .int status, problemType, .dict headers⟩ >>= host.sentReply := rfl
  rw [hmerged, hargs, ok_bind]

lemma repliesOf_problemResponse_ne_nil (body : PyArg α) (status : ℤ) (headers : HeaderDict α) :
    repliesOf ((host.respond false (.returned (problemResponse body status headers))).run (.new kept)) ≠ [] := by
  cases hreply : host.resultReply (problemResponse body status headers) with
  | ok reply =>
    rw [host.repliesOf_returned_ok hreply rfl]
    simp
  | error e =>
    rw [host.repliesOf_returned_error hreply]
    exact host.standIn_ne_nil e

lemma httpErrorReply_of_body_error {exc : HttpError α} {e : PyError} (h : host.httpErrorBody exc = .error e) :
    host.httpErrorReply exc = .error e := by
  unfold httpErrorReply
  rw [h]
  rfl

lemma httpErrorReply_eq_resultReply (hbytes : host.CopiesBytes) {exc : HttpError α} {body : List UInt8}
    (h : host.httpErrorBody exc = .ok body) :
    host.httpErrorReply exc = host.resultReply (problemResponse (.bytes body) exc.status exc.headers) := by
  rw [resultReply_problemResponse hbytes]
  unfold httpErrorReply
  rw [h, ok_bind]

lemma refused_of_textFirst {exc : HttpError α} {body : List UInt8} (h : host.httpErrorBody exc = .ok body) :
    (∀ e, host.httpErrorReply exc = .error e → e.isValueError = true) ↔ TextFirst exc := by
  have htold : ∀ e, host.Told false e := fun e hdebug => absurd hdebug (by simp)
  have hfails : (∀ e, host.httpErrorReply exc = .error e → e.isValueError = true ∧ host.Told false e) ↔
      TextFirst exc := host.httpErrorReply_of_body h
  simpa only [htold, and_true] using hfails

/-- Where they can be sent, the two agree. -/
lemma repliesOf_default (hbytes : host.CopiesBytes) {kind : ExcKind α} (h : host.Sendable kind) :
    repliesOf ((host.respond debug (host.defaultOutcome kind)).run (.new kept)) =
      repliesOf ((host.respond debug kind.outcome).run (.new kept)) := by
  cases kind with
  | other e => rfl
  | invalid body =>
    obtain ⟨b, rfl⟩ := h
    have hreply := resultReply_problemResponse hbytes b 422 []
    have hproblem := host.sentReply_problem 422 (by decide) (.bytes b) none
    rw [ExcKind.outcome, repliesOf_invalid, defaultOutcome]
    rw [Nat.cast_ofNat] at hproblem
    rw [show headerPairs ([] : HeaderDict α) = none from rfl, hproblem] at hreply
    rw [host.repliesOf_returned_ok hreply rfl, hproblem]
    rfl
  | http exc =>
    rw [ExcKind.outcome, defaultOutcome]
    cases hbody : host.httpErrorBody exc with
    | error e =>
      dsimp only
      rw [repliesOf_raised, host.repliesOf_httpError_error (httpErrorReply_of_body_error hbody),
        if_pos (h.1 e hbody)]
    | ok body =>
      dsimp only
      have hreply := httpErrorReply_eq_resultReply hbytes hbody
      cases hresult : host.httpErrorReply exc with
      | ok reply =>
        rw [host.repliesOf_httpError_ok hresult, host.repliesOf_returned_ok (hreply.symm.trans hresult) rfl]
      | error e =>
        have hvalue : e.isValueError = true := (refused_of_textFirst hbody).mpr (h.2 body hbody) e hresult
        rw [host.repliesOf_httpError_error hresult, if_pos hvalue,
          host.repliesOf_returned_error (hreply.symm.trans hresult)]

/-- Where they cannot, `_respond` sends nothing and the default handlers do. -/
lemma repliesOf_unsent {kind : ExcKind α} (h : ¬ host.Sendable kind) (kept : Bool) :
    repliesOf ((host.respond false kind.outcome).run (.new kept)) = [] ∧
      repliesOf ((host.respond false (host.defaultOutcome kind)).run (.new kept)) ≠ [] := by
  cases kind with
  | other e => exact absurd trivial h
  | invalid body =>
    refine ⟨?_, repliesOf_problemResponse_ne_nil body 422 []⟩
    rw [ExcKind.outcome, repliesOf_invalid]
    have hproblem := host.sentReply_problem 422 (by decide) body none
    rw [Nat.cast_ofNat] at hproblem
    rw [hproblem]
    cases hbody : body with
    | bytes b => exact absurd ⟨b, hbody⟩ h
    | _ => rfl
  | http exc =>
    rw [ExcKind.outcome, defaultOutcome]
    cases hbody : host.httpErrorBody exc with
    | error e =>
      dsimp only
      rw [repliesOf_raised, host.repliesOf_httpError_error (httpErrorReply_of_body_error hbody)]
      refine ⟨?_, host.standIn_ne_nil e⟩
      rw [if_neg]
      intro hvalue
      apply h
      simpa [Sendable, hbody] using hvalue
    | ok body =>
      dsimp only
      refine ⟨?_, repliesOf_problemResponse_ne_nil _ _ _⟩
      have htext : ¬ TextFirst exc := by
        intro htext
        apply h
        simpa [Sendable, hbody] using htext
      rw [← refused_of_textFirst hbody] at htext
      obtain ⟨e, hresult, hvalue⟩ : ∃ e, host.httpErrorReply exc = .error e ∧ e.isValueError ≠ true := by
        simpa only [not_forall, exists_prop] using htext
      rw [host.repliesOf_httpError_error hresult, if_neg hvalue]

end PyHost

/-! ## A value and its reply -/

section

variable [DecidableEq α]

/-- The headers of a `Response` are a dict, as its class says. -/
def DictHeaders : Returned α → Prop
  | .value (.response r) => ∃ headers, r.headers = .dict headers
  | _ => True

lemma dictUpdate_nil {γ ν : Type} [DecidableEq γ] (base : List (γ × ν)) : dictUpdate base [] = base := rfl

lemma merged_asReply {result : Returned α} (h : DictHeaders result) :
    (Returned.reply (asReply result)).merged = result.merged := by
  cases result with
  | reply r => rfl
  | value v =>
    cases v with
    | response r =>
      obtain ⟨body, status, contentType, headers⟩ := r
      obtain ⟨headers, rfl⟩ := h
      rfl
    | _ => rfl

lemma respond_asReply (host : PyHost α) (debug : Bool) {result : Returned α} (h : DictHeaders result) :
    host.respond debug (.returned (.reply (asReply result))) = host.respond debug (.returned result) := by
  have hsend : host.sendResult (.reply (asReply result)) = host.sendResult result := by
    unfold PyHost.sendResult
    rw [merged_asReply h]
  rw [PyHost.respond, PyHost.respond, hsend]

variable {host : PyHost α} {debug kept : Bool} {request : ρ} {s : σ} {target target' : Endpoint κ α ρ σ}

lemma answer_congr (h : (target request).run s = (target' request).run s) :
    host.answer debug kept target request s = host.answer debug kept target' request s := by
  unfold PyHost.answer
  rw [h]

/-- The answer is the same if a target's values are returned as replies. -/
lemma answer_asReply (h : ∀ result s', (target request).run s = .ok result s' → DictHeaders result) :
    host.answer debug kept (fun request => Returned.reply <$> asReply <$> target request) request s =
      host.answer debug kept target request s := by
  unfold PyHost.answer
  cases htarget : (target request).run s with
  | ok result s' =>
    rw [run_map_ok (run_map_ok htarget _)]
    simp only [outcomeOf, respond_asReply host debug (h result s' htarget)]
  | error e s' => rw [run_map_error (run_map_error htarget _)]

end

namespace ErrorMapping

variable [DecidableEq κ] [DecidableEq α] (m : ErrorMapping κ α ρ σ)

/-! ## A route that is not guarded -/

variable {m} {mro : List (ExcClass κ)} {exc : Exc κ α} {request : ρ} {s s' : σ} {target : Endpoint κ α ρ σ}

lemma handlers_unmapped (h : m.mapped = false) : m.handlers = m.defaultHandlers := by
  obtain ⟨happ, hrouted⟩ : m.app = [] ∧ m.routed = [] := by simpa [mapped] using h
  funext cls
  unfold handlers
  rw [happ, hrouted]
  rfl

/-- A list is searched for the only element of it that can be found. -/
lemma findSome_eq {γ β : Type} {f : γ → Option β} {c : γ} {l : List γ} (hc : c ∈ l)
    (h : ∀ d ∈ l, d ≠ c → f d = none) : l.findSome? f = f c := by
  induction l with
  | nil => simp at hc
  | cons d rest ih =>
    by_cases hd : d = c
    · subst hd
      by_cases hrest : d ∈ rest
      · rw [List.findSome?_cons, ih hrest fun c hc => h c (List.mem_cons_of_mem d hc)]
        cases f d <;> rfl
      · have hnone : rest.findSome? f = none := by
          rw [List.findSome?_eq_none_iff]
          intro c hc
          exact h c (List.mem_cons_of_mem d hc) fun heq => hrest (heq ▸ hc)
        rw [List.findSome?_cons, hnone]
        cases f d <;> rfl
    · rw [List.findSome?_cons, h d List.mem_cons_self hd]
      apply ih
      · exact (List.mem_cons.mp hc).resolve_left fun heq => hd heq.symm
      · intro c hc
        exact h c (List.mem_cons_of_mem d hc)

lemma find_http (hmapped : m.mapped = false) {error : HttpError α} (hkind : exc.kind = .http error) :
    m.find exc = some m.defaultHttpError := by
  have hmem : .httpError ∈ exc.mro := by simp [exc.http_iff, hkind, ExcKind.isHttp]
  have hnot : .requestValidationError ∉ exc.mro := by simp [exc.invalid_iff, hkind, ExcKind.isInvalid]
  unfold find
  rw [handlers_unmapped hmapped]
  apply findSome_eq hmem
  intro cls hcls hne
  cases cls with
  | httpError => exact absurd rfl hne
  | requestValidationError => exact absurd hcls hnot
  | other cls => rfl

lemma find_invalid (hmapped : m.mapped = false) {body : PyArg α} (hkind : exc.kind = .invalid body) :
    m.find exc = some defaultValidationError := by
  have hmem : .requestValidationError ∈ exc.mro := by simp [exc.invalid_iff, hkind, ExcKind.isInvalid]
  have hnot : .httpError ∉ exc.mro := by simp [exc.http_iff, hkind, ExcKind.isHttp]
  unfold find
  rw [handlers_unmapped hmapped]
  apply findSome_eq hmem
  intro cls hcls hne
  cases cls with
  | httpError => exact absurd hcls hnot
  | requestValidationError => exact absurd rfl hne
  | other cls => rfl

lemma find_other (hmapped : m.mapped = false) {e : PyError} (hkind : exc.kind = .other e) : m.find exc = none := by
  unfold find
  rw [handlers_unmapped hmapped, List.findSome?_eq_none_iff]
  intro cls hcls
  cases cls with
  | httpError => simp [exc.http_iff, hkind, ExcKind.isHttp] at hcls
  | requestValidationError => simp [exc.invalid_iff, hkind, ExcKind.isInvalid] at hcls
  | other cls => rfl

/-- With no handler registered a guard does what the defaults do. -/
lemma outcome_guard_unmapped (hmapped : m.mapped = false) (h : (target request).run s = .error exc s') :
    outcomeOf ((m.guard target request).run s) = m.host.defaultOutcome exc.kind := by
  rw [m.guard_error h]
  cases hkind : exc.kind with
  | other e =>
    rw [m.clause_unhandled (m.not_handled_iff.mpr (find_other hmapped hkind))]
    change exc.kind.outcome = _
    rw [hkind]
    rfl
  | invalid body =>
    rw [m.clause_handled (find_invalid hmapped hkind)]
    have hdefault : (defaultValidationError request exc : EStateM (Exc κ α) σ (Returned α)) =
        pure (PyHost.problemResponse body 422 []) := by
      simp only [defaultValidationError, hkind, PyHost.problemResponse]
    unfold settle
    rw [hdefault]
    rfl
  | http error =>
    rw [m.clause_handled (find_http hmapped hkind)]
    unfold PyHost.defaultOutcome
    dsimp only
    cases hbody : m.host.httpErrorBody error with
    | ok body =>
      have hdefault : m.defaultHttpError request exc =
          pure (PyHost.problemResponse (.bytes body) error.status error.headers) := by
        simp only [defaultHttpError, hkind, hbody, PyHost.problemResponse]
      unfold settle
      rw [hdefault]
      rfl
    | error e =>
      have hdefault : m.defaultHttpError request exc = throw (m.encoderError e) := by
        simp only [defaultHttpError, hkind, hbody]
      rw [m.settle_other (e := m.encoderError e) (by rw [hdefault]; rfl) rfl]
      rfl

lemma answer_guard_unmapped {debug kept : Bool} (hmapped : m.mapped = false) (hbytes : m.host.CopiesBytes)
    (h : ∀ exc s', (target request).run s = .error exc s' → m.host.Sendable exc.kind) :
    m.host.answer debug kept (m.guard target) request s = m.host.answer debug kept target request s := by
  cases htarget : (target request).run s with
  | ok result s' => exact answer_congr ((m.guard_ok htarget).trans htarget.symm)
  | error exc s' =>
    unfold PyHost.answer
    rw [outcome_guard_unmapped hmapped htarget, htarget]
    exact PyHost.repliesOf_default hbytes (h exc s' htarget)

/-! ## What is returned -/

/-- A `Response` that the target or a registered handler returns has a dict for its headers. -/
structure Typed (m : ErrorMapping κ α ρ σ) (target : Endpoint κ α ρ σ) : Prop where
  target : ∀ request s result s', (target request).run s = .ok result s' → DictHeaders result
  handler : ∀ item ∈ m.app ++ m.routed, ∀ request exc s result s',
    (item.2 request exc).run s = .ok result s' → DictHeaders result

variable {handler : ExcHandler κ α ρ σ} {result : Returned α}

/-- A handler is a registered one or a default. -/
lemma handlers_cases {cls : ExcClass κ} (h : m.handlers cls = some handler) :
    (cls, handler) ∈ m.app ++ m.routed ∨ m.defaultHandlers cls = some handler := by
  have hmem : ∀ {l : List (ExcClass κ × ExcHandler κ α ρ σ)}, l.lookup cls = some handler → (cls, handler) ∈ l := by
    intro l hl
    obtain ⟨before, after, rfl, _⟩ := List.lookup_eq_some_iff.mp hl
    simp
  have h' : m.routed.lookup cls = some handler ∨ m.app.lookup cls = some handler ∨
      m.defaultHandlers cls = some handler := by
    unfold handlers at h
    cases hrouted : m.routed.lookup cls with
    | some _ => exact .inl (by simpa [hrouted] using h)
    | none =>
      cases happ : m.app.lookup cls with
      | some _ => exact .inr (.inl (by simpa [hrouted, happ] using h))
      | none => exact .inr (.inr (by simpa [hrouted, happ] using h))
  rcases h' with hrouted | happ | hdefault
  · exact .inl (List.mem_append_right _ (hmem hrouted))
  · exact .inl (List.mem_append_left _ (hmem happ))
  · exact .inr hdefault

omit [DecidableEq κ] in
lemma dictHeaders_default {cls : ExcClass κ} (h : m.defaultHandlers cls = some handler)
    (hrun : (handler request exc).run s = .ok result s') : DictHeaders result := by
  cases cls with
  | httpError =>
    obtain rfl := Option.some.inj h
    unfold defaultHttpError at hrun
    split at hrun
    · split at hrun
      · cases hrun
        exact ⟨_, rfl⟩
      · cases hrun
    · cases hrun
  | requestValidationError =>
    obtain rfl := Option.some.inj h
    unfold defaultValidationError at hrun
    split at hrun
    · cases hrun
      exact ⟨_, rfl⟩
    · cases hrun
  | other cls => cases h

lemma Typed.found (h : m.Typed target) (hfind : m.find exc = some handler)
    (hrun : (handler request exc).run s = .ok result s') : DictHeaders result := by
  obtain ⟨_, cls, _, _, _, hcls⟩ := m.find_eq_some_iff.mp hfind
  rcases handlers_cases hcls with hmem | hdefault
  · exact h.handler _ hmem request exc s result s' hrun
  · exact dictHeaders_default hdefault hrun

lemma Typed.guard (h : m.Typed target) (hrun : (m.guard target request).run s = .ok result s') :
    DictHeaders result := by
  cases htarget : (target request).run s with
  | ok result' t =>
    rw [m.guard_ok htarget] at hrun
    cases hrun
    exact h.target _ _ _ _ htarget
  | error exc t =>
    rw [m.guard_error htarget] at hrun
    cases hfind : m.find exc with
    | none =>
      rw [m.clause_unhandled (m.not_handled_iff.mpr hfind)] at hrun
      cases hrun
    | some handler =>
      rw [m.clause_handled hfind] at hrun
      cases hhandler : (handler request exc).run (m.takeAfter request t) with
      | ok result' t' =>
        unfold settle at hrun
        rw [run_tryCatch_ok hhandler] at hrun
        cases hrun
        exact h.found hfind hhandler
      | error e t' =>
        cases hhttp : e.kind.isHttp with
        | false =>
          rw [m.settle_other hhandler hhttp] at hrun
          cases hrun
        | true =>
          cases hfallback : m.find e with
          | none =>
            rw [m.settle_unhandled hhandler hfallback] at hrun
            cases hrun
          | some fallback =>
            rw [m.settle_fallback hhandler hhttp hfallback] at hrun
            exact h.found hfallback hrun

omit [DecidableEq κ] [DecidableEq α] in
lemma Typed.checkWrap (h : m.Typed target) (check : ρ → EStateM (Exc κ α) σ Unit) :
    m.Typed (checkWrap check target) := by
  refine ⟨?_, h.handler⟩
  intro request s result s' hrun
  cases hcheck : (check request).run s with
  | ok _ t =>
    rw [Oxbrook.checkWrap, run_bind_ok hcheck] at hrun
    exact h.target _ _ _ _ hrun
  | error e t =>
    rw [Oxbrook.checkWrap, run_bind_error hcheck] at hrun
    cases hrun

/-! ## Chains with and without pass-through links -/

variable {outer outer' inner inner' links links' : List (Middleware κ α ρ σ)} {debug kept : Bool}

omit [DecidableEq κ] [DecidableEq α] in
lemma padded_chain (houter : Padded outer outer') (hinner : Padded inner inner') (check : RouteCheck κ α ρ σ) :
    Padded (chain outer inner check) (chain outer' inner' check) := by
  cases check with
  | free => exact houter.append hinner
  | shared spend => exact houter.append (hinner.keep _)
  | auth check => exact houter.append (hinner.keep _)

/-- A route with a middleware or a registered handler is guarded. -/
lemma compose_guarded (check : RouteCheck κ α ρ σ) (h : (outer ++ inner).isEmpty = false ∨ m.mapped = true) :
    m.compose target outer inner check = m.layer target (chain outer inner check) := by
  have hguarded : ((outer ++ inner).isEmpty && !m.mapped) = false := by
    rcases h with h | h
    · rw [h]
      rfl
    · rw [h]
      simp
  cases check with
  | free => simp only [compose, chain, hguarded, Bool.false_eq_true, if_false]
  | shared spend => rfl
  | auth check => simp only [compose, chain, hguarded, Bool.false_eq_true, if_false]

lemma layer_cons (middleware : Middleware κ α ρ σ) (rest : List (Middleware κ α ρ σ)) :
    m.layer target (middleware :: rest) =
      fun request => Returned.reply <$> m.calls target (middleware :: rest) request := rfl

lemma answer_layer_padded (hclosed : m.Closed) (htyped : m.Typed target) (hpadded : Padded links links') :
    m.host.answer debug kept (m.layer target links') request s =
      m.host.answer debug kept (m.layer target links) request s := by
  have hcalls := hclosed.calls_padded target hpadded
  cases links' with
  | nil => rw [hpadded.eq_nil]
  | cons middleware' rest' =>
    rw [layer_cons, hcalls]
    cases links with
    | nil => exact answer_asReply fun result s' hrun => htyped.guard hrun
    | cons middleware rest => rfl

/-- What runs for a route that is not guarded, if the check does not make it a chain. -/
def unguarded (target : Endpoint κ α ρ σ) : RouteCheck κ α ρ σ → Option (Endpoint κ α ρ σ)
  | .free => some target
  | .shared _ => none
  | .auth check => some (Oxbrook.checkWrap check target)

lemma compose_shared {check : RouteCheck κ α ρ σ} (h : unguarded target check = none) :
    m.compose target outer inner check = m.layer target (chain outer inner check) := by
  cases check with
  | free => cases h
  | shared spend => rfl
  | auth check => cases h

lemma compose_unguarded {bare : Endpoint κ α ρ σ} {check : RouteCheck κ α ρ σ} (hmapped : m.mapped = false)
    (hbare : unguarded target check = some bare) : m.compose target [] [] check = bare := by
  cases check with
  | free =>
    obtain rfl := Option.some.inj hbare
    simp [compose, hmapped]
  | shared spend => cases hbare
  | auth check =>
    obtain rfl := Option.some.inj hbare
    simp [compose, hmapped]

omit [DecidableEq κ] [DecidableEq α] in
lemma Typed.unguarded {bare : Endpoint κ α ρ σ} {check : RouteCheck κ α ρ σ} (h : m.Typed target)
    (hbare : unguarded target check = some bare) : m.Typed bare := by
  cases check with
  | free =>
    obtain rfl := Option.some.inj hbare
    exact h
  | shared spend => cases hbare
  | auth check =>
    obtain rfl := Option.some.inj hbare
    exact h.checkWrap check

lemma calls_unguarded {bare : Endpoint κ α ρ σ} {check : RouteCheck κ α ρ σ} (hclosed : m.Closed)
    (hbare : unguarded target check = some bare) : m.calls target (chain [] [] check) = m.calls bare [] := by
  cases check with
  | free =>
    obtain rfl := Option.some.inj hbare
    rfl
  | shared spend => cases hbare
  | auth check =>
    obtain rfl := Option.some.inj hbare
    exact hclosed.calls_check check target

omit [DecidableEq κ] [DecidableEq α] in
lemma chain_ne_nil (check : RouteCheck κ α ρ σ) (h : (outer ++ inner).isEmpty = false) :
    chain outer inner check ≠ [] := by
  cases check with
  | free => simpa [chain] using h
  | shared spend => simp [chain]
  | auth check => simp [chain]

/-- With a pass-through link, a route that was not guarded answers as if it were. -/
lemma answer_padded_unguarded {bare : Endpoint κ α ρ σ} {check : RouteCheck κ α ρ σ} (hclosed : m.Closed)
    (htyped : m.Typed target) (hbare : unguarded target check = some bare) (houter : Padded [] outer)
    (hinner : Padded [] inner) (hne : (outer ++ inner).isEmpty = false) :
    m.host.answer debug kept (m.compose target outer inner check) request s =
      m.host.answer debug kept (m.guard bare) request s := by
  have hpadded : Padded (chain [] [] check) (chain outer inner check) := padded_chain houter hinner check
  have hcalls : m.calls target (chain outer inner check) = m.calls bare [] :=
    (hclosed.calls_padded target hpadded).trans (calls_unguarded hclosed hbare)
  obtain ⟨first, rest, hchain⟩ := List.exists_cons_of_ne_nil (chain_ne_nil check hne)
  rw [compose_guarded check (.inl hne), hchain, layer_cons, ← hchain, hcalls]
  exact answer_asReply fun result s' hrun => (htyped.unguarded hbare).guard hrun

/-! ## Independence -/

/-- The mapping of exceptions does not depend on middleware. -/
structure Independent (m : ErrorMapping κ α ρ σ) (target : Endpoint κ α ρ σ) (check : RouteCheck κ α ρ σ) : Prop where
  unraised : ∀ outer inner before middleware after, chain outer inner check = before ++ middleware :: after →
    ∀ request, Spares m.Handled (m.calls target after request)
  mostSpecific : ∀ exc handler, m.find exc = some handler ↔ m.MostSpecific exc handler
  padding : ∀ outer outer' inner inner', Padded outer outer' → Padded inner inner' → ∀ debug kept request s,
    ((m.host.answer debug kept (m.compose target outer' inner' check) request s).map fun r => (r.status, r.body)) =
      (m.host.answer debug kept (m.compose target outer inner check) request s).map fun r => (r.status, r.body)

/-- A middleware that raises. -/
def raiser (exc : Exc κ α) : Middleware κ α ρ σ := fun _ _ => throw exc

lemma Independent.closed {check : RouteCheck κ α ρ σ} (h : m.Independent target check) : m.Closed := by
  apply m.closed_of_clause
  intro request exc _ s e s' hrun
  obtain ⟨rest, hchain⟩ : ∃ rest, chain [passThrough, raiser exc] [] check = [] ++ passThrough :: raiser exc :: rest := by
    cases check with
    | free => exact ⟨_, rfl⟩
    | shared spend => exact ⟨_, rfl⟩
    | auth check => exact ⟨_, rfl⟩
  apply h.unraised _ _ _ _ _ hchain request s e s'
  rw [calls_cons]
  have hraised : (Returned.reply <$> link (raiser exc) (m.calls target rest) request).run s = .error exc s := rfl
  apply run_map_error
  rw [m.guard_error hraised]
  exact hrun

/-- What `_respond` does by itself on a route that is not guarded is what the defaults would do. -/
def DefaultsAgree (m : ErrorMapping κ α ρ σ) (target : Endpoint κ α ρ σ) (check : RouteCheck κ α ρ σ) : Prop :=
  m.mapped = false → ∀ bare, unguarded target check = some bare → ∀ request s exc s',
    (bare request).run s = .error exc s' → m.host.Sendable exc.kind

lemma Independent.defaultsAgree {check : RouteCheck κ α ρ σ} (h : m.Independent target check) (htyped : m.Typed target) :
    m.DefaultsAgree target check := by
  intro hmapped bare hbare request s exc s' hraised
  by_contra hsendable
  obtain ⟨hnone, hsome⟩ := PyHost.repliesOf_unsent hsendable false
  have hpadding := h.padding [] [passThrough] [] [] Padded.nil.pass .nil false false request s
  rw [answer_padded_unguarded h.closed htyped hbare Padded.nil.pass .nil rfl, compose_unguarded hmapped hbare] at hpadding
  unfold PyHost.answer at hpadding
  rw [outcome_guard_unmapped hmapped hraised, hraised, show outcomeOf (.error exc s') = exc.kind.outcome from rfl,
    hnone] at hpadding
  exact hsome (List.map_eq_nil_iff.mp hpadding)

lemma answer_padded {check : RouteCheck κ α ρ σ} (hclosed : m.Closed) (hdefaults : m.DefaultsAgree target check)
    (hbytes : m.host.CopiesBytes) (htyped : m.Typed target) (houter : Padded outer outer')
    (hinner : Padded inner inner') :
    m.host.answer debug kept (m.compose target outer' inner' check) request s =
      m.host.answer debug kept (m.compose target outer inner check) request s := by
  by_cases hguarded : (outer ++ inner).isEmpty = false ∨ m.mapped = true
  · have hguarded' : (outer' ++ inner').isEmpty = false ∨ m.mapped = true := by
      refine hguarded.imp_left ?_
      intro hne
      by_contra hempty
      obtain ⟨rfl, rfl⟩ : outer' = [] ∧ inner' = [] := by simpa using hempty
      rw [houter.eq_nil, hinner.eq_nil] at hne
      simp at hne
    rw [compose_guarded check hguarded, compose_guarded check hguarded']
    exact answer_layer_padded hclosed htyped (padded_chain houter hinner check)
  · obtain ⟨⟨rfl, rfl⟩, hmapped⟩ : (outer = [] ∧ inner = []) ∧ m.mapped = false := by
      simpa using hguarded
    cases hbare : unguarded target check with
    | none =>
      rw [compose_shared hbare, compose_shared hbare]
      exact answer_layer_padded hclosed htyped (padded_chain houter hinner check)
    | some bare =>
      cases hne : (outer' ++ inner').isEmpty with
      | true =>
        obtain ⟨rfl, rfl⟩ : outer' = [] ∧ inner' = [] := by simpa using hne
        rfl
      | false =>
        rw [answer_padded_unguarded hclosed htyped hbare houter hinner hne, compose_unguarded hmapped hbare]
        apply answer_guard_unmapped hmapped hbytes
        intro exc s' hraised
        exact hdefaults hmapped bare hbare request s exc s' hraised

/-- The mapping does not depend on middleware exactly for handlers that are closed, where `_respond` agrees with the
default handlers. -/
theorem independent_iff (m : ErrorMapping κ α ρ σ) (hbytes : m.host.CopiesBytes) {target : Endpoint κ α ρ σ}
    (htyped : m.Typed target) (check : RouteCheck κ α ρ σ) :
    m.Independent target check ↔ m.Closed ∧ m.DefaultsAgree target check := by
  constructor
  · intro h
    exact ⟨h.closed, h.defaultsAgree htyped⟩
  · rintro ⟨hclosed, hdefaults⟩
    refine ⟨?_, ?_, ?_⟩
    · intro outer inner before middleware after _ request
      exact hclosed.calls_spares target after request
    · intro exc handler
      exact m.find_eq_some_iff
    · intro outer outer' inner inner' houter hinner debug kept request s
      rw [answer_padded hclosed hdefaults hbytes htyped houter hinner]

omit [DecidableEq κ] in
lemma default_error {cls : ExcClass κ} {e : Exc κ α} (h : m.defaultHandlers cls = some handler) (hmem : cls ∈ exc.mro)
    (hrun : (handler request exc).run s = .error e s') : ∃ cause, e = m.encoderError cause := by
  cases cls with
  | httpError =>
    obtain rfl := Option.some.inj h
    have hkind : exc.kind.isHttp = true := exc.http_iff.mp hmem
    unfold defaultHttpError at hrun
    split at hrun
    · split at hrun
      · cases hrun
      · cases hrun
        exact ⟨_, rfl⟩
    · next hother =>
      cases hexc : exc.kind with
      | http error => exact absurd hexc (hother error)
      | _ => simp [hexc, ExcKind.isHttp] at hkind
  | requestValidationError =>
    obtain rfl := Option.some.inj h
    have hkind : exc.kind.isInvalid = true := exc.invalid_iff.mp hmem
    unfold defaultValidationError at hrun
    split at hrun
    · cases hrun
    · next hother =>
      cases hexc : exc.kind with
      | invalid body => exact absurd hexc (hother body)
      | _ => simp [hexc, ExcKind.isInvalid] at hkind
  | other cls => cases h

end ErrorMapping

/-! ## Two shops -/

inductive ShopError
  | outOfStock
  | conflict
  | valueError
  deriving DecidableEq

/-- An exception of a class that the application declares. -/
def ShopError.exc (error : ShopError) : Exc ShopError Empty where
  mro := [.other error]
  kind := .other (.plain ⟨"ShopError", false⟩ [])
  http_iff := by simp [ExcKind.isHttp]
  invalid_iff := by simp [ExcKind.isInvalid]

/-- A handler that is out of stock. -/
def sellOut : Endpoint ShopError Empty Unit Unit := fun _ => throw ShopError.outOfStock.exc

/-- `HTTPError(409)`. -/
def gone : Exc ShopError Empty where
  mro := [.httpError]
  kind := .http
    { status := 409
      detail := none
      type := .text "about:blank"
      title := .text "Conflict"
      instanceUri := .none
      extensions := []
      headers := []
      isError := by decide }
  http_iff := by simp [ExcKind.isHttp]
  invalid_iff := by simp [ExcKind.isInvalid]

/-- Out of stock is answered by raising an `HTTPError`. -/
def answering : ErrorMapping ShopError Empty Unit Unit where
  host := plainHost
  classes _ := [.valueError]
  takeAfter _ s := s
  app := [(.other .outOfStock, fun _ _ => throw gone)]
  routed := []

lemma answering_closed : answering.Closed := by
  intro exc handler hfind request s e s' hrun fallback hfallback
  obtain ⟨before, cls, after, hmro, _, hcls⟩ := answering.find_eq_some_iff.mp hfind
  rcases ErrorMapping.handlers_cases hcls with hmem | hdefault
  · obtain ⟨rfl, rfl⟩ : cls = .other .outOfStock ∧ handler = fun _ _ => throw gone := by
      simpa [answering] using hmem
    cases hrun
    obtain rfl : answering.defaultHttpError = fallback := Option.some.inj hfallback
    refine ⟨rfl, ?_⟩
    intro e' s'' hraised
    have hdefault : answering.defaultHandlers .httpError = some answering.defaultHttpError := rfl
    obtain ⟨cause, rfl⟩ := ErrorMapping.default_error hdefault (by simp [gone]) hraised
    rfl
  · obtain ⟨cause, rfl⟩ := ErrorMapping.default_error hdefault (by simp [hmro]) hrun
    cases hfallback

/-- The theorem applies to handlers that answer by raising an `HTTPError`. -/
theorem answering_independent : answering.Independent sellOut .free := by
  have htyped : answering.Typed sellOut := by
    constructor
    · intro request s result s' hrun
      cases hrun
    · intro item hitem request exc s result s' hrun
      obtain rfl : item = (.other .outOfStock, fun _ _ => throw gone) := by simpa [answering] using hitem
      cases hrun
  apply (answering.independent_iff (fun b => rfl) htyped .free).mpr
  exact ⟨answering_closed, fun hmapped => by cases hmapped⟩

/-- Out of stock is raised again as a conflict, which is a `409`. -/
def relabelling : ErrorMapping ShopError Empty Unit Unit where
  host := plainHost
  classes _ := [.valueError]
  takeAfter _ s := s
  app :=
    [(.other .outOfStock, fun _ _ => throw ShopError.conflict.exc),
     (.other .conflict, fun _ _ => pure (.reply ⟨.none, .int 409, .dict []⟩))]
  routed := []

/-- The conflict is a `500` without middleware and a `409` with one that does nothing. -/
theorem relabelling_depends :
    (plainHost.answer false false (relabelling.compose sellOut [] [] .free) () ()).map HandlerReply.status = [500] ∧
    (plainHost.answer false false (relabelling.compose sellOut [passThrough] [] .free) () ()).map HandlerReply.status =
      [409] ∧
    ¬ relabelling.Independent sellOut .free := by
  have hbare :
      (plainHost.answer false false (relabelling.compose sellOut [] [] .free) () ()).map HandlerReply.status =
        [500] := by decide +kernel
  have hpassed :
      (plainHost.answer false false (relabelling.compose sellOut [passThrough] [] .free) () ()).map
        HandlerReply.status = [409] := by decide +kernel
  refine ⟨hbare, hpassed, ?_⟩
  intro h
  have hpadding := h.padding [] [passThrough] [] [] Padded.nil.pass .nil false false () ()
  have hstatus := congrArg (List.map Prod.fst) hpadding
  rw [List.map_map, List.map_map] at hstatus
  have h409 : [409] = [500] := hpassed.symm.trans (hstatus.trans hbare)
  simp at h409

end Oxbrook
