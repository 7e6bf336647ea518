import Oxbrook.Replies.Handler

/-!
# The reply that an outcome calls for

`wanted` is the reply that an outcome calls for, as a value: it has no responder and no state.  The programs of the
runtime hand over this reply or raise its error.  What takes the place of a reply that cannot be sent is a `500`,
which can be sent if the exception can be told: with `debug` its text is part of the answer.
-/

namespace Oxbrook

open Attempt PyStr

variable {α : Type}

namespace PyStr

lemma encodable_lit (t : String) : (lit t).Encodable := by
  intro c hc
  obtain ⟨c', _, rfl⟩ := List.mem_map.mp hc
  rfl

lemma Encodable.append {s t : PyStr} (hs : s.Encodable) (ht : t.Encodable) : (s ++ t).Encodable := by
  intro c hc
  exact (List.mem_append.mp hc).elim (hs c) (ht c)

end PyStr

lemma PyError.detail_ok_iff {debug : Bool} {e : PyError} :
    (∃ detail, e.detail debug = .ok detail) ↔ (debug = true → ∃ text, e.described = .ok text) := by
  cases debug with
  | false => simp [PyError.detail]
  | true =>
    cases hdescribed : e.described with
    | ok text => simp [PyError.detail, hdescribed, Except.map]
    | error e' => simp [PyError.detail, hdescribed, Except.map]

/-- The log can name the work, if it has to. -/
def AfterWork.Loggable (work : AfterWork) : Prop := ∀ e, work.ended = .error e → ∃ name, work.name = .ok name

/-! ## What an outcome calls for -/

/-- How a stream ends once it has started. -/
def Merged.pumped (m : Merged α) : Except PyError Unit :=
  match m.value with
  | .sse _ pumped => pumped
  | _ => .ok ()

def Returned.pumped [DecidableEq α] (result : Returned α) : Except PyError Unit :=
  match result.merged with
  | .ok m => m.pumped
  | .error _ => .ok ()

namespace PyHost

variable (host : PyHost α)

/-- A reply that `check` lets through. -/
def checked (reply : HandlerReply) : Except PyError HandlerReply := host.check reply >>= fun _ => .ok reply

def sentReply (args : SendArgs α) : Except PyError HandlerReply := host.fullReply args >>= host.checked

def jsonReply (v : PyArg α) : Except PyError HandlerReply := do
  let body ← host.depythonize v
  host.checked ⟨200, "application/json", [], .full body⟩

def startedStream (status : PyArg α) : Except PyError HandlerReply := host.streamReply status >>= host.checked

variable [DecidableEq α]

def otherReply (v : PyArg α) : Except PyError HandlerReply :=
  (host.jsonReply v).tryCatch fun _ => do
    let body ← host.encode v
    host.sentReply ⟨.int 200, .text "application/json", .bytes body, none⟩

def mergedReply (m : Merged α) : Except PyError HandlerReply :=
  match m.value with
  | .sse status _ => host.startedStream status
  | .response r => host.responseArgs r >>= host.sentReply
  | .none => host.sentReply ⟨host.orElse m.status (.int 204), .text "text/plain", .bytes [], m.headers⟩
  | .model x => host.bodyArgs m "application/json" (host.toJson x) >>= host.sentReply
  | .buffer b => host.bodyArgs m "application/octet-stream" (host.toBytes b) >>= host.sentReply
  | .text s => host.bodyArgs m "text/plain; charset=utf-8" (host.encodeStr s) >>= host.sentReply
  | .other v =>
    if m.Bare then host.otherReply v
    else host.bodyArgs m "application/json" (host.encode v) >>= host.sentReply

def resultReply (result : Returned α) : Except PyError HandlerReply := result.merged >>= host.mergedReply

def serverErrorReply (detail : Option PyStr) : Except PyError HandlerReply := do
  let body ← host.serverError detail
  host.sentReply ⟨.int 500, problemType, .bytes body, none⟩

def httpErrorReply (exc : HttpError α) : Except PyError HandlerReply := do
  let body ← host.httpErrorBody exc
  host.sentReply ⟨.int exc.status, problemType, .bytes body, headerPairs exc.headers⟩

/-- The reply that an outcome calls for. -/
def wanted (debug : Bool) : HandlerOutcome α → Except PyError HandlerReply
  | .invalid body => host.sentReply ⟨.int 422, problemType, body, none⟩
  | .httpError exc => host.httpErrorReply exc
  | .raised exc => exc.detail debug >>= host.serverErrorReply
  | .returned result => host.resultReply result

/-! ## The programs hand it over -/

variable {s : Responder}

section

omit [DecidableEq α]

lemma deliver_hands (reply : HandlerReply) (hs : s.taken = false) :
    Hands Responder.hand (host.deliver reply) s (host.checked reply) := by
  unfold deliver checked
  apply Hands.lift_bind
  intro _ _
  unfold Hands
  simp [hs, handOver]

lemma deliver_taken (reply : HandlerReply) (hs : s.taken = true) : ∃ e, (host.deliver reply).run s = .error e s := by
  unfold deliver
  cases hcheck : host.check reply with
  | error e =>
    refine ⟨e, ?_⟩
    rw [run_bind_error (run_lift_error e s)]
  | ok _ =>
    refine ⟨.runtimeError "response already sent", ?_⟩
    simp [hs]

lemma send_hands (args : SendArgs α) (hs : s.taken = false) :
    Hands Responder.hand (host.send args) s (host.sentReply args) := by
  unfold send sentReply
  apply Hands.lift_bind
  intro reply _
  exact host.deliver_hands reply hs

lemma send_taken (args : SendArgs α) (hs : s.taken = true) : ∃ e, (host.send args).run s = .error e s := by
  unfold send
  cases hreply : host.fullReply args with
  | error e => exact ⟨e, run_bind_error (run_lift_error e s) _⟩
  | ok reply =>
    rw [run_bind_ok (run_lift_ok reply s)]
    exact host.deliver_taken reply hs

lemma sendArgs_hands (args : Except PyError (SendArgs α)) (hs : s.taken = false) :
    Hands Responder.hand (host.sendArgs args) s (args >>= host.sentReply) := by
  unfold sendArgs
  apply Hands.lift_bind
  intro args _
  exact host.send_hands args hs

lemma sendOther_hands (v : PyArg α) (hs : s.taken = false) :
    Hands Responder.hand (host.sendOther v) s (host.otherReply v) := by
  unfold sendOther otherReply
  apply Hands.orElse
  · unfold sendJson jsonReply
    apply Hands.lift_bind
    intro body _
    exact host.deliver_hands _ hs
  · apply Hands.lift_bind
    intro body _
    exact host.send_hands _ hs

lemma pumpSse_ok {status : PyArg α} {reply : HandlerReply} (pumped : Except PyError Unit)
    (h : host.startedStream status = .ok reply) (hs : s.taken = false) :
    (host.pumpSse status pumped).run s = (lift pumped).run (s.hand reply) := by
  obtain ⟨started, hstarted, hchecked⟩ := bind_eq_ok.mp h
  have hdeliver := host.deliver_hands started hs
  rw [hchecked] at hdeliver
  unfold pumpSse
  rw [hstarted, run_bind_ok (run_lift_ok started s), run_bind_ok hdeliver.ok]

lemma pumpSse_error {status : PyArg α} {e : PyError} (pumped : Except PyError Unit)
    (h : host.startedStream status = .error e) (hs : s.taken = false) :
    (host.pumpSse status pumped).run s = .error e s := by
  unfold pumpSse
  unfold startedStream at h
  cases hstarted : host.streamReply status with
  | error e' =>
    rw [hstarted] at h
    rw [run_bind_error (run_lift_error e' s), Except.error.inj h]
  | ok started =>
    rw [hstarted] at h
    have hdeliver := host.deliver_hands started hs
    rw [show host.checked started = .error e from h] at hdeliver
    rw [run_bind_ok (run_lift_ok started s), run_bind_error hdeliver.error]

end

lemma sendServerError_hands (detail : Option PyStr) (hs : s.taken = false) :
    Hands Responder.hand (host.sendServerError detail) s (host.serverErrorReply detail) := by
  unfold sendServerError serverErrorReply
  apply Hands.lift_bind
  intro body _
  exact host.send_hands _ hs

lemma sendHttpError_hands (exc : HttpError α) (hs : s.taken = false) :
    Hands Responder.hand (host.sendHttpError exc) s (host.httpErrorReply exc) := by
  unfold sendHttpError httpErrorReply
  apply Hands.lift_bind
  intro body _
  exact host.send_hands _ hs

/-- A stream can fail after it was started; no other reply can. -/
lemma sendMerged_run (m : Merged α) (hs : s.taken = false) :
    (host.sendMerged m).run s = handOver Responder.hand s (lift m.pumped) (host.mergedReply m) := by
  unfold sendMerged mergedReply Merged.pumped
  cases m.value with
  | sse status pumped =>
    dsimp only
    cases hstarted : host.startedStream status with
    | ok reply => exact host.pumpSse_ok pumped hstarted hs
    | error e => exact host.pumpSse_error pumped hstarted hs
  | response r => exact host.sendArgs_hands _ hs
  | none => exact host.send_hands _ hs
  | model x => exact host.sendArgs_hands _ hs
  | buffer b => exact host.sendArgs_hands _ hs
  | text t => exact host.sendArgs_hands _ hs
  | other v =>
    by_cases hbare : m.Bare
    · simp only [hbare, if_true]
      exact host.sendOther_hands v hs
    · simp only [hbare, if_false]
      exact host.sendArgs_hands _ hs

lemma sendResult_run (result : Returned α) (hs : s.taken = false) :
    (host.sendResult result).run s = handOver Responder.hand s (lift result.pumped) (host.resultReply result) := by
  unfold sendResult resultReply Returned.pumped
  cases result.merged with
  | error e => exact run_bind_error (run_lift_error e s) _
  | ok m =>
    rw [run_bind_ok (run_lift_ok m s)]
    exact host.sendMerged_run m hs

/-! ## Problem details -/

omit [DecidableEq α] in
lemma strArg_text (argument t : String) : host.strArg argument (.text t) = .ok t := by
  simp only [strArg, PyArg.text, encodable_lit, if_true]
  simp [lit]

omit [DecidableEq α] in
lemma statusArg_int {status : ℕ} (h : status ≤ 599) : host.statusArg (.int status) = .ok status := by
  have hrange : (0 : ℤ) ≤ status ∧ (status : ℤ) < 65536 := by omega
  simp [statusArg, toU16, hrange]

omit [DecidableEq α] in
lemma check_problem {status : ℕ} (h : 100 ≤ status ∧ status ≤ 599) (headers : Headers) (body : ReplyBody) :
    host.check ⟨status, "application/problem+json", headers, body⟩ = host.checkHeaders headers := by
  have hvalid : validValue "application/problem+json" = true := by decide +kernel
  simp [check, h, hvalid]

omit [DecidableEq α] in
/-- A problem with a valid status is refused for its body or its headers only. -/
lemma sentReply_problem (status : ℕ) (h : 100 ≤ status ∧ status ≤ 599) (body : PyArg α)
    (headers : Option (List (PyArg α × PyArg α))) :
    host.sentReply ⟨.int status, problemType, body, headers⟩ = do
      let b ← host.bytesArg body
      let pairs ← host.headersArg (headers.getD [])
      host.checkHeaders pairs
      return ⟨status, "application/problem+json", pairs, .full b⟩ := by
  unfold sentReply fullReply checked
  dsimp only
  rw [problemType, host.strArg_text, host.statusArg_int h.2]
  cases host.bytesArg body with
  | error e => rfl
  | ok b =>
    cases host.headersArg (headers.getD []) with
    | error e => rfl
    | ok pairs =>
      change (host.check ⟨status, "application/problem+json", pairs, .full b⟩ >>= fun _ => _) = _
      rw [host.check_problem h]
      rfl

/-- The `500` is refused for its text only. -/
lemma serverErrorReply_eq (detail : Option PyStr) :
    host.serverErrorReply detail =
      (host.serverError detail).map fun body => ⟨500, "application/problem+json", [], .full body⟩ := by
  unfold serverErrorReply
  cases host.serverError detail with
  | error e => rfl
  | ok body =>
    have hreply := host.sentReply_problem 500 (by decide) (.bytes body) none
    rw [Nat.cast_ofNat] at hreply
    exact hreply

/-- A text that can be encoded does not keep a `500` from being sent. -/
lemma serverError_ok {detail : Option PyStr} (h : ∀ text, detail = some text → text.Encodable) :
    ∃ body, host.serverError detail = .ok body := by
  apply host.encodeDict_plain
  cases detail with
  | none => simp [dictUpdate, PyArg.text, PyArg.Plain, encodable_lit]
  | some text => simp [dictUpdate, PyArg.text, PyArg.Plain, encodable_lit, h text rfl]

/-! ## The reply that stands in for another -/

/-- With `debug` the answer holds the text of the exception, which then has to be made and encoded. -/
def Told (debug : Bool) (e : PyError) : Prop :=
  debug = true → ∃ text, e.described = .ok text ∧ ∃ body, host.serverError (some text) = .ok body

lemma told_of_text {e : PyError} {text : PyStr} (htext : e.text = .ok text) (h : text.Encodable) (debug : Bool) :
    host.Told debug e := by
  intro _
  refine ⟨lit (e.cls.name ++ ": ") ++ text, ?_, ?_⟩
  · rw [PyError.described, htext]
    rfl
  · apply host.serverError_ok
    intro text' htext'
    obtain rfl := Option.some.inj htext'
    exact (encodable_lit _).append h

lemma told_valueError (text : String) (debug : Bool) : host.Told debug (.valueError text) :=
  host.told_of_text rfl (encodable_lit text) debug

lemma told_refused (refusal : Refusal α) (debug : Bool) : host.Told debug (host.refused refusal) := by
  obtain ⟨text, htext, hencodable⟩ := host.refused_text refusal
  exact host.told_of_text htext hencodable debug

lemma told_iff {debug : Bool} {e : PyError} :
    host.Told debug e ↔ ∃ detail body, e.detail debug = .ok detail ∧ host.serverError detail = .ok body := by
  cases debug with
  | false =>
    have hnone : ∃ body, host.serverError none = .ok body := host.serverError_ok (by simp)
    obtain ⟨body, hbody⟩ := hnone
    exact ⟨fun _ => ⟨none, body, rfl, hbody⟩, fun _ h => by simp at h⟩
  | true =>
    constructor
    · intro h
      obtain ⟨text, htext, body, hbody⟩ := h rfl
      refine ⟨some text, body, ?_, hbody⟩
      simp [PyError.detail, htext, Except.map]
    · rintro ⟨detail, body, hdetail, hbody⟩ _
      obtain ⟨text, htext, rfl⟩ := map_eq_ok.mp (by simpa [PyError.detail] using hdetail)
      exact ⟨text, htext, body, hbody⟩

/-- The `500` with a body. -/
def serverErrorOf (body : List UInt8) : HandlerReply := ⟨500, "application/problem+json", [], .full body⟩

/-- The replacement is sent, if the exception can be told. -/
lemma unsendable_of_told {debug : Bool} {e : PyError} (h : host.Told debug e) (hs : s.taken = false) :
    ∃ body, (host.unsendable debug e).run s = .ok () (s.hand (serverErrorOf body)) := by
  obtain ⟨detail, body, hdetail, hbody⟩ := host.told_iff.mp h
  refine ⟨body, ?_⟩
  have hands := host.sendServerError_hands detail hs
  rw [host.serverErrorReply_eq, hbody] at hands
  unfold unsendable
  rw [hdetail, run_bind_ok (run_lift_ok detail s), run_tryCatch_ok hands.ok]
  rfl

/-- If it cannot, then nothing is sent. -/
lemma unsendable_of_not_told {debug : Bool} {e : PyError} (h : ¬ host.Told debug e) (hs : s.taken = false) :
    (host.unsendable debug e).run s = .ok () s ∨ ∃ e', (host.unsendable debug e).run s = .error e' s := by
  unfold unsendable
  cases hdetail : e.detail debug with
  | error e' => exact .inr ⟨e', run_bind_error (run_lift_error e' s) _⟩
  | ok detail =>
    left
    have hands := host.sendServerError_hands detail hs
    rw [host.serverErrorReply_eq] at hands
    cases hbody : host.serverError detail with
    | ok body => exact absurd (host.told_iff.mpr ⟨detail, body, hdetail, hbody⟩) h
    | error e' =>
      rw [hbody] at hands
      rw [run_bind_ok (run_lift_ok detail s), run_tryCatch_error hands.error]
      rfl

lemma sendServerError_taken (detail : Option PyStr) (hs : s.taken = true) :
    ∃ e, (host.sendServerError detail).run s = .error e s := by
  unfold sendServerError
  cases host.serverError detail with
  | error e => exact ⟨e, run_bind_error (run_lift_error e s) _⟩
  | ok body =>
    rw [run_bind_ok (run_lift_ok body s)]
    exact host.send_taken _ hs

/-- After a reply nothing is sent. -/
lemma unsendable_taken (debug : Bool) (e : PyError) (hs : s.taken = true) :
    (host.unsendable debug e).run s = (lift ((e.detail debug).map fun _ => ())).run s := by
  unfold unsendable
  cases e.detail debug with
  | error e' => exact run_bind_error (run_lift_error e' s) _
  | ok detail =>
    obtain ⟨e', he'⟩ := host.sendServerError_taken detail hs
    rw [run_bind_ok (run_lift_ok detail s), run_tryCatch_error he']
    rfl

/-! ## After the response -/

lemma runAfter_cons_ok {work : AfterWork} (h : work.Loggable) (rest : List AfterWork) (s : Responder) :
    (runAfter (work :: rest)).run s = (runAfter rest).run s := by
  conv_lhs => rw [runAfter]
  apply run_bind_ok
  cases hended : work.ended with
  | ok _ => exact run_tryCatch_ok (run_lift_ok () s) _
  | error e =>
    obtain ⟨name, hname⟩ := h e hended
    rw [run_tryCatch_error (run_lift_error e s), hname]
    rfl

lemma runAfter_cons_error {work : AfterWork} (h : ¬ work.Loggable) (rest : List AfterWork) (s : Responder) :
    ∃ e, (runAfter (work :: rest)).run s = .error e s := by
  obtain ⟨e, hended, hname⟩ : ∃ e, work.ended = .error e ∧ ∀ name, work.name ≠ .ok name := by
    simpa [AfterWork.Loggable] using h
  cases hlog : work.name with
  | ok name => exact absurd hlog (hname name)
  | error e' =>
    refine ⟨e', ?_⟩
    unfold runAfter
    apply run_bind_error
    rw [hended, run_tryCatch_error (run_lift_error e s), hlog]
    rfl

lemma runAfter_ok {after : List AfterWork} (h : ∀ work ∈ after, work.Loggable) (s : Responder) :
    (runAfter after).run s = .ok () s := by
  induction after with
  | nil => rfl
  | cons work rest ih =>
    obtain ⟨hwork, hrest⟩ := List.forall_mem_cons.mp h
    rw [runAfter_cons_ok hwork]
    exact ih hrest

lemma runAfter_error {after : List AfterWork} (h : ¬ ∀ work ∈ after, work.Loggable) (s : Responder) :
    ∃ e, (runAfter after).run s = .error e s := by
  induction after with
  | nil => simp at h
  | cons work rest ih =>
    by_cases hwork : work.Loggable
    · rw [runAfter_cons_ok hwork]
      apply ih
      intro hrest
      exact h (List.forall_mem_cons.mpr ⟨hwork, hrest⟩)
    · exact runAfter_cons_error hwork rest s
end PyHost

end Oxbrook
