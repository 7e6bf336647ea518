import Oxbrook.Replies.Refusals

/-!
# Every request is answered once

`answered_once_iff` says when all is well, by the outcome of a handler.  An argument that the bindings do not take is
a `TypeError`, and the clause for `HTTPError` catches a `ValueError` only, so that a header whose value is a number
leaves the request without an answer; and with `debug` the text of an exception is part of the answer, which then
depends on that text.  `never_answered_twice` needs no condition.
-/

namespace Oxbrook

open Attempt PyStr

variable {α : Type}

namespace PyHost

variable (host : PyHost α) [DecidableEq α]

/-! ## Answered once -/

/-- There is one reply: the one that the outcome calls for, or a `500` where that cannot be sent. -/
def Answers (debug : Bool) (outcome : HandlerOutcome α) (replies : List HandlerReply) : Prop :=
  ∃ reply, replies = [reply] ∧
    match host.wanted debug outcome with
    | .ok r => reply = r
    | .error _ => reply.status = 500

/-- Nothing escapes `run_handler`, and it answers. -/
def AnsweredOnce (debug kept : Bool) (after : List AfterWork) (outcome : HandlerOutcome α) : Prop :=
  ∃ s, (host.runHandler debug after outcome).run (.new kept) = .ok () s ∧ host.Answers debug outcome s.replies
variable {debug kept answered : Bool} {after : List AfterWork} {outcome : HandlerOutcome α} {s s' : Responder}
  {e : PyError}

lemma runHandler_of_error (h : (host.respond debug outcome).run s = .error e s') :
    (host.runHandler debug after outcome).run s = .error e { s' with released := true } := by
  unfold runHandler
  apply run_bind_error
  rw [run_tryCatch_error h]
  rfl

lemma finishOrKeep_kept (h : s.kept = true) : Responder.finishOrKeep.run s = .ok true s := by
  simp [Responder.finishOrKeep, h]

lemma finishOrKeep_free (h : s.kept = false) :
    Responder.finishOrKeep.run s = .ok false { s with released := true } := by
  unfold Responder.finishOrKeep
  rw [EStateM.run_bind, EStateM.run_get]
  dsimp only
  rw [if_neg (by simp [h])]
  rfl

/-- The work for after the response is waited for, or there is none. -/
lemma runHandler_ok (h : (host.respond debug outcome).run s = .ok answered s')
    (hafter : s'.kept = true → answered = true → ∀ work ∈ after, work.Loggable) :
    (host.runHandler debug after outcome).run s = .ok () { s' with released := true } := by
  unfold runHandler
  rw [run_bind_ok (run_tryCatch_ok h _)]
  cases hkept : s'.kept with
  | false =>
    rw [run_bind_ok (finishOrKeep_free hkept)]
    simp [hkept]
  | true =>
    have hwork : (if answered then runAfter after else pure () : Attempted Unit).run s' = .ok () s' := by
      cases answered with
      | false => rfl
      | true => exact runAfter_ok (hafter hkept rfl) s'
    rw [run_bind_ok (finishOrKeep_kept hkept), if_pos rfl, run_bind_ok (run_tryCatch_ok hwork _)]
    simp [Responder.finish, hkept]

/-- Work that raises and cannot be named lets its exception escape. -/
lemma runHandler_unlogged (h : (host.respond debug outcome).run s = .ok true s') (hkept : s'.kept = true)
    (hafter : ¬ ∀ work ∈ after, work.Loggable) :
    ∃ e, (host.runHandler debug after outcome).run s = .error e { s' with released := true } := by
  obtain ⟨e, he⟩ := runAfter_error hafter s'
  refine ⟨e, ?_⟩
  unfold runHandler
  rw [run_bind_ok (run_tryCatch_ok h _), run_bind_ok (finishOrKeep_kept hkept), if_pos rfl, if_pos rfl]
  apply run_bind_error
  rw [run_tryCatch_error he]
  rfl

lemma not_answeredOnce_of_error (h : (host.respond debug outcome).run (.new kept) = .error e s') :
    ¬ host.AnsweredOnce debug kept after outcome := by
  rintro ⟨left, hrun, _⟩
  rw [host.runHandler_of_error h] at hrun
  cases hrun

lemma answeredOnce_iff_of_ok (h : (host.respond debug outcome).run (.new kept) = .ok answered s') :
    host.AnsweredOnce debug kept after outcome ↔
      host.Answers debug outcome s'.replies ∧
        (s'.kept = true → answered = true → ∀ work ∈ after, work.Loggable) := by
  by_cases hafter : s'.kept = true → answered = true → ∀ work ∈ after, work.Loggable
  · have hrun := host.runHandler_ok h hafter
    constructor
    · rintro ⟨left, hleft, hanswers⟩
      rw [hrun] at hleft
      cases hleft
      exact ⟨hanswers, hafter⟩
    · rintro ⟨hanswers, _⟩
      exact ⟨_, hrun, hanswers⟩
  · obtain ⟨hkept, rfl, hunlogged⟩ : s'.kept = true ∧ answered = true ∧ ¬ ∀ work ∈ after, work.Loggable := by
      simpa only [Classical.not_imp] using hafter
    obtain ⟨e, hrun⟩ := host.runHandler_unlogged h hkept hunlogged
    constructor
    · rintro ⟨left', hleft, _⟩
      rw [hrun] at hleft
      cases hleft
    · rintro ⟨_, hafter'⟩
      exact absurd hafter' hafter

lemma answers_of_wanted {reply : HandlerReply} (hwanted : host.wanted debug outcome = .ok reply) :
    host.Answers debug outcome (((Responder.new kept).hand reply).replies) := by
  refine ⟨reply, rfl, ?_⟩
  rw [hwanted]

/-- The answer stands or falls with the reply that the outcome calls for. -/
lemma answeredOnce_of_hand {reply : HandlerReply} (hwanted : host.wanted debug outcome = .ok reply)
    (h : (host.respond debug outcome).run (.new kept) = .ok false ((Responder.new kept).hand reply)) :
    host.AnsweredOnce debug kept after outcome := by
  apply (host.answeredOnce_iff_of_ok h).mpr
  exact ⟨host.answers_of_wanted hwanted, fun _ hfalse => Bool.noConfusion hfalse⟩

/-- A reply that cannot be sent is replaced, and the replacement has to tell why. -/
lemma answeredOnce_iff_told {cause : PyError} (hwanted : host.wanted debug outcome = .error cause)
    (h : (host.respond debug outcome).run (.new kept) =
      (do host.unsendable debug e; return false : Attempted Bool).run (.new kept)) :
    host.AnsweredOnce debug kept after outcome ↔ host.Told debug e := by
  by_cases htold : host.Told debug e
  · obtain ⟨body, hbody⟩ := host.unsendable_of_told htold (s := .new kept) rfl
    rw [run_bind_ok hbody] at h
    refine iff_of_true ?_ htold
    apply (host.answeredOnce_iff_of_ok h).mpr
    refine ⟨⟨serverErrorOf body, rfl, ?_⟩, fun _ hfalse => Bool.noConfusion hfalse⟩
    rw [hwanted]
    rfl
  · refine iff_of_false ?_ htold
    obtain hsilent | ⟨e', he'⟩ := host.unsendable_of_not_told htold (s := .new kept) rfl
    · rw [run_bind_ok hsilent] at h
      intro hanswered
      obtain ⟨⟨reply, hreply, _⟩, _⟩ := (host.answeredOnce_iff_of_ok h).mp hanswered
      simp [Responder.new] at hreply
    · rw [run_bind_error he'] at h
      exact host.not_answeredOnce_of_error h

/-! ## The outcomes -/

lemma answeredOnce_invalid_iff (body : PyArg α) :
    host.AnsweredOnce debug kept after (.invalid body) ↔ ∃ b, body = .bytes b := by
  have hwanted := host.sentReply_problem 422 (by decide) body none
  rw [Nat.cast_ofNat] at hwanted
  have hands := host.send_hands ⟨.int 422, problemType, body, none⟩ (s := .new kept) rfl
  cases hreply : host.sentReply ⟨.int 422, problemType, body, none⟩ with
  | ok reply =>
    rw [hreply] at hands
    refine iff_of_true (host.answeredOnce_of_hand hreply (run_bind_ok hands.ok _)) ?_
    rw [hwanted] at hreply
    obtain ⟨b, hb, _⟩ := bind_eq_ok.mp hreply
    cases body with
    | bytes b => exact ⟨b, rfl⟩
    | _ => cases hb
  | error e =>
    rw [hreply] at hands
    refine iff_of_false (host.not_answeredOnce_of_error (run_bind_error hands.error _)) ?_
    rintro ⟨b, rfl⟩
    rw [hwanted] at hreply
    cases hreply

lemma answeredOnce_raised_iff : host.AnsweredOnce debug kept after (.raised e) ↔ host.Told debug e := by
  cases hdetail : e.detail debug with
  | error e' =>
    have hrun : (host.respond debug (.raised e)).run (.new kept) = .error e' (.new kept) := by
      rw [respond, hdetail]
      exact run_bind_error (run_lift_error e' _) _
    refine iff_of_false (host.not_answeredOnce_of_error hrun) ?_
    intro htold
    obtain ⟨detail, body, hok, _⟩ := host.told_iff.mp htold
    rw [hdetail] at hok
    cases hok
  | ok detail =>
    have hands := host.sendServerError_hands detail (s := .new kept) rfl
    have hwanted : host.wanted debug (.raised e) = host.serverErrorReply detail := by
      rw [wanted, hdetail]
      rfl
    have hrun : (host.respond debug (.raised e)).run (.new kept) =
        (do host.sendServerError detail; return false : Attempted Bool).run (.new kept) := by
      rw [respond, hdetail]
      exact run_bind_ok (run_lift_ok detail _) _
    rw [host.serverErrorReply_eq] at hands hwanted
    cases hbody : host.serverError detail with
    | ok body =>
      rw [hbody] at hands hwanted
      rw [run_bind_ok hands.ok] at hrun
      exact iff_of_true (host.answeredOnce_of_hand hwanted hrun) (host.told_iff.mpr ⟨detail, body, hdetail, hbody⟩)
    | error e' =>
      rw [hbody] at hands hwanted
      rw [run_bind_error hands.error] at hrun
      refine iff_of_false (host.not_answeredOnce_of_error hrun) ?_
      intro htold
      obtain ⟨detail', body, hok, hbody'⟩ := host.told_iff.mp htold
      obtain rfl : detail = detail' := Except.ok.inj (hdetail.symm.trans hok)
      rw [hbody] at hbody'
      cases hbody'

lemma answeredOnce_httpError_iff (exc : HttpError α) :
    host.AnsweredOnce debug kept after (.httpError exc) ↔
      ∀ e, host.httpErrorReply exc = .error e → e.isValueError = true ∧ host.Told debug e := by
  have hands := host.sendHttpError_hands exc (s := .new kept) rfl
  cases hreply : host.httpErrorReply exc with
  | ok reply =>
    rw [hreply] at hands
    have hrun : (host.respond debug (.httpError exc)).run (.new kept) = .ok false ((Responder.new kept).hand reply) :=
      run_bind_ok (run_tryCatch_ok hands.ok _) _
    exact iff_of_true (host.answeredOnce_of_hand hreply hrun) (by simp)
  | error e =>
    rw [hreply] at hands
    cases hvalue : e.isValueError with
    | true =>
      have hrun : (host.respond debug (.httpError exc)).run (.new kept) =
          (do host.unsendable debug e; return false : Attempted Bool).run (.new kept) := by
        rw [respond, EStateM.run_bind, EStateM.run_bind, run_tryCatch_error hands.error, if_pos hvalue]
      rw [host.answeredOnce_iff_told (show host.wanted debug (.httpError exc) = .error e from hreply) hrun]
      simp [hvalue]
    | false =>
      have hrun : (host.respond debug (.httpError exc)).run (.new kept) = .error e (.new kept) := by
        apply run_bind_error
        rw [run_tryCatch_error hands.error]
        simp [hvalue]
      exact iff_of_false (host.not_answeredOnce_of_error hrun) (by simp [hvalue])

/-- A stream that fails after its start was answered already, but `_unsendable` makes the text all the same. -/
lemma answeredOnce_pumpError_iff {result : Returned α} {reply : HandlerReply}
    (hreply : host.resultReply result = .ok reply) (hpumped : result.pumped = .error e) :
    host.AnsweredOnce debug kept after (.returned result) ↔
      (debug = true → ∃ text, e.described = .ok text) := by
  have hsend : (host.sendResult result).run (.new kept) = .error e ((Responder.new kept).hand reply) := by
    rw [host.sendResult_run result rfl, hreply, hpumped]
    rfl
  have hrun : (host.respond debug (.returned result)).run (.new kept) =
      (do host.unsendable debug e; return false : Attempted Bool).run ((Responder.new kept).hand reply) := by
    rw [respond, run_tryCatch_error (run_bind_error hsend _)]
  have htaken := host.unsendable_taken debug e (s := (Responder.new kept).hand reply) rfl
  rw [← PyError.detail_ok_iff]
  cases hdetail : e.detail debug with
  | ok detail =>
    rw [hdetail] at htaken
    rw [run_bind_ok htaken] at hrun
    exact iff_of_true (host.answeredOnce_of_hand hreply hrun) ⟨detail, rfl⟩
  | error e' =>
    rw [hdetail] at htaken
    rw [run_bind_error htaken] at hrun
    exact iff_of_false (host.not_answeredOnce_of_error hrun) (by simp)

lemma respond_of_sent {result : Returned α} {reply : HandlerReply} (hreply : host.resultReply result = .ok reply)
    (hpumped : result.pumped = .ok ()) :
    (host.respond debug (.returned result)).run (.new kept) = .ok true ((Responder.new kept).hand reply) := by
  have hsend : (host.sendResult result).run (.new kept) = .ok () ((Responder.new kept).hand reply) := by
    rw [host.sendResult_run result rfl, hreply, hpumped]
    rfl
  rw [respond]
  apply run_tryCatch_ok
  exact run_bind_ok hsend _

lemma answeredOnce_sent_iff {result : Returned α} {reply : HandlerReply} (hreply : host.resultReply result = .ok reply)
    (hpumped : result.pumped = .ok ()) :
    host.AnsweredOnce debug kept after (.returned result) ↔ (kept = true → ∀ work ∈ after, work.Loggable) := by
  have hrun : (host.respond debug (.returned result)).run (.new kept) = .ok true ((Responder.new kept).hand reply) :=
    host.respond_of_sent hreply hpumped
  rw [host.answeredOnce_iff_of_ok hrun]
  have hanswers : host.Answers debug (.returned result) ((Responder.new kept).hand reply).replies :=
    host.answers_of_wanted hreply
  constructor
  · intro h hkept
    exact h.2 hkept rfl
  · intro h
    exact ⟨hanswers, fun hkept _ => h hkept⟩

lemma answeredOnce_unsent_iff {result : Returned α} (hreply : host.resultReply result = .error e) :
    host.AnsweredOnce debug kept after (.returned result) ↔ host.Told debug e := by
  have hsend : (host.sendResult result).run (.new kept) = .error e (.new kept) := by
    rw [host.sendResult_run result rfl, hreply]
    rfl
  have hrun : (host.respond debug (.returned result)).run (.new kept) =
      (do host.unsendable debug e; return false : Attempted Bool).run (.new kept) := by
    rw [respond, run_tryCatch_error (run_bind_error hsend _)]
  exact host.answeredOnce_iff_told (show host.wanted debug (.returned result) = .error e from hreply) hrun
/-! ## When a request is answered once -/

lemma answeredOnce_returned_iff (result : Returned α) :
    host.AnsweredOnce debug kept after (.returned result) ↔
      (∀ e, host.made result = .error e → host.Told debug e) ∧
        ∀ reply, host.resultReply result = .ok reply →
          (∀ e, result.pumped = .error e → debug = true → ∃ text, e.described = .ok text) ∧
            (result.pumped = .ok () → kept = true → ∀ work ∈ after, work.Loggable) := by
  cases hreply : host.resultReply result with
  | error e =>
    rw [host.answeredOnce_unsent_iff hreply]
    constructor
    · intro htold
      refine ⟨?_, by simp⟩
      intro e' hmade
      have hreply' := (host.resultReply_fails result e').1 hmade
      rw [hreply] at hreply'
      exact Except.error.inj hreply' ▸ htold
    · rintro ⟨hmade, _⟩
      exact host.told_of_made hmade hreply
  | ok reply =>
    have hmade : ∀ e, host.made result = .error e → host.Told debug e := by
      intro e he
      have hreply' := (host.resultReply_fails result e).1 he
      rw [hreply] at hreply'
      cases hreply'
    cases hpumped : result.pumped with
    | ok _ =>
      rw [host.answeredOnce_sent_iff hreply hpumped, and_iff_right hmade]
      simp
    | error e =>
      rw [host.answeredOnce_pumpError_iff hreply hpumped, and_iff_right hmade]
      simp

/-- The headers of an `HTTPError` are refused with a `ValueError`, if at all. -/
def TextFirst (exc : HttpError α) : Prop :=
  ∀ x, firstUnwritable ((headerPairs exc.headers).getD []) = some x → x.isStr = true

/-- How an `HTTPError` whose body was encoded can fail. -/
lemma httpErrorReply_of_body {exc : HttpError α} {body : List UInt8} (hbody : host.httpErrorBody exc = .ok body) :
    (∀ e, host.httpErrorReply exc = .error e → e.isValueError = true ∧ host.Told debug e) ↔ TextFirst exc := by
  have hstatus : 100 ≤ exc.status ∧ exc.status ≤ 599 := ⟨by have := exc.isError; omega, exc.isError.2⟩
  have hreply : host.httpErrorReply exc = do
      let pairs ← host.headersArg ((headerPairs exc.headers).getD [])
      host.checkHeaders pairs
      return ⟨exc.status, "application/problem+json", pairs, .full body⟩ := by
    unfold httpErrorReply
    rw [hbody, ok_bind, host.sentReply_problem exc.status hstatus]
    rfl
  rw [hreply]
  unfold TextFirst
  cases hfirst : firstUnwritable ((headerPairs exc.headers).getD []) with
  | none =>
    obtain ⟨pairs, hpairs⟩ := host.headersArg_ok hfirst
    rw [hpairs]
    refine iff_of_true ?_ (by simp)
    intro e he
    change (host.checkHeaders pairs >>= fun _ => _) = _ at he
    obtain hcheck | ⟨_, _, hok⟩ := bind_eq_error.mp he
    · obtain ⟨text, rfl⟩ := host.checkHeaders_error hcheck
      exact ⟨rfl, host.told_valueError text debug⟩
    · cases hok
  | some x =>
    obtain ⟨refusal, hrefusal, hclass⟩ := host.headersArg_unwritable hfirst
    rw [hrefusal]
    have hvalue : (host.refused refusal).isValueError = x.isStr := (host.refused_isValueError refusal).trans hclass
    constructor
    · intro h x' hx'
      obtain rfl := Option.some.inj hx'
      rw [← hvalue]
      exact (h _ rfl).1
    · intro h e he
      obtain rfl : host.refused refusal = e := Except.error.inj he
      exact ⟨hvalue.trans (h x rfl), host.told_refused refusal debug⟩

/-- The condition under which a request is answered once.  A body of the application's own making has to be bytes;
an `HTTPError` may not be refused with anything but a `ValueError`; and what the code of the application raises has
to have a text, if `debug` asks for it. -/
def Answerable (debug kept : Bool) (after : List AfterWork) : HandlerOutcome α → Prop
  | .invalid body => ∃ b, body = .bytes b
  | .httpError exc =>
    (∀ e, host.httpErrorBody exc = .error e → e.isValueError = true ∧ host.Told debug e) ∧
      ∀ body, host.httpErrorBody exc = .ok body → TextFirst exc
  | .raised exc => host.Told debug exc
  | .returned result =>
    (∀ e, host.made result = .error e → host.Told debug e) ∧
      ∀ reply, host.resultReply result = .ok reply →
        (∀ e, result.pumped = .error e → debug = true → ∃ text, e.described = .ok text) ∧
          (result.pumped = .ok () → kept = true → ∀ work ∈ after, work.Loggable)

/-- `run_handler` hands over exactly one reply, and nothing escapes it, exactly for the outcomes that are
answerable. -/
theorem answered_once_iff (debug kept : Bool) (after : List AfterWork) (outcome : HandlerOutcome α) :
    host.AnsweredOnce debug kept after outcome ↔ host.Answerable debug kept after outcome := by
  cases outcome with
  | returned result => exact host.answeredOnce_returned_iff result
  | invalid body => exact host.answeredOnce_invalid_iff body
  | raised e => exact host.answeredOnce_raised_iff
  | httpError exc =>
    rw [host.answeredOnce_httpError_iff]
    cases hbody : host.httpErrorBody exc with
    | error e =>
      have hreply : host.httpErrorReply exc = .error e := by
        unfold httpErrorReply
        rw [hbody]
        rfl
      simp [Answerable, hbody, hreply]
    | ok body =>
      rw [host.httpErrorReply_of_body hbody]
      simp [Answerable, hbody]

/-! ## Never twice -/

/-- As many replies were sent as senders were taken. -/
def Single (s : Responder) : Prop := s.replies.length = if s.taken then 1 else 0

section

omit [DecidableEq α]

lemma keeps_deliver (reply : HandlerReply) : Keeps Single (host.deliver reply) := by
  intro s hs
  cases htaken : s.taken with
  | true =>
    obtain ⟨e, he⟩ := host.deliver_taken reply htaken
    rw [he]
    exact hs
  | false =>
    have hands := host.deliver_hands reply htaken
    cases hchecked : host.checked reply with
    | error e =>
      rw [hchecked] at hands
      rw [hands.error]
      exact hs
    | ok sent =>
      rw [hchecked] at hands
      rw [hands.ok]
      have hnone : s.replies = [] := by simpa [Single, htaken] using hs
      simp [Single, Responder.hand, hnone]

lemma keeps_send (args : SendArgs α) : Keeps Single (host.send args) :=
  Keeps.bind (Keeps.lift _) fun reply => host.keeps_deliver reply

lemma keeps_sendArgs (args : Except PyError (SendArgs α)) : Keeps Single (host.sendArgs args) :=
  Keeps.bind (Keeps.lift _) fun args => host.keeps_send args

end

lemma keeps_sendMerged (m : Merged α) : Keeps Single (host.sendMerged m) := by
  unfold sendMerged
  cases m.value with
  | sse status pumped =>
    refine Keeps.bind (Keeps.lift _) fun reply => ?_
    exact Keeps.bind (host.keeps_deliver reply) fun _ => Keeps.lift _
  | none => exact host.keeps_send _
  | other v =>
    by_cases hbare : m.Bare
    · simp only [hbare, if_true]
      refine Keeps.tryCatch ?_ fun _ => ?_
      · exact Keeps.bind (Keeps.lift _) fun body => host.keeps_deliver _
      · exact Keeps.bind (Keeps.lift _) fun body => host.keeps_send _
    · simp only [hbare, if_false]
      exact host.keeps_sendArgs _
  | _ => exact host.keeps_sendArgs _

lemma keeps_sendServerError (detail : Option PyStr) : Keeps Single (host.sendServerError detail) :=
  Keeps.bind (Keeps.lift _) fun _ => host.keeps_send _

lemma keeps_unsendable (debug : Bool) (e : PyError) : Keeps Single (host.unsendable debug e) :=
  Keeps.bind (Keeps.lift _) fun detail => Keeps.tryCatch (host.keeps_sendServerError detail) fun _ => Keeps.pure ()

lemma keeps_respond (debug : Bool) (outcome : HandlerOutcome α) : Keeps Single (host.respond debug outcome) := by
  cases outcome with
  | invalid body => exact Keeps.bind (host.keeps_send _) fun _ => Keeps.pure false
  | httpError exc =>
    refine Keeps.bind (Keeps.tryCatch ?_ fun refused => ?_) fun _ => Keeps.pure false
    · exact Keeps.bind (Keeps.lift _) fun _ => host.keeps_send _
    · split
      · exact host.keeps_unsendable debug refused
      · exact Keeps.throw refused
  | raised e =>
    refine Keeps.bind (Keeps.lift _) fun detail => ?_
    exact Keeps.bind (host.keeps_sendServerError detail) fun _ => Keeps.pure false
  | returned result =>
    refine Keeps.tryCatch ?_ fun e => ?_
    · refine Keeps.bind ?_ fun _ => Keeps.pure true
      exact Keeps.bind (Keeps.lift _) fun m => host.keeps_sendMerged m
    · exact Keeps.bind (host.keeps_unsendable debug e) fun _ => Keeps.pure false

/-- Whatever becomes of the request, it is not answered twice, and its slot is released. -/
theorem never_answered_twice (debug kept : Bool) (after : List AfterWork) (outcome : HandlerOutcome α) :
    match (host.runHandler debug after outcome).run (.new kept) with
    | .ok _ s => s.replies.length ≤ 1 ∧ s.released = true
    | .error _ s => s.replies.length ≤ 1 ∧ s.released = true := by
  have hnew : Single (.new kept) := rfl
  have hlength : ∀ s, Single s → s.replies.length ≤ 1 := by
    intro s hs
    rw [hs]
    split <;> simp
  cases hrespond : (host.respond debug outcome).run (.new kept) with
  | error e s =>
    rw [host.runHandler_of_error hrespond]
    exact ⟨hlength s ((host.keeps_respond debug outcome).error hnew hrespond), rfl⟩
  | ok answered s =>
    have hs := hlength s ((host.keeps_respond debug outcome).ok hnew hrespond)
    by_cases hafter : s.kept = true → answered = true → ∀ work ∈ after, work.Loggable
    · rw [host.runHandler_ok hrespond hafter]
      exact ⟨hs, rfl⟩
    · obtain ⟨hkept, rfl, hunlogged⟩ : s.kept = true ∧ answered = true ∧ ¬ ∀ work ∈ after, work.Loggable := by
        simpa only [Classical.not_imp] using hafter
      obtain ⟨e, hrun⟩ := host.runHandler_unlogged hrespond hkept hunlogged
      rw [hrun]
      exact ⟨hs, rfl⟩

end PyHost

/-! ## A header that is not a text -/

namespace Json

/-- A text in quotes, without the escapes that the texts below do not need. -/
def quoted (s : PyStr) : List Char := '"' :: s.scalars ++ ['"']

def surrogates : PyError :=
  .plain ⟨"PydanticSerializationError", true⟩ (lit "Error serializing to JSON: surrogates not allowed")

def notJson : PyError := .plain ⟨"PydanticSerializationError", true⟩ (lit "Unable to serialize unknown type")

def value : PyArg Empty → Except PyError (List Char)
  | .none => .ok "null".toList
  | .str s => if s.Encodable then .ok (quoted s) else .error surrogates
  | .int n => .ok (toString n).toList
  | .bytes _ => .error notJson

def member (m : PyArg Empty × PyArg Empty) : Except PyError (List Char) := do
  let key ← value m.1
  let text ← value m.2
  return key ++ ':' :: text

def members : List (PyArg Empty × PyArg Empty) → Except PyError (List (List Char))
  | [] => .ok []
  | m :: rest => do
    let first ← member m
    let others ← members rest
    return first :: others

def bytes (text : List Char) : List UInt8 := (String.ofList text).toUTF8.data.toList

def dict (entries : List (PyArg Empty × PyArg Empty)) : Except PyError (List UInt8) :=
  (members entries).map fun texts => bytes ('\x7b' :: [','].intercalate texts ++ ['\x7d'])

lemma value_plain {x : PyArg Empty} (h : x.Plain) : ∃ text, value x = .ok text := by
  cases x with
  | str s => exact ⟨_, if_pos h⟩
  | int n => exact ⟨_, rfl⟩
  | object x => exact x.elim
  | _ => exact h.elim

lemma dict_plain (entries : List (PyArg Empty × PyArg Empty)) (h : ∀ m ∈ entries, m.1.Plain ∧ m.2.Plain) :
    ∃ body, dict entries = .ok body := by
  suffices hmembers : ∃ texts, members entries = .ok texts by
    obtain ⟨texts, htexts⟩ := hmembers
    rw [dict, htexts]
    exact ⟨_, rfl⟩
  induction entries with
  | nil => exact ⟨[], rfl⟩
  | cons m rest ih =>
    obtain ⟨hm, hrest⟩ := List.forall_mem_cons.mp h
    obtain ⟨key, hkey⟩ := value_plain hm.1
    obtain ⟨text, htext⟩ := value_plain hm.2
    obtain ⟨texts, htexts⟩ := ih hrest
    refine ⟨(key ++ ':' :: text) :: texts, ?_⟩
    rw [members, member, hkey, htext, htexts]
    rfl

end Json

/-- Python without objects of other classes. -/
def plainHost : PyHost Empty where
  truthy := nofun
  index := nofun
  toBytes
    | .bytes b => .ok b
    | _ => .error (.plain ⟨"TypeError", false⟩ (lit "cannot convert object to bytes"))
  toJson := nofun
  encode x := (Json.value x).map Json.bytes
  encodeDict := Json.dict
  depythonize x := (Json.value x).map Json.bytes
  refused
    | .mismatch argument _ =>
      .plain ⟨"TypeError", false⟩ (lit ("argument '" ++ argument ++ "': object is not an instance of the type"))
    | .overflow _ => .plain ⟨"OverflowError", false⟩ (lit "out of range integral type conversion attempted")
    | .surrogates _ => .plain ⟨"UnicodeEncodeError", true⟩ (lit "'utf-8' codec can't encode: surrogates not allowed")
  phrase
    | 429 => some "Too Many Requests"
    | 500 => some "Internal Server Error"
    | _ => none
  debugStr s := "\"" ++ s ++ "\""
  encodeDict_plain := Json.dict_plain
  refused_text := by
    intro refusal
    cases refusal <;> exact ⟨_, rfl, encodable_lit _⟩
  refused_isValueError := by
    intro refusal
    cases refusal <;> rfl

/-- `HTTPError(429, "slow down", headers={"retry-after": 30})`. -/
def slowDown : HttpError Empty where
  status := 429
  detail := some (lit "slow down")
  type := .text "about:blank"
  title := .text "Too Many Requests"
  instanceUri := .none
  extensions := []
  headers := [(.text "retry-after", .one (.int 30))]
  isError := by decide

/-- The number in the header is a `TypeError`, which escapes, and nothing was sent. -/
theorem slow_down_unanswered :
    (∃ e s, (plainHost.runHandler false [] (.httpError slowDown)).run (.new false) = .error e s ∧
      e.cls.name = "TypeError" ∧ s.replies = []) ∧
    ¬ plainHost.AnsweredOnce false false [] (.httpError slowDown) := by
  constructor
  · exact ⟨_, _, rfl, rfl, rfl⟩
  · exact plainHost.not_answeredOnce_of_error rfl

end Oxbrook
