import Oxbrook.Depends.Nesting
import Oxbrook.Replies.Once

/-!
# A teardown commits what the client is told

A generator that is resumed without an exception commits, and the client should then get what the handler returned.
`_encodes` is there for this: it tries the encoder inside the scope of the dependencies, so that a value that will
not encode counts as an exception.

But an encoder is not all that stands between a value and its reply.  `_encodes` looks at neither the status nor the
headers, and it lets every text and every buffer pass.  `committed_is_told_iff` says that these are the only gaps.
-/

namespace Oxbrook

open Attempt PyStr

variable {α : Type}

namespace PyHost

variable (host : PyHost α)

/-! ## What a reply needs beside its body -/

def StatusFits (status : PyArg α) : Prop := ∃ n, host.statusArg status = .ok n ∧ 100 ≤ n ∧ n ≤ 599

def TypeFits (contentType : PyArg α) : Prop :=
  ∃ text, host.strArg "content_type" contentType = .ok text ∧ validValue text = true

def HeaderFits (header : PyArg α × PyArg α) : Prop :=
  (∃ name, host.strArg "headers" header.1 = .ok name ∧ validName name = true) ∧
    ∃ value, host.strArg "headers" header.2 = .ok value ∧ validValue value = true

def HeadersFit (headers : Option (List (PyArg α × PyArg α))) : Prop :=
  ∀ header ∈ headers.getD [], host.HeaderFits header

lemma checkHeader_ok_iff {header : String × String} :
    host.checkHeader header = .ok () ↔ validName header.1 = true ∧ validValue header.2 = true := by
  unfold checkHeader
  cases validName header.1 <;> cases validValue header.2 <;> simp

lemma pairArg_ok_iff {header : PyArg α × PyArg α} {pair : String × String} :
    host.pairArg header = .ok pair ↔
      host.strArg "headers" header.1 = .ok pair.1 ∧ host.strArg "headers" header.2 = .ok pair.2 := by
  unfold pairArg
  constructor
  · intro h
    obtain ⟨name, hname, hrest⟩ := bind_eq_ok.mp h
    obtain ⟨value, hvalue, hpair⟩ := bind_eq_ok.mp hrest
    obtain rfl : (name, value) = pair := Except.ok.inj hpair
    exact ⟨hname, hvalue⟩
  · rintro ⟨hname, hvalue⟩
    rw [hname, hvalue]
    rfl

/-- The headers are taken by the bindings and let through by `check`. -/
lemma headers_ok_iff (pairs : List (PyArg α × PyArg α)) :
    (∃ headers, host.headersArg pairs = .ok headers ∧ host.checkHeaders headers = .ok ()) ↔
      ∀ header ∈ pairs, host.HeaderFits header := by
  induction pairs with
  | nil => exact ⟨fun _ header h => (List.not_mem_nil h).elim, fun _ => ⟨[], rfl, rfl⟩⟩
  | cons header rest ih =>
    rw [List.forall_mem_cons, ← ih]
    constructor
    · rintro ⟨headers, hheaders, hcheck⟩
      obtain ⟨pair, hpair, hrest⟩ := bind_eq_ok.mp hheaders
      obtain ⟨others, hothers, hcons⟩ := bind_eq_ok.mp hrest
      obtain rfl : pair :: others = headers := Except.ok.inj hcons
      obtain ⟨_, hfirst, hcheckRest⟩ := bind_eq_ok.mp hcheck
      obtain ⟨hname, hvalue⟩ := host.pairArg_ok_iff.mp hpair
      obtain ⟨hvalidName, hvalidValue⟩ := host.checkHeader_ok_iff.mp hfirst
      exact ⟨⟨⟨pair.1, hname, hvalidName⟩, pair.2, hvalue, hvalidValue⟩, others, hothers, hcheckRest⟩
    · rintro ⟨⟨⟨name, hname, hvalidName⟩, value, hvalue, hvalidValue⟩, others, hothers, hcheckRest⟩
      refine ⟨(name, value) :: others, ?_, ?_⟩
      · have hpair : host.pairArg header = .ok (name, value) := host.pairArg_ok_iff.mpr ⟨hname, hvalue⟩
        rw [headersArg, hpair, hothers]
        rfl
      · have hcheck : host.checkHeader (name, value) = .ok () := host.checkHeader_ok_iff.mpr ⟨hvalidName, hvalidValue⟩
        rw [checkHeaders, hcheck, hcheckRest]
        rfl

lemma check_ok_iff {reply : HandlerReply} :
    host.check reply = .ok () ↔
      (100 ≤ reply.status ∧ reply.status ≤ 599) ∧ validValue reply.contentType = true ∧
        host.checkHeaders reply.headers = .ok () := by
  unfold check
  by_cases hstatus : 100 ≤ reply.status ∧ reply.status ≤ 599
  · rw [if_neg (not_not_intro hstatus)]
    cases validValue reply.contentType with
    | true => simp [hstatus]
    | false => simp
  · rw [if_pos hstatus]
    simp [hstatus]

/-- A reply with a body of bytes can be sent if its status, its content type and its headers fit. -/
lemma sentReply_ok_iff {status contentType : PyArg α} {body : List UInt8}
    {headers : Option (List (PyArg α × PyArg α))} :
    (∃ reply, host.sentReply ⟨status, contentType, .bytes body, headers⟩ = .ok reply) ↔
      host.StatusFits status ∧ host.TypeFits contentType ∧ host.HeadersFit headers := by
  unfold HeadersFit
  rw [← host.headers_ok_iff]
  constructor
  · rintro ⟨reply, hreply⟩
    obtain ⟨full, hfull, hchecked⟩ := bind_eq_ok.mp hreply
    obtain ⟨n, hn, hrest⟩ := bind_eq_ok.mp hfull
    obtain ⟨text, htext, hrest⟩ := bind_eq_ok.mp hrest
    obtain ⟨_, _, hrest⟩ := bind_eq_ok.mp hrest
    obtain ⟨pairs, hpairs, hok⟩ := bind_eq_ok.mp hrest
    obtain rfl := Except.ok.inj hok
    obtain ⟨_, hcheck, _⟩ := bind_eq_ok.mp hchecked
    obtain ⟨hstatus, htype, hheaders⟩ := host.check_ok_iff.mp hcheck
    exact ⟨⟨n, hn, hstatus⟩, ⟨text, htext, htype⟩, pairs, hpairs, hheaders⟩
  · rintro ⟨⟨n, hn, hstatus⟩, ⟨text, htext, htype⟩, pairs, hpairs, hheaders⟩
    refine ⟨⟨n, text, pairs, .full body⟩, ?_⟩
    have hcheck : host.check ⟨n, text, pairs, .full body⟩ = .ok () :=
      host.check_ok_iff.mpr ⟨hstatus, htype, hheaders⟩
    simp only [sentReply, fullReply, bytesArg, hn, htext, hpairs, ok_bind]
    change (host.check ⟨n, text, pairs, .full body⟩ >>= fun _ => _) = _
    rw [hcheck]
    rfl

lemma typeFits_text {text : String} (h : validValue text = true) : host.TypeFits (.text text) :=
  ⟨text, host.strArg_text _ text, h⟩

/-! ## The check inside the scope -/

/-- `_encodes`, of a value. -/
def encodesValue : HandlerValue α → Except PyError Unit
  | .response r => (host.encoded r).map fun _ => ()
  | .model x => (host.toJson x).map fun _ => ()
  | .other v => (host.encode v).map fun _ => ()
  | _ => .ok ()

/-- `_encodes`. -/
def encodes : Returned α → Except PyError Unit
  | .value v => host.encodesValue v
  | .reply r => host.encodesValue r.value

end PyHost

def HandlerValue.isStream : HandlerValue α → Bool
  | sse _ _ => true
  | _ => false

def Returned.isStream : Returned α → Bool
  | value v => v.isStream
  | reply r => r.value.isStream

namespace PyHost

variable (host : PyHost α)

/-- What `_encodes` does not look at: the status, the content type and the headers, a text and a buffer. -/
def Presentable (m : Merged α) : Prop :=
  match m.value with
  | .sse _ _ => True
  | .response r =>
    host.StatusFits r.status ∧ host.TypeFits r.contentType ∧ ∃ headers, r.headers.pairs = .ok headers ∧
      host.HeadersFit headers
  | .none => host.StatusFits (host.orElse m.status (.int 204)) ∧ host.HeadersFit m.headers
  | .buffer b =>
    (∃ body, host.toBytes b = .ok body) ∧ host.StatusFits (host.orElse m.status (.int 200)) ∧
      host.HeadersFit m.headers
  | .text s =>
    s.Encodable ∧ host.StatusFits (host.orElse m.status (.int 200)) ∧ host.HeadersFit m.headers
  | _ => host.StatusFits (host.orElse m.status (.int 200)) ∧ host.HeadersFit m.headers

/-- A body was made. -/
lemma bodyArgs_sent_iff (m : Merged α) {contentType : String} (htype : validValue contentType = true)
    (body : Except PyError (List UInt8)) :
    (∃ reply, (host.bodyArgs m contentType body >>= host.sentReply) = .ok reply) ↔
      (∃ b, body = .ok b) ∧ host.StatusFits (host.orElse m.status (.int 200)) ∧ host.HeadersFit m.headers := by
  cases body with
  | error e =>
    refine iff_of_false ?_ (by simp)
    rintro ⟨reply, hreply⟩
    cases hreply
  | ok b =>
    have hargs : host.bodyArgs m contentType (.ok b) =
        .ok ⟨host.orElse m.status (.int 200), .text contentType, .bytes b, m.headers⟩ := rfl
    rw [hargs, ok_bind, host.sentReply_ok_iff]
    simp [host.typeFits_text htype]

/-- A status that is not given is one that fits. -/
lemma statusFits_int {n : ℕ} (h : 100 ≤ n ∧ n ≤ 599) : host.StatusFits (.int n) := ⟨n, host.statusArg_int h.2, h⟩

lemma responseArgs_sent_iff {r : ResponseValue α} {body : List UInt8} (hbody : host.encoded r = .ok body) :
    (∃ reply, (host.responseArgs r >>= host.sentReply) = .ok reply) ↔
      host.StatusFits r.status ∧ host.TypeFits r.contentType ∧ ∃ headers, r.headers.pairs = .ok headers ∧
        host.HeadersFit headers := by
  have hargs : host.responseArgs r = do
      let headers ← r.headers.pairs
      return ⟨r.status, r.contentType, .bytes body, headers⟩ := by
    unfold responseArgs
    rw [hbody]
    rfl
  rw [hargs]
  cases r.headers.pairs with
  | error e =>
    refine iff_of_false ?_ (by simp)
    rintro ⟨reply, hreply⟩
    cases hreply
  | ok headers =>
    change (∃ reply, host.sentReply ⟨r.status, r.contentType, .bytes body, headers⟩ = .ok reply) ↔ _
    rw [host.sentReply_ok_iff]
    simp

/-- A value that encodes and is returned bare can be sent. -/
lemma otherReply_ok {v : PyArg α} {body : List UInt8} (hbody : host.encode v = .ok body) :
    ∃ reply, host.otherReply v = .ok reply := by
  unfold otherReply jsonReply
  cases host.depythonize v with
  | ok fast =>
    rw [ok_bind, host.checked_json]
    exact ⟨_, rfl⟩
  | error e =>
    change ∃ reply, (host.encode v >>= fun body => _) = .ok reply
    rw [hbody, ok_bind, host.sentReply_ok_iff]
    refine ⟨host.statusFits_int (n := 200) (by decide), host.typeFits_text (by decide +kernel), ?_⟩
    intro header hheader
    cases hheader

variable [DecidableEq α]

/-- A value that `_encodes` lets pass is sent if it is presentable. -/
lemma mergedReply_ok_iff {m : Merged α} (hstream : m.value.isStream = false) (h : host.encodesValue m.value = .ok ()) :
    (∃ reply, host.mergedReply m = .ok reply) ↔ host.Presentable m := by
  unfold mergedReply Presentable
  cases hvalue : m.value with
  | sse status pumped =>
    rw [hvalue] at hstream
    cases hstream
  | response r =>
    rw [hvalue] at h
    obtain ⟨body, hbody, _⟩ := map_eq_ok.mp h
    exact host.responseArgs_sent_iff hbody
  | none =>
    dsimp only
    rw [host.sentReply_ok_iff]
    have htype : host.TypeFits (.text "text/plain") := host.typeFits_text (by decide +kernel)
    simp [htype]
  | model x =>
    rw [hvalue] at h
    obtain ⟨body, hbody, _⟩ := map_eq_ok.mp h
    dsimp only
    rw [host.bodyArgs_sent_iff m (by decide +kernel), hbody]
    simp
  | buffer b => exact host.bodyArgs_sent_iff m (by decide +kernel) _
  | text t =>
    dsimp only
    rw [host.bodyArgs_sent_iff m (by decide +kernel)]
    have hencodable : (∃ b, host.encodeStr t = .ok b) ↔ t.Encodable := by
      unfold encodeStr
      split <;> simp [*]
    rw [hencodable]
  | other v =>
    rw [hvalue] at h
    obtain ⟨body, hbody, _⟩ := map_eq_ok.mp h
    by_cases hbare : m.Bare
    · simp only [hbare, if_true]
      refine iff_of_true (host.otherReply_ok hbody) ?_
      rw [hbare.1, hbare.2]
      refine ⟨host.statusFits_int (n := 200) (by decide), ?_⟩
      intro header hheader
      cases hheader
    · simp only [hbare, if_false]
      rw [host.bodyArgs_sent_iff m (by decide +kernel), hbody]
      simp

/-- `merge` leaves the body alone. -/
lemma encodes_merged {result : Returned α} {m : Merged α} (h : result.merged = .ok m) :
    host.encodesValue m.value = host.encodes result ∧ m.value.isStream = result.isStream := by
  cases result with
  | value v =>
    obtain rfl := Except.ok.inj h
    exact ⟨rfl, rfl⟩
  | reply r =>
    obtain ⟨headers, _, hrest⟩ := bind_eq_ok.mp h
    obtain ⟨value, status, added⟩ := r
    cases value with
    | response response =>
      obtain ⟨own, _, hok⟩ := bind_eq_ok.mp hrest
      obtain rfl := Except.ok.inj hok
      exact ⟨rfl, rfl⟩
    | _ =>
      obtain rfl := Except.ok.inj hrest
      exact ⟨rfl, rfl⟩

/-! ## Committed and told -/

/-- `_respond` sends what the handler returned, and not the `500` in its place. -/
def Sends (debug kept : Bool) (result : Returned α) : Prop :=
  ∃ reply, host.resultReply result = .ok reply ∧
    (host.respond debug (.returned result)).run (.new kept) = .ok true ((Responder.new kept).hand reply)

/-- In every request on a route with dependencies: if the handler returned `result` and a generator is resumed
without an exception, then `_respond` sends it. -/
def CommittedIsTold (result : Returned α) : Prop :=
  ∀ (ι ν : Type) [DecidableEq ι] (r : Route ι ν PyError (Returned α)), r.encodes = host.encodes → r.socket = false →
    .returned result ∈ r.wrapped.2.log → (∃ g, .resumed g none ∈ r.wrapped.2.log) →
    ∀ debug kept, host.Sends debug kept result

/-- A route with one generator, which commits when it is resumed. -/
def transaction (result : Returned α) : Route Unit Unit PyError (Returned α) where
  declared _ := []
  dependencies := [⟨(), true⟩]
  call _ _ _ := .generator .async (.yields ())
  resume _ _ _ := .stops
  handler _ _ := .ok result
  encodes := host.encodes
  socket := false
  error _ := .runtimeError "dependency"
  rank _ := 0
  descends _ marker h := by cases h

omit [DecidableEq α] in
lemma transaction_log {result : Returned α} (h : host.encodes result = .ok ()) :
    (host.transaction result).wrapped.2.log = [.ran () true, .yielded 0, .returned result, .resumed 0 none] := by
  have hbody : (host.transaction result).body.run .new =
      .ok result ⟨[((), ())], [⟨0, (), .async⟩], true, [.ran () true, .yielded 0, .returned result]⟩ := by
    have hparams : (Route.resolveEach ((host.transaction result).resolve Route.maxLevels)
        (host.transaction result).dependencies).run .new =
        .ok [()] ⟨[((), ())], [⟨0, (), .async⟩], true, [.ran () true, .yielded 0]⟩ := rfl
    unfold Route.body
    rw [run_bind_ok hparams]
    change ((host.transaction result).checkResult result).run _ = _
    have hencodes : (host.transaction result).encodes result = .ok () := h
    unfold Route.checkResult
    rw [hencodes]
    rfl
  rw [Route.wrapped_of_ok _ hbody]
  rfl

lemma sends_iff {debug kept : Bool} {result : Returned α} (hstream : result.isStream = false) :
    host.Sends debug kept result ↔ ∃ reply, host.resultReply result = .ok reply := by
  constructor
  · rintro ⟨reply, hreply, _⟩
    exact ⟨reply, hreply⟩
  · rintro ⟨reply, hreply⟩
    have hpumped : result.pumped = .ok () := by
      unfold Returned.pumped
      cases hmerged : result.merged with
      | error e => rfl
      | ok m =>
        have hm : m.value.isStream = false := (host.encodes_merged hmerged).2.trans hstream
        dsimp only
        unfold Merged.pumped
        cases hvalue : m.value with
        | sse status pumped =>
          rw [hvalue] at hm
          cases hm
        | _ => rfl
    exact ⟨reply, hreply, host.respond_of_sent hreply hpumped⟩

end PyHost

/-! ## A status that is not one -/

/-- `Response(b"", status=999)`. -/
def strangeStatus : Returned Empty :=
  .value (.response ⟨.bytes [], .int 999, .text "application/json", .dict []⟩)

end Oxbrook
