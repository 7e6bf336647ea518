import Oxbrook.Replies.Wanted

/-!
# What can go wrong on the way to a reply

A reply is refused by the bindings, which take a number for a status and texts for headers, or by `check`, and these
exceptions can always be told.  Or it fails in code of the application: an encoder that the application extends, what
stands for its headers or its status.  `FailsWith` keeps the two apart.
-/

namespace Oxbrook

open Attempt PyStr

variable {α : Type}

/-- A name or a value of a header that the bindings take. -/
def PyArg.writable : PyArg α → Bool
  | str s => decide s.Encodable
  | _ => false

/-- The first name or value of a list of headers that the bindings do not take. -/
def firstUnwritable (pairs : List (PyArg α × PyArg α)) : Option (PyArg α) :=
  (pairs.flatMap fun header => [header.1, header.2]).find? fun x => !x.writable

lemma firstUnwritable_cons (header : PyArg α × PyArg α) (rest : List (PyArg α × PyArg α)) :
    firstUnwritable (header :: rest) =
      if header.1.writable then if header.2.writable then firstUnwritable rest else some header.2
      else some header.1 := by
  cases hname : header.1.writable <;> cases hvalue : header.2.writable <;>
    simp [firstUnwritable, List.find?_cons, hname, hvalue]
namespace PyHost

variable (host : PyHost α) {debug : Bool} {e : PyError}

/-- An exception of the bindings, or of `check`. -/
def Ours (e : PyError) : Prop := (∃ refusal, e = host.refused refusal) ∨ ∃ text, e = .valueError text

lemma bytesArg_error {body : PyArg α} (h : host.bytesArg body = .error e) : ∃ refusal, e = host.refused refusal := by
  cases body with
  | bytes b => cases h
  | _ => exact ⟨_, (Except.error.inj h).symm⟩

lemma checkHeader_error {header : String × String} (h : host.checkHeader header = .error e) :
    ∃ text, e = .valueError text := by
  unfold checkHeader at h
  split at h
  · exact ⟨_, (Except.error.inj h).symm⟩
  · split at h
    · exact ⟨_, (Except.error.inj h).symm⟩
    · cases h

lemma checkHeaders_error {headers : Headers} (h : host.checkHeaders headers = .error e) :
    ∃ text, e = .valueError text := by
  induction headers with
  | nil => cases h
  | cons header rest ih =>
    obtain hheader | ⟨_, _, hrest⟩ := bind_eq_error.mp h
    · exact host.checkHeader_error hheader
    · exact ih hrest

lemma check_error {reply : HandlerReply} (h : host.check reply = .error e) : ∃ text, e = .valueError text := by
  unfold check at h
  split at h
  · exact ⟨_, (Except.error.inj h).symm⟩
  · split at h
    · exact ⟨_, (Except.error.inj h).symm⟩
    · exact host.checkHeaders_error h

lemma checked_error {reply : HandlerReply} (h : host.checked reply = .error e) : ∃ text, e = .valueError text := by
  obtain hcheck | ⟨_, _, hok⟩ := bind_eq_error.mp h
  · exact host.check_error hcheck
  · cases hok

/-- The part of a status that is code of the application. -/
def readStatus : PyArg α → Except PyError Unit
  | .object x => (host.index x).map fun _ => ()
  | _ => .ok ()

lemma toU16_error {n : ℤ} (h : host.toU16 n = .error e) : ∃ refusal, e = host.refused refusal := by
  unfold toU16 at h
  split at h
  · cases h
  · exact ⟨_, (Except.error.inj h).symm⟩

lemma statusArg_error {status : PyArg α} (h : host.statusArg status = .error e) :
    host.readStatus status = .error e ∨ ∃ refusal, e = host.refused refusal := by
  cases status with
  | int n => exact .inr (host.toU16_error h)
  | object x =>
    obtain hindex | ⟨n, _, hn⟩ := bind_eq_error.mp h
    · left
      simp [readStatus, hindex, Except.map]
    · exact .inr (host.toU16_error hn)
  | _ => exact .inr ⟨_, (Except.error.inj h).symm⟩

lemma statusArg_of_readStatus {status : PyArg α} (h : host.readStatus status = .error e) :
    host.statusArg status = .error e := by
  cases status with
  | object x =>
    cases hindex : host.index x with
    | ok n => simp [readStatus, hindex, Except.map] at h
    | error e' =>
      obtain rfl : e' = e := by simpa [readStatus, hindex, Except.map] using h
      exact bind_eq_error.mpr (.inl hindex)
  | _ => cases h

/-! ### Headers -/

lemma strArg_writable (argument : String) {x : PyArg α} (h : x.writable = true) :
    ∃ text, host.strArg argument x = .ok text := by
  cases x with
  | str t =>
    have ht : t.Encodable := of_decide_eq_true h
    exact ⟨String.ofList t.scalars, if_pos ht⟩
  | _ => cases h

lemma strArg_unwritable (argument : String) {x : PyArg α} (h : x.writable = false) :
    ∃ refusal, host.strArg argument x = .error (host.refused refusal) ∧ refusal.valueError = x.isStr := by
  cases x with
  | str t =>
    have ht : ¬ t.Encodable := of_decide_eq_false h
    exact ⟨.surrogates t, if_neg ht, rfl⟩
  | _ => exact ⟨.mismatch argument _, rfl, rfl⟩

lemma strArg_error {argument : String} {x : PyArg α} (h : host.strArg argument x = .error e) :
    ∃ refusal, e = host.refused refusal := by
  cases hx : x.writable with
  | true =>
    obtain ⟨text, htext⟩ := host.strArg_writable argument hx
    rw [htext] at h
    cases h
  | false =>
    obtain ⟨refusal, hrefusal, _⟩ := host.strArg_unwritable argument hx
    rw [hrefusal] at h
    exact ⟨refusal, (Except.error.inj h).symm⟩

lemma pairArg_writable {header : PyArg α × PyArg α} (hname : header.1.writable = true)
    (hvalue : header.2.writable = true) : ∃ pair, host.pairArg header = .ok pair := by
  obtain ⟨name, hname⟩ := host.strArg_writable "headers" hname
  obtain ⟨value, hvalue⟩ := host.strArg_writable "headers" hvalue
  refine ⟨(name, value), ?_⟩
  unfold pairArg
  rw [hname, hvalue]
  rfl

lemma headersArg_ok {pairs : List (PyArg α × PyArg α)} (h : firstUnwritable pairs = none) :
    ∃ headers, host.headersArg pairs = .ok headers := by
  induction pairs with
  | nil => exact ⟨[], rfl⟩
  | cons header rest ih =>
    rw [firstUnwritable_cons] at h
    split_ifs at h with hname hvalue
    obtain ⟨pair, hpair⟩ := host.pairArg_writable hname hvalue
    obtain ⟨headers, hheaders⟩ := ih h
    refine ⟨pair :: headers, ?_⟩
    rw [headersArg, hpair, hheaders]
    rfl

/-- The first name or value that is not a text decides how the headers are refused. -/
lemma headersArg_unwritable {pairs : List (PyArg α × PyArg α)} {x : PyArg α} (h : firstUnwritable pairs = some x) :
    ∃ refusal, host.headersArg pairs = .error (host.refused refusal) ∧ refusal.valueError = x.isStr := by
  induction pairs with
  | nil => cases h
  | cons header rest ih =>
    rw [firstUnwritable_cons] at h
    rw [headersArg]
    cases hname : header.1.writable with
    | false =>
      obtain rfl : header.1 = x := by simpa [hname] using h
      obtain ⟨refusal, hrefusal, hclass⟩ := host.strArg_unwritable "headers" hname
      refine ⟨refusal, ?_, hclass⟩
      rw [pairArg, hrefusal]
      rfl
    | true =>
      cases hvalue : header.2.writable with
      | false =>
        obtain rfl : header.2 = x := by simpa [hname, hvalue] using h
        obtain ⟨name, hname⟩ := host.strArg_writable "headers" hname
        obtain ⟨refusal, hrefusal, hclass⟩ := host.strArg_unwritable "headers" hvalue
        refine ⟨refusal, ?_, hclass⟩
        rw [pairArg, hname, hrefusal]
        rfl
      | true =>
        obtain ⟨pair, hpair⟩ := host.pairArg_writable hname hvalue
        obtain ⟨refusal, hrefusal, hclass⟩ := ih (by simpa [hname, hvalue] using h)
        refine ⟨refusal, ?_, hclass⟩
        rw [hpair, hrefusal]
        rfl

lemma headersArg_error {pairs : List (PyArg α × PyArg α)} (h : host.headersArg pairs = .error e) :
    ∃ refusal, e = host.refused refusal := by
  cases hfirst : firstUnwritable pairs with
  | none =>
    obtain ⟨headers, hok⟩ := host.headersArg_ok hfirst
    rw [hok] at h
    cases h
  | some x =>
    obtain ⟨refusal, hrefusal, _⟩ := host.headersArg_unwritable hfirst
    rw [hrefusal] at h
    exact ⟨refusal, (Except.error.inj h).symm⟩

/-! ### Replies -/

/-- The reply fails where the code of the application does, and else with an exception that can be told. -/
def FailsWith (reply : Except PyError HandlerReply) (code : Except PyError Unit) : Prop :=
  ∀ e, (code = .error e → reply = .error e) ∧ (reply = .error e → code = .error e ∨ host.Ours e)

variable {host} in
lemma FailsWith.bind {β : Type} (x : Except PyError β) {reply : β → Except PyError HandlerReply}
    {code : β → Except PyError Unit} (h : ∀ b, host.FailsWith (reply b) (code b)) :
    host.FailsWith (x >>= reply) (x >>= code) := by
  intro e
  cases x with
  | error e' =>
    change (Except.error e' = Except.error e → Except.error e' = Except.error e) ∧
      (Except.error e' = Except.error e → Except.error e' = Except.error e ∨ host.Ours e)
    simp only [Except.error.injEq]
    exact ⟨id, .inl⟩
  | ok b => exact h b e

lemma sentReply_fails (args : SendArgs α) : host.FailsWith (host.sentReply args) (host.readStatus args.status) := by
  intro e
  constructor
  · intro hread
    have hstatus := host.statusArg_of_readStatus hread
    exact bind_eq_error.mpr (.inl (bind_eq_error.mpr (.inl hstatus)))
  · intro h
    obtain hfull | ⟨reply, _, hchecked⟩ := bind_eq_error.mp h
    · obtain hstatus | ⟨status, _, hrest⟩ := bind_eq_error.mp hfull
      · exact (host.statusArg_error hstatus).imp_right .inl
      · obtain htype | ⟨contentType, _, hrest⟩ := bind_eq_error.mp hrest
        · exact .inr (.inl (host.strArg_error htype))
        · obtain hbody | ⟨body, _, hrest⟩ := bind_eq_error.mp hrest
          · exact .inr (.inl (host.bytesArg_error hbody))
          · obtain hheaders | ⟨headers, _, hok⟩ := bind_eq_error.mp hrest
            · exact .inr (.inl (host.headersArg_error hheaders))
            · cases hok
    · exact .inr (.inr (host.checked_error hchecked))

lemma startedStream_fails (status : PyArg α) :
    host.FailsWith (host.startedStream status) (host.readStatus status) := by
  intro e
  constructor
  · intro hread
    have hstatus := host.statusArg_of_readStatus hread
    exact bind_eq_error.mpr (.inl (bind_eq_error.mpr (.inl hstatus)))
  · intro h
    obtain hstream | ⟨reply, _, hchecked⟩ := bind_eq_error.mp h
    · obtain hstatus | ⟨n, _, hok⟩ := bind_eq_error.mp hstream
      · exact (host.statusArg_error hstatus).imp_right .inl
      · cases hok
    · exact .inr (.inr (host.checked_error hchecked))

/-- The code of the application that is run for the arguments of `send`. -/
def argsMade (args : Except PyError (SendArgs α)) : Except PyError Unit := args >>= fun a => host.readStatus a.status

lemma argsMade_fails (args : Except PyError (SendArgs α)) :
    host.FailsWith (args >>= host.sentReply) (host.argsMade args) :=
  FailsWith.bind args fun a => host.sentReply_fails a

/-- One encoder, and the other if it fails. -/
def encodeOther (v : PyArg α) : Except PyError (List UInt8) := (host.depythonize v).tryCatch fun _ => host.encode v

lemma checked_json (body : ReplyBody) :
    host.checked ⟨200, "application/json", [], body⟩ = .ok ⟨200, "application/json", [], body⟩ := by
  have hvalid : validValue "application/json" = true := by decide +kernel
  unfold checked check
  rw [if_neg (by simp), if_neg (by simp [hvalid])]
  rfl

lemma otherReply_fails (v : PyArg α) :
    host.FailsWith (host.otherReply v) ((host.encodeOther v).map fun _ => ()) := by
  unfold otherReply jsonReply encodeOther
  cases host.depythonize v with
  | ok body =>
    intro e
    rw [show (Except.ok body >>= fun b => host.checked ⟨200, "application/json", [], .full b⟩) = _ from
      host.checked_json (.full body)]
    constructor
    · intro h
      cases h
    · intro h
      cases h
  | error e' =>
    change host.FailsWith (host.encode v >>= fun body => _) (host.encode v >>= fun _ => .ok ())
    apply FailsWith.bind
    intro body
    exact host.sentReply_fails _

variable [DecidableEq α]

/-- The code of the application on the way from a value to its reply: the encoder of its body, what stands for its
headers and what stands for its status. -/
def mergedMade (m : Merged α) : Except PyError Unit :=
  match m.value with
  | .sse status _ => host.readStatus status
  | .response r => host.argsMade (host.responseArgs r)
  | .none => host.readStatus (host.orElse m.status (.int 204))
  | .model x => host.argsMade (host.bodyArgs m "application/json" (host.toJson x))
  | .buffer b => host.argsMade (host.bodyArgs m "application/octet-stream" (host.toBytes b))
  | .text s => host.argsMade (host.bodyArgs m "text/plain; charset=utf-8" (host.encodeStr s))
  | .other v =>
    if m.Bare then (host.encodeOther v).map fun _ => ()
    else host.argsMade (host.bodyArgs m "application/json" (host.encode v))

def made (result : Returned α) : Except PyError Unit := result.merged >>= host.mergedMade

lemma mergedReply_fails (m : Merged α) : host.FailsWith (host.mergedReply m) (host.mergedMade m) := by
  unfold mergedReply mergedMade
  cases m.value with
  | sse status pumped => exact host.startedStream_fails status
  | response r => exact host.argsMade_fails _
  | none => exact host.sentReply_fails _
  | model x => exact host.argsMade_fails _
  | buffer b => exact host.argsMade_fails _
  | text t => exact host.argsMade_fails _
  | other v =>
    by_cases hbare : m.Bare
    · simp only [hbare, if_true]
      exact host.otherReply_fails v
    · simp only [hbare, if_false]
      exact host.argsMade_fails _

lemma resultReply_fails (result : Returned α) : host.FailsWith (host.resultReply result) (host.made result) :=
  FailsWith.bind result.merged fun m => host.mergedReply_fails m

lemma told_ours (debug : Bool) (h : host.Ours e) : host.Told debug e := by
  obtain ⟨refusal, rfl⟩ | ⟨text, rfl⟩ := h
  · exact host.told_refused refusal debug
  · exact host.told_valueError text debug

/-- Only the code of the application raises what cannot be told. -/
lemma told_of_made {result : Returned α} (h : ∀ e, host.made result = .error e → host.Told debug e)
    (hreply : host.resultReply result = .error e) : host.Told debug e := by
  obtain hcode | hours := (host.resultReply_fails result e).2 hreply
  · exact h e hcode
  · exact host.told_ours debug hours
end PyHost

end Oxbrook
