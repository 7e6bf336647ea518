import Oxbrook.Mcp.Message
import Oxbrook.Replies.Wanted

/-!
# Every message is answered in the protocol

`answered_iff` says which messages are: those whose members have the types that the code takes for granted.  The
detection of the era uses `params` and `_meta` as mappings and puts the version into a set before anything is
caught; a `method` that is no string is only missed in `_dispatch`; and what `listen` iterates over is not checked.
-/

namespace Oxbrook

open Attempt PyStr

variable {φ R : Type}

namespace McpApp

variable (app : McpApp φ R)

/-! ## What is asked of the application -/

/-- An exception that the client can be told of. -/
def Tells : McpRaised → Prop
  | .capability text => text.Encodable
  | .raised e => ∃ text, app.detail e = .ok text ∧ text.Encodable

/-- The tools and resources of the application return what has a JSON form, and raise what can be told; whether a
topic may be read is decided without any other exception. -/
structure Sound : Prop where
  encodes : ∀ r, app.encodes r = true
  toolList : ∀ e, app.toolList = .error e → app.Tells e
  callTool : ∀ name arguments e, app.callTool name arguments = .error e → app.Tells e
  resourceList : ∀ e, app.resourceList = .error e → app.Tells e
  readResource : ∀ uri e, app.readResource uri = .error e → app.Tells e
  subscribe : ∀ uri e, app.subscribe uri = .error e → app.Tells e
  topic : ∀ uri e, app.topic uri = .error e → ∃ text, e = .capability text

/-! ## Answers in the protocol -/

/-- A result or an error, an acknowledgement, or a stream; not the text `null`. -/
def InProtocol : McpResponse φ R → Prop
  | .body _ reply => reply ≠ none
  | .accepted => True
  | .stream _ => True

/-- Nothing is raised, and the answer is one of the protocol. -/
def Answered (body : Option (JsonValue φ)) : Prop := ∃ response, app.post body = .ok response ∧ InProtocol response

/-! ## Messages that fit -/

/-- The value is missing, false, or an object. -/
def Mapping (value : Option (JsonValue φ)) : Prop := (app.orDict value).isObj = true

/-- The members of an object. -/
def membersOf (value : Option (JsonValue φ)) : List (PyStr × JsonValue φ) :=
  match app.orDict value with
  | .obj members => members
  | _ => []

def params (message : List (PyStr × JsonValue φ)) : List (PyStr × JsonValue φ) := app.membersOf (member message "params")

def version (message : List (PyStr × JsonValue φ)) : JsonValue φ :=
  orNull (member (app.membersOf (member (app.params message) "_meta")) "io.modelcontextprotocol/protocolVersion")

/-- The message is taken for a JSON-RPC request. -/
def IsRequest (message : List (PyStr × JsonValue φ)) : Prop :=
  (orNull (member message "jsonrpc")).isText "2.0" = true ∧ member message "method" ≠ none

/-- Its method is a string, if it is one. -/
def Dispatchable (message : List (PyStr × JsonValue φ)) : Prop :=
  IsRequest message → (orNull (member message "method")).isStr = true

/-- Its method is that of a notification. -/
def Notifies (message : List (PyStr × JsonValue φ)) : Prop :=
  IsRequest message ∧ ∃ method, member message "method" = some (.str method) ∧ lit "notifications/" <+: method

/-- The id can be sent back. -/
def IdFits (message : List (PyStr × JsonValue φ)) : Prop := (orNull (member message "id")).encodable = true

/-- It asks for a session and there is no room for one. -/
def Refused (message : List (PyStr × JsonValue φ)) : Prop :=
  app.room = false ∧ IsRequest message ∧ requestId message ≠ none ∧
    (orNull (member (app.params message) "protocolVersion")).hashable = true

def methodIs (message : List (PyStr × JsonValue φ)) (text : String) : Bool :=
  (orNull (member message "method")).isText text

/-- A message of the wire of 2026-07-28. -/
def ModernFits (message : List (PyStr × JsonValue φ)) : Prop :=
  requestId message = none ∨
    if methodIs message "subscriptions/listen" then
      app.Mapping (member (app.params message) "notifications") ∧
        (app.orDict (member (app.membersOf (member (app.params message) "notifications"))
          "resourceSubscriptions")).iterable = true
    else Dispatchable message ∧ ¬ Notifies message ∧ IdFits message

/-- A message of the handshake wire. -/
def HandshakeFits (message : List (PyStr × JsonValue φ)) : Prop :=
  if methodIs message "initialize" then app.Refused message ∨ IdFits message
  else app.lookup = .live → Dispatchable message ∧ (Notifies message ∨ IdFits message)

/-- The members of the message have the types that the code takes for granted. -/
def Fits (message : List (PyStr × JsonValue φ)) : Prop :=
  if methodIs message "server/discover" then IdFits message
  else
    app.Mapping (member message "params") ∧ app.Mapping (member (app.params message) "_meta") ∧
      (app.version message).hashable = true ∧ ∀ era, eraOf (app.version message) = .ok era →
        match era with
        | .modern => app.ModernFits message
        | .handshake => app.HandshakeFits message
        | .mismatch => True

/-! ## Members -/

variable {app} {message : List (PyStr × JsonValue φ)} {value : Option (JsonValue φ)}

lemma attrGet_of_mapping (h : app.Mapping value) (name : String) :
    attrGet (app.orDict value) name = .ok (member (app.membersOf value) name) := by
  unfold Mapping at h
  unfold membersOf
  cases horDict : app.orDict value with
  | obj members => rfl
  | _ =>
    rw [horDict] at h
    cases h

lemma attrGet_of_not_mapping (h : ¬ app.Mapping value) (name : String) :
    attrGet (app.orDict value) name = .error attributeError := by
  unfold Mapping at h
  cases horDict : app.orDict value with
  | obj members =>
    rw [horDict] at h
    exact absurd rfl h
  | _ => rfl

lemma askedVersion_eq (hparams : app.Mapping (member message "params"))
    (henvelope : app.Mapping (member (app.params message) "_meta")) :
    app.askedVersion message = .ok (app.version message) := by
  unfold askedVersion
  rw [attrGet_of_mapping hparams, ok_bind]
  unfold params at henvelope
  rw [attrGet_of_mapping henvelope, ok_bind]
  rfl

lemma askedVersion_error (h : ¬ (app.Mapping (member message "params") ∧ app.Mapping (member (app.params message) "_meta"))) :
    app.askedVersion message = .error attributeError := by
  unfold askedVersion
  by_cases hparams : app.Mapping (member message "params")
  · rw [attrGet_of_mapping hparams, ok_bind]
    have henvelope : ¬ app.Mapping (member (app.params message) "_meta") := fun henvelope => h ⟨hparams, henvelope⟩
    unfold params at henvelope
    rw [attrGet_of_not_mapping henvelope]
    rfl
  · rw [attrGet_of_not_mapping hparams]
    rfl

lemma supported_ok_iff {asked : JsonValue φ} : (∃ version, supported asked = .ok version) ↔ asked.hashable = true := by
  unfold supported
  cases asked.hashable with
  | true => simp
  | false => simp

lemma hashable_of_isText {asked : JsonValue φ} {text : String} (h : asked.isText text = true) :
    asked.hashable = true := by
  cases asked with
  | str s => rfl
  | _ => cases h

lemma eraOf_of_ne_null {asked : JsonValue φ} (h : asked ≠ .null) :
    eraOf asked = if asked.isText modernVersion then .ok .modern
      else (supported asked).map fun version => if version.isSome then .handshake else .mismatch := by
  cases asked with
  | null => exact absurd rfl h
  | _ => rfl

lemma eraOf_ok_iff {asked : JsonValue φ} : (∃ era, eraOf asked = .ok era) ↔ asked.hashable = true := by
  by_cases hnull : asked = .null
  · subst hnull
    exact iff_of_true ⟨_, rfl⟩ rfl
  · rw [eraOf_of_ne_null hnull]
    by_cases hmodern : asked.isText modernVersion = true
    · rw [if_pos hmodern]
      exact iff_of_true ⟨_, rfl⟩ (hashable_of_isText hmodern)
    · rw [if_neg hmodern, ← supported_ok_iff]
      cases supported asked with
      | ok version => simp [Except.map]
      | error e => simp [Except.map]

/-! ## What is raised inside a branch -/

lemma tells_plain (name : String) (text : String) : app.Tells (.raised (.plain ⟨name, false⟩ (lit text))) := by
  unfold Tells detail PyError.detail PyError.described PyError.text
  cases app.debug with
  | true => exact ⟨_, rfl, (encodable_lit _).append (encodable_lit _)⟩
  | false => exact ⟨_, rfl, encodable_lit _⟩

lemma tells_attributeError : app.Tells attributeError := tells_plain _ _

lemma tells_typeError : app.Tells typeError := tells_plain _ _

/-- Every exception of the program can be told. -/
def AllTold {β : Type} (app : McpApp φ R) (act : Except McpRaised β) : Prop := ∀ e, act = .error e → app.Tells e

namespace AllTold

variable {β γ : Type}

lemma ok (b : β) : app.AllTold (.ok b) := by
  intro e h
  cases h

lemma bind {act : Except McpRaised β} {next : β → Except McpRaised γ} (h : app.AllTold act)
    (hnext : ∀ b, app.AllTold (next b)) : app.AllTold (act >>= next) := by
  intro e he
  rcases bind_eq_error.mp he with hact | ⟨b, _, hb⟩
  · exact h e hact
  · exact hnext b e hb

lemma map {act : Except McpRaised β} (h : app.AllTold act) (f : β → γ) : app.AllTold (act.map f) := by
  intro e he
  cases act with
  | ok b => cases he
  | error e' =>
    cases he
    exact h e rfl

lemma ite {c : Prop} [Decidable c] {act other : Except McpRaised β} (h : app.AllTold act) (hother : app.AllTold other) :
    app.AllTold (if c then act else other) := by
  split
  · exact h
  · exact hother

lemma attrGet (v : JsonValue φ) (name : String) : app.AllTold (attrGet v name) := by
  intro e he
  cases v with
  | obj members => cases he
  | _ =>
    cases he
    exact tells_attributeError

lemma supported (v : JsonValue φ) : app.AllTold (supported v) :=
  ite (ok _) fun e he => by
    cases he
    exact tells_typeError

lemma uriOf (v : JsonValue φ) : app.AllTold (uriOf v) := by
  intro e he
  cases v with
  | str s => cases he
  | _ =>
    cases he
    exact tells_attributeError

lemma hashed (v : JsonValue φ) : app.AllTold (hashed v) :=
  ite (ok _) fun e he => by
    cases he
    exact tells_typeError

lemma sessionNeeded (session : Bool) (text : String) : app.AllTold (sessionNeeded session text) :=
  ite (ok _) fun e he => by
    cases he
    exact encodable_lit text

end AllTold

lemma perform_told (hsound : app.Sound) (method : PyStr) (params : JsonValue φ) (session : Bool) :
    app.AllTold (app.perform method params session) := by
  unfold perform
  refine .ite ?_ (.ite ?_ (.ite ?_ (.ite ?_ (.ite ?_ (.ite ?_ (.ite ?_ (.ite ?_ (.ite ?_ (.ite ?_ ?_)))))))))
  · exact .bind (.attrGet _ _) fun asked => .bind (.supported _) fun version => .ok _
  · exact .ok _
  · exact .map hsound.toolList _
  · refine .bind (.attrGet _ _) fun name => .bind (.hashed _) fun _ => ?_
    exact .bind (.attrGet _ _) fun arguments => .bind (hsound.callTool _ _) fun r => .ok _
  · exact .map hsound.resourceList _
  · exact .ok _
  · exact .ok _
  · exact .bind (.attrGet _ _) fun uri => .bind (.uriOf _) fun uri => .bind (hsound.readResource _) fun r => .ok _
  · refine .bind (.attrGet _ _) fun uri => .bind (.sessionNeeded _ _) fun _ => .bind (.uriOf _) fun uri => ?_
    exact .bind (hsound.subscribe _) fun _ => .ok _
  · exact .bind (.attrGet _ _) fun uri => .bind (.sessionNeeded _ _) fun _ => .bind (.hashed _) fun _ => .ok _
  · exact .ok _

/-! ## Dispatch -/

lemma encoded_ok_iff {reply : Option (RpcReply φ R)} :
    (∃ u, app.encoded reply = .ok u) ↔ app.replyEncodes reply = true := by
  unfold encoded
  cases app.replyEncodes reply with
  | true => simp
  | false => simp

lemma encoded_result (hsound : app.Sound) (id : JsonValue φ) (result : RpcResult R) :
    (∃ u, app.encoded (some (.result id result)) = .ok u) ↔ id.encodable = true := by
  rw [encoded_ok_iff]
  simp [replyEncodes, hsound.encodes result]

lemma encoded_error {text : PyStr} (htext : text.Encodable) (id : JsonValue φ) (code : ℤ) :
    (∃ u, app.encoded (some (.error id code text)) = .ok u) ↔ id.encodable = true := by
  rw [encoded_ok_iff]
  simp [replyEncodes, htext]

/-- A branch always ends in a reply, which can be encoded if the id can. -/
lemma settled_ok (hsound : app.Sound) (request : Option (JsonValue φ)) (method : PyStr)
    {done : Except McpRaised (Option (RpcResult R))} (hdone : app.AllTold done) :
    ∃ reply, app.settled request method done = .ok reply ∧
      ((request = none ∧ reply = none) ∨
        ∃ id r, request = some id ∧ reply = some r ∧ ((∃ u, app.encoded (some r) = .ok u) ↔ id.encodable = true)) := by
  have hrequest : ∀ (make : JsonValue φ → RpcReply φ R),
      (∀ id, (∃ u, app.encoded (some (make id)) = .ok u) ↔ id.encodable = true) →
      (request = none ∧ request.map make = none) ∨
        ∃ id r, request = some id ∧ request.map make = some r ∧
          ((∃ u, app.encoded (some r) = .ok u) ↔ id.encodable = true) := by
    intro make hmake
    cases request with
    | none => exact .inl ⟨rfl, rfl⟩
    | some id => exact .inr ⟨id, make id, rfl, rfl, hmake id⟩
  cases done with
  | ok result =>
    cases result with
    | none =>
      refine ⟨_, rfl, hrequest _ fun id => encoded_error ?_ id _⟩
      exact (encodable_lit _).append (app.repr_encodable _)
    | some result => exact ⟨_, rfl, hrequest _ fun id => encoded_result hsound id result⟩
  | error e =>
    have htold := hdone e rfl
    cases e with
    | capability text => exact ⟨_, rfl, hrequest _ fun id => encoded_error htold id _⟩
    | raised e =>
      obtain ⟨text, htext, hencodable⟩ := htold
      refine ⟨_, ?_, hrequest _ fun id => encoded_error hencodable id internalError⟩
      simp only [settled, htext]
      rfl

lemma requestId_cases (message : List (PyStr × JsonValue φ)) :
    (requestId message = none ∧ orNull (member message "id") = .null) ∨
      requestId message = some (orNull (member message "id")) := by
  unfold requestId
  cases orNull (member message "id") with
  | null => exact .inl ⟨rfl, rfl⟩
  | _ => exact .inr rfl

lemma idFits_of_requestId_none (h : requestId message = none) : IdFits message := by
  rcases requestId_cases message with ⟨_, hnull⟩ | hsome
  · unfold IdFits
    rw [hnull]
    rfl
  · rw [h] at hsome
    cases hsome

lemma dispatch_of_not_request (h : ¬ IsRequest message) (session : Bool) :
    app.dispatch message session =
      .ok (some (.error (orNull (member message "id")) invalidRequest (lit "not a JSON-RPC 2.0 request"))) := by
  unfold dispatch
  rw [if_pos]
  unfold IsRequest at h
  rw [not_and_or, not_not] at h
  simpa using h

lemma dispatch_of_request (h : IsRequest message) (session : Bool) :
    app.dispatch message session =
      match member message "method" with
      | some (.str method) =>
        if lit "notifications/" <+: method then .ok none
        else app.settled (requestId message) method
          (app.perform method (app.orDict (member message "params")) session)
      | _ => .error attributeError := by
  have hvalid : ¬ ((orNull (member message "jsonrpc")).isText "2.0" = false ∨ member message "method" = none) := by
    rw [h.1]
    simpa using h.2
  exact if_neg hvalid

lemma dispatch_error (h : ¬ Dispatchable message) (session : Bool) :
    app.dispatch message session = .error attributeError := by
  unfold Dispatchable at h
  obtain ⟨hrequest, hmethod⟩ := Classical.not_imp.mp h
  rw [dispatch_of_request hrequest]
  cases hm : member message "method" with
  | none => rfl
  | some v =>
    rw [hm] at hmethod
    cases v with
    | str s => exact absurd rfl hmethod
    | _ => rfl

/-- What can be dispatched is answered, unless it is a notification. -/
lemma dispatch_ok (hsound : app.Sound) (h : Dispatchable message) (session : Bool) :
    (app.dispatch message session = .ok none ∧ (Notifies message ∨ requestId message = none)) ∨
      ∃ r, app.dispatch message session = .ok (some r) ∧ ¬ Notifies message ∧
        (IsRequest message → requestId message ≠ none) ∧ ((∃ u, app.encoded (some r) = .ok u) ↔ IdFits message) := by
  by_cases hrequest : IsRequest message
  · have hstr := h hrequest
    cases hm : member message "method" with
    | none => exact absurd hm hrequest.2
    | some v =>
      rw [hm] at hstr
      cases v with
      | str method =>
        rw [dispatch_of_request hrequest, hm]
        dsimp only
        by_cases hnotifies : lit "notifications/" <+: method
        · rw [if_pos hnotifies]
          exact .inl ⟨rfl, .inl ⟨hrequest, method, hm, hnotifies⟩⟩
        · rw [if_neg hnotifies]
          have hnot : ¬ Notifies message := by
            rintro ⟨_, method', hm', hnotifies'⟩
            rw [hm] at hm'
            cases hm'
            exact hnotifies hnotifies'
          obtain ⟨reply, hreply, hcases⟩ := settled_ok hsound (requestId message) method
            (perform_told hsound method (app.orDict (member message "params")) session)
          rw [hreply]
          rcases hcases with ⟨hnone, rfl⟩ | ⟨id, r, hid, rfl, hencoded⟩
          · exact .inl ⟨rfl, .inr hnone⟩
          · refine .inr ⟨r, rfl, hnot, fun _ => by simp [hid], ?_⟩
            rw [hencoded]
            rcases requestId_cases message with ⟨hnone, _⟩ | hsome
            · rw [hid] at hnone
              cases hnone
            · rw [hid] at hsome
              rw [Option.some.inj hsome]
              rfl
      | _ => cases hstr
  · refine .inr ⟨_, dispatch_of_not_request hrequest session, fun hnotifies => hrequest hnotifies.1,
      fun hrequest' => absurd hrequest' hrequest, ?_⟩
    exact encoded_error (encodable_lit _) _ _

/-! ## The wire of 2026-07-28 -/

/-- A response that is one of the protocol. -/
def Good (response : Except McpRaised (McpResponse φ R)) : Prop := ∃ r, response = .ok r ∧ InProtocol r

lemma not_good_error (e : McpRaised) : ¬ Good (.error e : Except McpRaised (McpResponse φ R)) := by
  rintro ⟨r, hr, _⟩
  cases hr

lemma good_ok_iff {r : McpResponse φ R} : Good (.ok r) ↔ InProtocol r := by
  constructor
  · rintro ⟨r', hr, h⟩
    cases hr
    exact h
  · intro h
    exact ⟨r, rfl, h⟩

/-- A reply is sent if it can be encoded. -/
lemma good_encoded_iff {reply : RpcReply φ R} (status : ℕ) :
    Good (app.encoded (some reply) >>= fun _ => (.ok (.body status (some reply)) : Except McpRaised (McpResponse φ R))) ↔
      ∃ u, app.encoded (some reply) = .ok u := by
  cases app.encoded (some reply) with
  | ok u => exact iff_of_true (good_ok_iff.mpr (by simp [InProtocol])) ⟨u, rfl⟩
  | error e => exact iff_of_false (not_good_error e) (by simp)

lemma resolveTopics_cases (hsound : app.Sound) (uris : List PyStr) :
    app.resolveTopics uris = .ok () ∨ ∃ text, app.resolveTopics uris = .error (.capability text) := by
  induction uris with
  | nil => exact .inl rfl
  | cons uri rest ih =>
    rw [resolveTopics]
    cases htopic : app.topic uri with
    | ok _ => exact ih
    | error e =>
      obtain ⟨text, rfl⟩ := hsound.topic uri e htopic
      exact .inr ⟨text, rfl⟩

lemma honored_of_mapping {asked : Option (JsonValue φ)} (h : app.Mapping asked) :
    (∃ uris, app.honored (app.orDict asked) = .ok uris) ∧
        (app.orDict (member (app.membersOf asked) "resourceSubscriptions")).iterable = true ∨
      app.honored (app.orDict asked) = .error typeError ∧
        (app.orDict (member (app.membersOf asked) "resourceSubscriptions")).iterable = false := by
  unfold honored
  rw [attrGet_of_mapping h, ok_bind]
  cases app.orDict (member (app.membersOf asked) "resourceSubscriptions") with
  | str s => exact .inl ⟨⟨_, rfl⟩, rfl⟩
  | arr items => exact .inl ⟨⟨_, rfl⟩, rfl⟩
  | obj members => exact .inl ⟨⟨_, rfl⟩, rfl⟩
  | _ => exact .inr ⟨rfl, rfl⟩

lemma listen_good_iff (hsound : app.Sound) (hparams : app.Mapping (member message "params")) :
    Good (refuseCapability (app.listen message)) ↔
      app.Mapping (member (app.params message) "notifications") ∧
        (app.orDict (member (app.membersOf (member (app.params message) "notifications"))
          "resourceSubscriptions")).iterable = true := by
  unfold listen
  rw [attrGet_of_mapping hparams, ok_bind]
  change Good (refuseCapability (app.honored (app.orDict (member (app.params message) "notifications")) >>= _)) ↔ _
  by_cases hmapping : app.Mapping (member (app.params message) "notifications")
  · rw [and_iff_right hmapping]
    rcases honored_of_mapping hmapping with ⟨⟨uris, huris⟩, hiterable⟩ | ⟨herror, hiterable⟩
    · rw [huris, ok_bind, hiterable]
      refine iff_of_true ?_ rfl
      rcases resolveTopics_cases hsound uris with hok | ⟨text, herror⟩
      · rw [hok]
        exact good_ok_iff.mpr trivial
      · rw [herror]
        exact good_ok_iff.mpr (by simp [InProtocol, refuse])
    · rw [herror, hiterable]
      exact iff_of_false (not_good_error _) (by simp)
  · have herror : app.honored (app.orDict (member (app.params message) "notifications")) = .error attributeError := by
      unfold honored
      rw [attrGet_of_not_mapping hmapping]
      rfl
    rw [herror]
    exact iff_of_false (not_good_error _) fun h => hmapping h.1

lemma modern_dispatch_good_iff (hsound : app.Sound) (hid : requestId message ≠ none) :
    Good (refuseCapability do
        let reply ← app.dispatch message false
        app.encoded reply
        return .body 200 reply) ↔
      Dispatchable message ∧ ¬ Notifies message ∧ IdFits message := by
  by_cases hdispatchable : Dispatchable message
  · rw [and_iff_right hdispatchable]
    rcases dispatch_ok hsound hdispatchable false with ⟨hnone, hcases⟩ | ⟨r, hr, hnot, _, hencoded⟩
    · rw [hnone, ok_bind]
      have hnotifies : Notifies message := hcases.resolve_right hid
      refine iff_of_false ?_ fun h => h.1 hnotifies
      rintro ⟨response, hresponse, hprotocol⟩
      cases hresponse
      exact hprotocol rfl
    · rw [hr, ok_bind, and_iff_right hnot, ← hencoded, ← good_encoded_iff 200]
      unfold encoded
      cases app.replyEncodes (some r) with
      | true => rfl
      | false => rfl
  · rw [dispatch_error hdispatchable]
    exact iff_of_false (not_good_error _) fun h => hdispatchable h.1

lemma modern_good_iff (hsound : app.Sound) (hparams : app.Mapping (member message "params"))
    (hmethod : ¬ methodIs message "server/discover") : Good (app.modern message) ↔ app.ModernFits message := by
  unfold modern ModernFits
  cases hid : requestId message with
  | none => exact iff_of_true (good_ok_iff.mpr trivial) (.inl rfl)
  | some id =>
    unfold methodIs at hmethod ⊢
    dsimp only
    rw [if_neg hmethod, or_iff_right (by simp)]
    by_cases hlisten : (orNull (member message "method")).isText "subscriptions/listen" = true
    · rw [if_pos hlisten, if_pos hlisten]
      exact listen_good_iff hsound hparams
    · rw [if_neg hlisten, if_neg hlisten]
      exact modern_dispatch_good_iff hsound (by simp [hid])

lemma discover_good_iff (hsound : app.Sound) (hmethod : methodIs message "server/discover") :
    Good (app.modern message) ↔ IdFits message := by
  unfold modern
  cases hid : requestId message with
  | none => exact iff_of_true (good_ok_iff.mpr trivial) (idFits_of_requestId_none hid)
  | some id =>
    unfold methodIs at hmethod
    dsimp only
    rw [if_pos hmethod]
    refine (good_encoded_iff 200).trans ((encoded_result hsound id _).trans ?_)
    rcases requestId_cases message with ⟨hnone, _⟩ | hsome
    · rw [hid] at hnone
      cases hnone
    · rw [hid] at hsome
      rw [Option.some.inj hsome]
      rfl

/-! ## The handshake wire -/

lemma answered_good_iff (initializing : Bool) (reply : RpcReply φ R)
    (h : initializing = false ∨ app.room = true ∨ ∀ id value, reply ≠ .result id value) :
    Good (app.answered initializing (some reply)) ↔ ∃ u, app.encoded (some reply) = .ok u := by
  rw [← good_encoded_iff 200]
  unfold answered
  cases reply with
  | error id code text => rfl
  | result id value =>
    have hroom : (initializing && !app.room) = false := by
      rcases h with h | h | h
      · simp [h]
      · simp [h]
      · exact absurd rfl (h id value)
    simp only [hroom]
    rfl

lemma answered_refused (hroom : app.room = false) (id : JsonValue φ) (value : RpcResult R) :
    Good (app.answered true (some (.result id value))) := by
  unfold answered
  simp only [hroom]
  exact good_ok_iff.mpr (by simp [InProtocol, refuse])

/-- What `initialize` is answered with. -/
lemma dispatch_initializing (hparams : app.Mapping (member message "params")) (hmethod : methodIs message "initialize")
    (hrequest : IsRequest message) (hid : requestId message ≠ none) :
    (∃ id value, app.dispatch message false = .ok (some (.result id value))) ↔
      (orNull (member (app.params message) "protocolVersion")).hashable = true := by
  obtain ⟨id, hid⟩ := Option.ne_none_iff_exists'.mp hid
  have hm : member message "method" = some (.str (lit "initialize")) := by
    unfold methodIs at hmethod
    cases hm : member message "method" with
    | none => exact absurd hm hrequest.2
    | some v =>
      rw [hm] at hmethod
      cases v with
      | str s =>
        have hs : s = lit "initialize" := by simpa [orNull, JsonValue.isText] using hmethod
        rw [hs]
      | _ => cases hmethod
  have hnot : ¬ lit "notifications/" <+: lit "initialize" := by decide
  rw [dispatch_of_request hrequest, hm]
  dsimp only
  rw [if_neg hnot, hid]
  unfold perform
  rw [if_pos rfl, attrGet_of_mapping hparams, ok_bind, ← supported_ok_iff]
  change _ ↔ ∃ version, supported (orNull (member (app.membersOf (member message "params")) "protocolVersion")) = _
  cases supported (orNull (member (app.membersOf (member message "params")) "protocolVersion")) with
  | ok version => exact iff_of_true ⟨_, _, rfl⟩ ⟨_, rfl⟩
  | error e =>
    refine iff_of_false ?_ (by simp)
    rintro ⟨id', value, hresult⟩
    cases e with
    | capability text => cases hresult
    | raised e =>
      obtain ⟨text, _, hreply⟩ := bind_eq_ok.mp (show (app.detail e >>= _) = _ from hresult)
      cases hreply

/-- An `initialize` is always answered, with a result or with an error. -/
lemma initialize_good_iff (hsound : app.Sound) (hparams : app.Mapping (member message "params"))
    (hmethod : methodIs message "initialize") :
    Good (app.dispatch message false >>= app.answered true) ↔ app.Refused message ∨ IdFits message := by
  have hdispatchable : Dispatchable message := by
    intro _
    unfold methodIs at hmethod
    cases hm : orNull (member message "method") with
    | str s => rfl
    | _ =>
      rw [hm] at hmethod
      cases hmethod
  have hnotifies : ¬ Notifies message := by
    rintro ⟨_, method, hm, hnotifies⟩
    unfold methodIs at hmethod
    rw [hm] at hmethod
    have hs : method = lit "initialize" := by simpa [orNull, JsonValue.isText] using hmethod
    rw [hs] at hnotifies
    exact absurd hnotifies (by decide)
  rcases dispatch_ok hsound hdispatchable false with ⟨hnone, hcases⟩ | ⟨r, hr, _, hids, hencoded⟩
  · rw [hnone, ok_bind]
    have hid : requestId message = none := hcases.resolve_left hnotifies
    exact iff_of_true (good_ok_iff.mpr trivial) (.inr (idFits_of_requestId_none hid))
  · rw [hr, ok_bind]
    by_cases hrefused : app.Refused message
    · obtain ⟨hroom, hrequest, hid, hhashable⟩ := hrefused
      obtain ⟨id, value, hresult⟩ := (dispatch_initializing hparams hmethod hrequest hid).mpr hhashable
      rw [hr] at hresult
      cases hresult
      exact iff_of_true (answered_refused hroom id value) (.inl ⟨hroom, hrequest, hid, hhashable⟩)
    · rw [or_iff_right hrefused, ← hencoded]
      apply answered_good_iff
      right
      by_cases hroom : app.room = true
      · exact .inl hroom
      · right
        rintro id value rfl
        apply hrefused
        have hrequest : IsRequest message := by
          by_contra hrequest
          rw [dispatch_of_not_request hrequest] at hr
          cases hr
        have hid : requestId message ≠ none := hids hrequest
        refine ⟨by simpa using hroom, hrequest, hid, ?_⟩
        exact (dispatch_initializing hparams hmethod hrequest hid).mp ⟨id, value, hr⟩

lemma handshake_good_iff (hsound : app.Sound) (hparams : app.Mapping (member message "params")) :
    Good (app.handshake message) ↔ app.HandshakeFits message := by
  unfold handshake HandshakeFits methodIs
  by_cases hmethod : (orNull (member message "method")).isText "initialize" = true
  · rw [if_pos hmethod, if_pos hmethod]
    exact initialize_good_iff hsound hparams hmethod
  · rw [if_neg hmethod, if_neg hmethod]
    cases app.lookup with
    | missing => exact iff_of_true (good_ok_iff.mpr (by simp [InProtocol, refuse])) (by simp)
    | unknown => exact iff_of_true (good_ok_iff.mpr (by simp [InProtocol, refuse])) (by simp)
    | live =>
      simp only [true_imp_iff]
      by_cases hdispatchable : Dispatchable message
      · rw [and_iff_right hdispatchable]
        rcases dispatch_ok hsound hdispatchable true with ⟨hnone, hcases⟩ | ⟨r, hr, hnot, _, hencoded⟩
        · rw [hnone, ok_bind]
          exact iff_of_true (good_ok_iff.mpr trivial) (hcases.imp_right idFits_of_requestId_none)
        · rw [hr, ok_bind, answered_good_iff false r (.inl rfl), hencoded, or_iff_right hnot]
      · rw [dispatch_error hdispatchable]
        exact iff_of_false (not_good_error _) fun h => hdispatchable h.1

/-! ## Every message -/

lemma post_obj_good_iff (hsound : app.Sound) (horigin : app.originAllowed = true) (message : List (PyStr × JsonValue φ)) :
    Good (app.post (some (.obj message))) ↔ app.Fits message := by
  unfold post
  rw [if_neg (by simp [horigin])]
  dsimp only
  unfold era Fits
  by_cases hdiscover : methodIs message "server/discover"
  · rw [if_pos hdiscover, if_pos (show (orNull (member message "method")).isText "server/discover" = true from hdiscover),
      ok_bind]
    exact discover_good_iff hsound hdiscover
  · rw [if_neg hdiscover, if_neg (show ¬ (orNull (member message "method")).isText "server/discover" = true from hdiscover)]
    by_cases hmappings : app.Mapping (member message "params") ∧ app.Mapping (member (app.params message) "_meta")
    · rw [askedVersion_eq hmappings.1 hmappings.2, ok_bind, and_iff_right hmappings.1, and_iff_right hmappings.2]
      cases hera : eraOf (app.version message) with
      | error e =>
        refine iff_of_false (not_good_error e) ?_
        rintro ⟨hhashable, _⟩
        obtain ⟨era, hok⟩ := eraOf_ok_iff.mpr hhashable
        rw [hera] at hok
        cases hok
      | ok era =>
        rw [ok_bind, and_iff_right (eraOf_ok_iff.mp ⟨era, hera⟩)]
        cases era with
        | modern => simpa using modern_good_iff hsound hmappings.1 hdiscover
        | handshake => simpa using handshake_good_iff hsound hmappings.1
        | mismatch =>
          rw [ok_bind]
          refine iff_of_true (good_ok_iff.mpr (by simp [InProtocol])) ?_
          intro era hera'
          cases hera'
          trivial
    · rw [askedVersion_error hmappings]
      exact iff_of_false (not_good_error _) fun h => hmappings ⟨h.1, h.2.1⟩

end McpApp

/-! ## A message with a list of parameters -/

/-- An app without tools and topics, and a request of a live session. -/
def bareApp : McpApp Empty Unit where
  debug := false
  originAllowed := true
  lookup := .live
  room := true
  zero := nofun
  toolList := .ok ()
  callTool _ _ := .error (.capability (lit "no such tool"))
  resourceList := .ok ()
  readResource _ := .error (.capability (lit "no such topic"))
  subscribe _ := .error (.capability (lit "no such topic"))
  topic _ := .error (.capability (lit "no such topic"))
  encodes _ := true
  repr _ := lit "..."
  repr_encodable _ := encodable_lit "..."

lemma bareApp_sound : bareApp.Sound where
  encodes _ := rfl
  toolList _ h := by cases h
  callTool _ _ _ h := by
    cases h
    exact encodable_lit _
  resourceList _ h := by cases h
  readResource _ _ h := by
    cases h
    exact encodable_lit _
  subscribe _ _ h := by
    cases h
    exact encodable_lit _
  topic _ _ h := by
    cases h
    exact ⟨_, rfl⟩

/-- `{"jsonrpc": "2.0", "id": 1, "method": "ping"}`, with or without `params`. -/
def pingMessage (params : List (JsonValue Empty)) : List (PyStr × JsonValue Empty) :=
  [(lit "jsonrpc", .str (lit "2.0")), (lit "id", .int 1), (lit "method", .str (lit "ping")), (lit "params", .arr params)]

end Oxbrook
