import Oxbrook.Replies.Handler

/-!
# Messages of the Model Context Protocol

`MCP.post` of `_mcp.py`, with what it calls: the detection of the era, the dispatch of the handshake wire, and the
wire of 2026-07-28.  A message is any JSON value.  Its members are used as mappings, as strings and as members of a
set, and each of these uses raises for values of some types; `except` clauses stand around some of them only.

The tools and resources of the application are parameters: what they return, or raise.
-/

namespace Oxbrook

open Attempt PyStr

/-! ## JSON -/

/-- A value as `json.loads` returns it; an object is a dict, its members in some order. -/
inductive JsonValue (φ : Type)
  | null
  | bool (b : Bool)
  | int (n : ℤ)
  | float (x : φ)
  | str (s : PyStr)
  | arr (items : List (JsonValue φ))
  | obj (members : List (PyStr × JsonValue φ))

variable {φ R : Type}

namespace JsonValue

/-- `message == text`. -/
def isText (text : String) : JsonValue φ → Bool
  | str s => s = lit text
  | _ => false

def isStr : JsonValue φ → Bool
  | str _ => true
  | _ => false

def isObj : JsonValue φ → Bool
  | obj _ => true
  | _ => false

/-- A value that can be a member of a set or the key of a dict. -/
def hashable : JsonValue φ → Bool
  | arr _ => false
  | obj _ => false
  | _ => true

/-- A value that can be iterated over. -/
def iterable : JsonValue φ → Bool
  | str _ => true
  | arr _ => true
  | obj _ => true
  | _ => false

mutual

/-- No string in the value has a lone surrogate: UTF-8 has a form for it. -/
def encodable : JsonValue φ → Bool
  | str s => decide s.Encodable
  | arr items => encodableAll items
  | obj members => encodableMembers members
  | _ => true

def encodableAll : List (JsonValue φ) → Bool
  | [] => true
  | item :: rest => item.encodable && encodableAll rest

def encodableMembers : List (PyStr × JsonValue φ) → Bool
  | [] => true
  | (name, value) :: rest => decide name.Encodable && value.encodable && encodableMembers rest

end

end JsonValue

/-! ## What the endpoint is given -/

/-- What code of the server or of the application raises: a `CapabilityError`, or anything else. -/
inductive McpRaised
  | capability (text : PyStr)
  | raised (e : PyError)

/-- A value was used as a mapping or as a string that is neither. -/
def attributeError : McpRaised := .raised (.plain ⟨"AttributeError", false⟩ (lit "object has no such attribute"))

/-- A value was used as a member of a set that cannot be one, or was iterated over. -/
def typeError : McpRaised := .raised (.plain ⟨"TypeError", false⟩ (lit "unhashable or not iterable"))

/-- What is returned for a request. -/
inductive RpcResult (R : Type)
  | discovered
  | initialized (version : String)
  | templates
  | prompts
  | empty
  | given (r : R)

/-- A session header of a request. -/
inductive SessionLookup
  | missing
  | unknown
  | live
  deriving DecidableEq

/-- The application and one request: whether its origin is allowed, what its session header names, whether there is
room for a session, what the tools and resources return, and whether a topic may be read.  `zero` tells the floats
that are false, `encodes` the results that have a JSON form, and `repr` is Python's, which escapes what it cannot
print. -/
structure McpApp (φ R : Type) where
  debug : Bool
  originAllowed : Bool
  lookup : SessionLookup
  room : Bool
  zero : φ → Bool
  toolList : Except McpRaised R
  callTool : Option (JsonValue φ) → JsonValue φ → Except McpRaised R
  resourceList : Except McpRaised R
  readResource : PyStr → Except McpRaised R
  subscribe : PyStr → Except McpRaised Unit
  topic : PyStr → Except McpRaised Unit
  encodes : RpcResult R → Bool
  repr : JsonValue φ → PyStr
  repr_encodable : ∀ v, (repr v).Encodable

/-- What a request is answered with, as JSON. -/
inductive RpcReply (φ R : Type)
  | result (id : JsonValue φ) (value : RpcResult R)
  | error (id : JsonValue φ) (code : ℤ) (message : PyStr)

/-- The response to a `POST`.  `body none` is the text `null`. -/
inductive McpResponse (φ R : Type)
  | body (status : ℕ) (reply : Option (RpcReply φ R))
  | accepted
  | stream (uris : List PyStr)

/-! ## The protocol -/

namespace McpApp

variable (app : McpApp φ R)

/-- `bool(value)`. -/
def truthy : JsonValue φ → Bool
  | .null => false
  | .bool b => b
  | .int n => decide (n ≠ 0)
  | .float x => !app.zero x
  | .str s => !s.isEmpty
  | .arr items => !items.isEmpty
  | .obj members => !members.isEmpty

/-- `message.get(name)`. -/
def member (members : List (PyStr × JsonValue φ)) (name : String) : Option (JsonValue φ) := members.lookup (lit name)

/-- `value or {}`. -/
def orDict (value : Option (JsonValue φ)) : JsonValue φ :=
  match value with
  | none => .obj []
  | some v => if app.truthy v then v else .obj []

/-- `value.get(name)`, of any value. -/
def attrGet (value : JsonValue φ) (name : String) : Except McpRaised (Option (JsonValue φ)) :=
  match value with
  | .obj members => .ok (member members name)
  | _ => .error attributeError

/-- A member that is missing is `None`. -/
def orNull (value : Option (JsonValue φ)) : JsonValue φ := value.getD .null

/-- `SUPPORTED_VERSIONS`. -/
def supportedVersions : List String := ["2025-11-25", "2025-06-18", "2025-03-26"]

/-- `PREFERRED_VERSION`. -/
def preferredVersion : String := "2025-11-25"

/-- The one of `MODERN_VERSIONS`. -/
def modernVersion : String := "2026-07-28"

/-- `asked in SUPPORTED_VERSIONS`, and the version if it is. -/
def supported (asked : JsonValue φ) : Except McpRaised (Option String) :=
  if asked.hashable then .ok (supportedVersions.find? fun version => asked.isText version) else .error typeError

inductive Era
  | modern
  | handshake
  | mismatch
  deriving DecidableEq

/-- The protocol version that a message names. -/
def askedVersion (message : List (PyStr × JsonValue φ)) : Except McpRaised (JsonValue φ) := do
  let envelope ← attrGet (app.orDict (member message "params")) "_meta"
  let asked ← attrGet (app.orDict envelope) "io.modelcontextprotocol/protocolVersion"
  return orNull asked

/-- The era of a version. -/
def eraOf : JsonValue φ → Except McpRaised Era
  | .null => .ok .handshake
  | asked =>
    if asked.isText modernVersion then .ok .modern
    else (supported asked).map fun version => if version.isSome then .handshake else .mismatch

/-- `_era`. -/
def era (message : List (PyStr × JsonValue φ)) : Except McpRaised Era :=
  if (orNull (member message "method")).isText "server/discover" then .ok .modern
  else app.askedVersion message >>= eraOf

/-- `INVALID_REQUEST` and its like. -/
def parseError : ℤ := -32700
def invalidRequest : ℤ := -32600
def methodNotFound : ℤ := -32601
def invalidParams : ℤ := -32602
def internalError : ℤ := -32603
def unsupportedVersion : ℤ := -32022

/-- `_refuse`. -/
def refuse (code : ℤ) (message : PyStr) (status : ℕ) : McpResponse φ R :=
  .body status (some (.error .null code message))

/-- The reply has a JSON form in UTF-8. -/
def replyEncodes : Option (RpcReply φ R) → Bool
  | none => true
  | some (.result id value) => id.encodable && app.encodes value
  | some (.error id _ message) => id.encodable && decide message.Encodable

/-- `encode(reply)`. -/
def encoded (reply : Option (RpcReply φ R)) : Except McpRaised Unit :=
  if app.replyEncodes reply then .ok ()
  else .error (.raised (.plain ⟨"PydanticSerializationError", true⟩ (lit "surrogates not allowed")))

/-- A URI is a string. -/
def uriOf (value : JsonValue φ) : Except McpRaised PyStr :=
  match value with
  | .str s => .ok s
  | _ => .error attributeError

/-- The key of a dict. -/
def hashed (value : JsonValue φ) : Except McpRaised Unit := if value.hashable then .ok () else .error typeError

def sessionNeeded (session : Bool) (text : String) : Except McpRaised Unit :=
  if session then .ok () else .error (.capability (lit text))

/-- The branches of `_dispatch`; none for a method that is not known. -/
def perform (method : PyStr) (params : JsonValue φ) (session : Bool) : Except McpRaised (Option (RpcResult R)) :=
  if method = lit "initialize" then do
    let asked ← attrGet params "protocolVersion"
    let version ← supported (orNull asked)
    return some (.initialized (version.getD preferredVersion))
  else if method = lit "ping" then .ok (some .empty)
  else if method = lit "tools/list" then app.toolList.map fun r => some (.given r)
  else if method = lit "tools/call" then do
    let name ← attrGet params "name"
    hashed (orNull name)
    let arguments ← attrGet params "arguments"
    let r ← app.callTool name (app.orDict arguments)
    return some (.given r)
  else if method = lit "resources/list" then app.resourceList.map fun r => some (.given r)
  else if method = lit "resources/templates/list" then .ok (some .templates)
  else if method = lit "prompts/list" then .ok (some .prompts)
  else if method = lit "resources/read" then do
    let uri ← attrGet params "uri"
    let uri ← uriOf (uri.getD (.str []))
    let r ← app.readResource uri
    return some (.given r)
  else if method = lit "resources/subscribe" then do
    let uri ← attrGet params "uri"
    sessionNeeded session "subscribing needs a session"
    let uri ← uriOf (uri.getD (.str []))
    app.subscribe uri
    return some .empty
  else if method = lit "resources/unsubscribe" then do
    let uri ← attrGet params "uri"
    sessionNeeded session "unsubscribing needs a session"
    hashed (uri.getD (.str []))
    return some .empty
  else .ok none

/-- The text of an exception for the client. -/
def detail (e : PyError) : Except McpRaised PyStr :=
  match e.detail app.debug with
  | .ok text => .ok (text.getD (lit "internal error"))
  | .error e => .error (.raised e)

/-- What is made of the end of a branch. -/
def settled (request : Option (JsonValue φ)) (method : PyStr)
    (done : Except McpRaised (Option (RpcResult R))) : Except McpRaised (Option (RpcReply φ R)) :=
  match done with
  | .ok (some result) => .ok (request.map fun id => .result id result)
  | .ok none => .ok (request.map fun id => .error id methodNotFound (lit "unknown method " ++ app.repr (.str method)))
  | .error (.capability text) => .ok (request.map fun id => .error id invalidParams text)
  | .error (.raised e) => do
    let text ← app.detail e
    return request.map fun id => .error id internalError text

/-- The id of a request; a notification has none. -/
def requestId (message : List (PyStr × JsonValue φ)) : Option (JsonValue φ) :=
  match orNull (member message "id") with
  | .null => none
  | id => some id

/-- `_dispatch`. -/
def dispatch (message : List (PyStr × JsonValue φ)) (session : Bool) :
    Except McpRaised (Option (RpcReply φ R)) :=
  if (orNull (member message "jsonrpc")).isText "2.0" = false ∨ member message "method" = none then
    .ok (some (.error (orNull (member message "id")) invalidRequest (lit "not a JSON-RPC 2.0 request")))
  else
    match member message "method" with
    | some (.str method) =>
      if lit "notifications/" <+: method then .ok none
      else app.settled (requestId message) method (app.perform method (app.orDict (member message "params")) session)
    | _ => .error attributeError

/-- `_honored`. -/
def honored (asked : JsonValue φ) : Except McpRaised (List PyStr) := do
  let uris ← attrGet asked "resourceSubscriptions"
  match app.orDict uris with
  | .arr items => return items.filterMap fun item => match item with
    | .str s => some s
    | _ => none
  | .str s => return s.map fun c => [c]
  | .obj members => return members.map Prod.fst
  | _ => throw typeError

/-- The topics are resolved before the stream opens. -/
def resolveTopics : List PyStr → Except McpRaised Unit
  | [] => .ok ()
  | uri :: rest => do
    app.topic uri
    resolveTopics rest

/-- `listen`, of a request that has an id. -/
def listen (message : List (PyStr × JsonValue φ)) : Except McpRaised (McpResponse φ R) := do
  let notifications ← attrGet (app.orDict (member message "params")) "notifications"
  let uris ← app.honored (app.orDict notifications)
  app.resolveTopics uris
  return .stream uris

/-- `except CapabilityError` of `_modern`. -/
def refuseCapability (response : Except McpRaised (McpResponse φ R)) : Except McpRaised (McpResponse φ R) :=
  match response with
  | .error (.capability text) => .ok (refuse invalidParams text 400)
  | response => response

/-- `_modern`. -/
def modern (message : List (PyStr × JsonValue φ)) : Except McpRaised (McpResponse φ R) :=
  match requestId message with
  | none => .ok .accepted
  | some id =>
    if (orNull (member message "method")).isText "server/discover" then do
      app.encoded (some (.result id .discovered))
      return .body 200 (some (.result id .discovered))
    else if (orNull (member message "method")).isText "subscriptions/listen" then refuseCapability (app.listen message)
    else
      refuseCapability do
        let reply ← app.dispatch message false
        app.encoded reply
        return .body 200 reply

/-- The answer to a message that was dispatched on the handshake wire. -/
def answered (initializing : Bool) (reply : Option (RpcReply φ R)) : Except McpRaised (McpResponse φ R) :=
  match reply with
  | none => .ok .accepted
  | some reply =>
    match reply, initializing && !app.room with
    | .result _ _, true => .ok (refuse internalError (lit "too many sessions") 503)
    | reply, _ => do
      app.encoded (some reply)
      return .body 200 (some reply)

/-- The rest of `post`, for a message that is an object and of the handshake era. -/
def handshake (message : List (PyStr × JsonValue φ)) : Except McpRaised (McpResponse φ R) :=
  let initializing := (orNull (member message "method")).isText "initialize"
  if initializing then do
    let reply ← app.dispatch message false
    app.answered true reply
  else
    match app.lookup with
    | .missing => .ok (refuse invalidRequest (lit "missing MCP-Session-Id") 400)
    | .unknown => .ok (refuse invalidRequest (lit "unknown or expired session") 404)
    | .live => do
      let reply ← app.dispatch message true
      app.answered false reply

/-- `post`.  The body is none if it is not JSON. -/
def post (body : Option (JsonValue φ)) : Except McpRaised (McpResponse φ R) :=
  if app.originAllowed = false then .ok (refuse invalidRequest (lit "origin not allowed") 403)
  else
    match body with
    | none => .ok (refuse parseError (lit "invalid JSON") 400)
    | some (.arr _) => .ok (refuse invalidRequest (lit "batched requests are not supported") 400)
    | some (.obj message) => do
      match ← app.era message with
      | .mismatch => do
        let asked ← app.askedVersion message
        return .body 400 (some (.error (orNull (member message "id")) unsupportedVersion
          (lit "unsupported protocol version " ++ app.repr asked)))
      | .modern => app.modern message
      | .handshake => app.handshake message
    | some _ => .ok (refuse invalidRequest (lit "expected a JSON object") 400)

end McpApp

end Oxbrook
