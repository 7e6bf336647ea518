import Oxbrook.Events.Format
import Oxbrook.Foundation.Attempts
import Oxbrook.Limits.Proxies
import Oxbrook.Routing.Head

/-!
# From a handler to its reply

`run_handler` of `_runtime.py`, with what it calls: the responder, which takes one reply and refuses what HTTP cannot
carry, the shapes a handler may return, the exceptions it may raise, and the `500` that stands in for a reply that
could not be sent.

Each of these steps may raise, and each `except` clause catches its own set of exceptions.  A program here is one of
`EStateM PyError Responder`, so that an exception that nothing catches is a result of `runHandler` like any other.
Cancellation is not among the outcomes.
-/

namespace Oxbrook

open Attempt PyStr

/-! ## Exceptions -/

structure PyClass where
  name : String
  /-- `issubclass(cls, ValueError)`. -/
  valueError : Bool
  deriving DecidableEq

/-- An exception.  The `__str__` of one that is `mute` raises another. -/
inductive PyError
  | plain (cls : PyClass) (text : PyStr)
  | mute (cls : PyClass) (raised : PyError)
  deriving DecidableEq

namespace PyError

def cls : PyError → PyClass
  | plain cls _ => cls
  | mute cls _ => cls

def isValueError (e : PyError) : Bool := e.cls.valueError

/-- `str(exc)`. -/
def text : PyError → Except PyError PyStr
  | plain _ text => .ok text
  | mute _ raised => .error raised

/-- `f"{type(exc).__name__}: {exc}"`. -/
def described (e : PyError) : Except PyError PyStr :=
  e.text.map fun text => lit (e.cls.name ++ ": ") ++ text

/-- The `detail` of a `500`. -/
def detail (debug : Bool) (e : PyError) : Except PyError (Option PyStr) :=
  if debug then e.described.map some else .ok none

/-- `PyValueError::new_err`. -/
def valueError (text : String) : PyError := .plain ⟨"ValueError", true⟩ (lit text)

/-- `PyRuntimeError::new_err`. -/
def runtimeError (text : String) : PyError := .plain ⟨"RuntimeError", false⟩ (lit text)

end PyError

/-! ## Values -/

variable {α : Type}

/-- A value of Python, as far as the runtime tells one from another. -/
inductive PyArg (α : Type)
  | none
  | str (s : PyStr)
  | int (n : ℤ)
  | bytes (b : List UInt8)
  | object (x : α)
  deriving DecidableEq

namespace PyArg

def text (s : String) : PyArg α := .str (lit s)

def isStr : PyArg α → Bool
  | str _ => true
  | _ => false

/-- A `str` that can be encoded, or an `int`. -/
def Plain : PyArg α → Prop
  | str s => s.Encodable
  | int _ => True
  | _ => False

end PyArg

/-- `dict.update`, for dicts with distinct keys in the order of their insertion. -/
def dictUpdate {κ ν : Type} [DecidableEq κ] (base extra : List (κ × ν)) : List (κ × ν) :=
  extra.foldl
    (fun dict item =>
      if item.1 ∈ dict.map Prod.fst then dict.map fun old => if old.1 = item.1 then item else old
      else dict ++ [item])
    base

/-- A value in a dict of headers. -/
inductive HeaderEntry (α : Type)
  | one (value : PyArg α)
  /-- A list or tuple. -/
  | many (values : List (PyArg α))

abbrev HeaderDict (α : Type) := List (PyArg α × HeaderEntry α)

/-- `header_pairs`, of a dict. -/
def headerPairs (headers : HeaderDict α) : Option (List (PyArg α × PyArg α)) :=
  if headers.isEmpty then none
  else
    some (headers.flatMap fun header =>
      match header.2 with
      | .one value => [(header.1, value)]
      | .many values => values.map fun value => (header.1, value))

/-- What stands where headers are expected: a dict, or something that raises if it is used as one. -/
inductive HeadersArg (α : Type)
  | dict (headers : HeaderDict α)
  | other (falsy : Bool) (raised : PyError)

namespace HeadersArg

/-- `header_pairs`. -/
def pairs : HeadersArg α → Except PyError (Option (List (PyArg α × PyArg α)))
  | dict headers => .ok (headerPairs headers)
  | other falsy raised => if falsy then .ok none else .error raised

def asDict : HeadersArg α → Except PyError (HeaderDict α)
  | dict headers => .ok headers
  | other _ raised => .error raised

end HeadersArg

/-- `Response`. -/
structure ResponseValue (α : Type) where
  body : PyArg α
  status : PyArg α
  contentType : PyArg α
  headers : HeadersArg α

/-- What a handler returns, or a `Reply` holds, by the branch of `_respond` that it takes. -/
inductive HandlerValue (α : Type)
  /-- An `SSE`, with what `pump_sse` raises once the stream has started. -/
  | sse (status : PyArg α) (pumped : Except PyError Unit)
  | response (r : ResponseValue α)
  | none
  | model (m : α)
  /-- A `bytes`, `bytearray` or `memoryview`. -/
  | buffer (b : PyArg α)
  | text (s : PyStr)
  | other (v : PyArg α)

/-- `Reply`. -/
structure ReplyValue (α : Type) where
  value : HandlerValue α
  status : PyArg α
  headers : HeadersArg α

inductive Returned (α : Type)
  | value (v : HandlerValue α)
  | reply (r : ReplyValue α)

/-- `HTTPError`, as its constructor leaves it. -/
structure HttpError (α : Type) where
  status : ℕ
  detail : Option PyStr
  type : PyArg α
  title : PyArg α
  instanceUri : PyArg α
  extensions : List (PyArg α × PyArg α)
  headers : HeaderDict α
  isError : 400 ≤ status ∧ status ≤ 599

/-- How a handler ends, other than by being cancelled. -/
inductive HandlerOutcome (α : Type)
  | returned (result : Returned α)
  /-- `RequestValidationError`. -/
  | invalid (body : PyArg α)
  | httpError (exc : HttpError α)
  | raised (exc : PyError)

/-- Work for after the response: how it ends, and the name that the log has for it if it raises. -/
structure AfterWork where
  ended : Except PyError Unit
  name : Except PyError String

/-! ## What the runtime is given -/

/-- Why the bindings do not take an argument. -/
inductive Refusal (α : Type)
  | mismatch (argument : String) (value : PyArg α)
  | overflow (n : ℤ)
  | surrogates (s : PyStr)

/-- `UnicodeEncodeError` is a `ValueError`; `TypeError` and `OverflowError` are not. -/
def Refusal.valueError : Refusal α → Bool
  | surrogates _ => true
  | _ => false

/-- Python and its bindings.  `index` is `__index__`, `toBytes` is `bytes`, `toJson` the serializer of a model,
`encode` the JSON encoder, `depythonize` the one of `send_json`, `phrase` the table of `http.HTTPStatus` and
`debugStr` the debug format of a string in Rust. -/
structure PyHost (α : Type) where
  truthy : α → Bool
  index : α → Except PyError ℤ
  toBytes : PyArg α → Except PyError (List UInt8)
  toJson : α → Except PyError (List UInt8)
  encode : PyArg α → Except PyError (List UInt8)
  encodeDict : List (PyArg α × PyArg α) → Except PyError (List UInt8)
  depythonize : PyArg α → Except PyError (List UInt8)
  refused : Refusal α → PyError
  phrase : ℕ → Option String
  debugStr : String → String
  /-- Texts and numbers have a JSON form. -/
  encodeDict_plain : ∀ members, (∀ m ∈ members, m.1.Plain ∧ m.2.Plain) → ∃ body, encodeDict members = .ok body
  refused_text : ∀ refusal, ∃ text, (refused refusal).text = .ok text ∧ text.Encodable
  refused_isValueError : ∀ refusal, (refused refusal).isValueError = refusal.valueError

namespace PyHost

variable (host : PyHost α)

/-! ## Arguments -/

/-- `a or b`. -/
def orElse (value default : PyArg α) : PyArg α :=
  match value with
  | .none => default
  | .str s => if s = [] then default else .str s
  | .int n => if n = 0 then default else .int n
  | .bytes b => if b = [] then default else .bytes b
  | .object x => if host.truthy x then .object x else default

def toU16 (n : ℤ) : Except PyError ℕ :=
  if 0 ≤ n ∧ n < 65536 then .ok n.toNat else .error (host.refused (.overflow n))

/-- An argument of type `u16`. -/
def statusArg : PyArg α → Except PyError ℕ
  | .int n => host.toU16 n
  | .object x => host.index x >>= host.toU16
  | value => .error (host.refused (.mismatch "status" value))

/-- An argument of type `&str`, or a `String` in one. -/
def strArg (argument : String) : PyArg α → Except PyError String
  | .str s => if s.Encodable then .ok (String.ofList s.scalars) else .error (host.refused (.surrogates s))
  | value => .error (host.refused (.mismatch argument value))

/-- An argument of type `&[u8]`. -/
def bytesArg : PyArg α → Except PyError (List UInt8)
  | .bytes b => .ok b
  | value => .error (host.refused (.mismatch "body" value))

def pairArg (header : PyArg α × PyArg α) : Except PyError (String × String) := do
  let name ← host.strArg "headers" header.1
  let value ← host.strArg "headers" header.2
  return (name, value)

def headersArg : List (PyArg α × PyArg α) → Except PyError Headers
  | [] => .ok []
  | header :: rest => do
    let first ← host.pairArg header
    let others ← headersArg rest
    return first :: others

/-! ## Encoders -/

/-- `str.encode`. -/
def encodeStr (s : PyStr) : Except PyError (List UInt8) :=
  if s.Encodable then .ok (String.ofList s.scalars).toUTF8.data.toList else .error (host.refused (.surrogates s))

/-- `Response.encoded`. -/
def encoded (r : ResponseValue α) : Except PyError (List UInt8) :=
  match r.body with
  | .str s => host.encodeStr s
  | body => host.toBytes body

/-- `status_title`. -/
def statusTitle (status : ℕ) : String := (host.phrase status).getD "Error"

/-- `problem`. -/
def problem [DecidableEq α] (status : ℕ) (detail type title instanceUri : PyArg α)
    (extensions : List (PyArg α × PyArg α)) : Except PyError (List UInt8) :=
  let title := if title = .none then .text (host.statusTitle status) else title
  host.encodeDict (dictUpdate
    ([(.text "type", type), (.text "title", title), (.text "status", .int status)] ++
      (if detail = .none then [] else [(.text "detail", detail)]) ++
      (if instanceUri = .none then [] else [(.text "instance", instanceUri)]))
    extensions)

/-- `problem(500, detail)`. -/
def serverError [DecidableEq α] (detail : Option PyStr) : Except PyError (List UInt8) :=
  host.problem 500 (detail.elim .none .str) (.text "about:blank") .none .none []

/-- `http_error_body`. -/
def httpErrorBody [DecidableEq α] (exc : HttpError α) : Except PyError (List UInt8) :=
  host.problem exc.status (exc.detail.elim .none .str) exc.type exc.title exc.instanceUri exc.extensions

end PyHost

/-! ## The responder -/

/-- The bytes of a header's name. -/
def tokenByte (b : UInt8) : Bool :=
  (48 ≤ b && b ≤ 57) || (65 ≤ b && b ≤ 90) || (97 ≤ b && b ≤ 122) ||
    "!#$%&'*+-.^_`|~".toUTF8.data.contains b

/-- `HeaderName::from_bytes` succeeds. -/
def validName (name : String) : Bool :=
  0 < name.utf8ByteSize && name.utf8ByteSize < 65536 && name.toUTF8.data.all tokenByte

/-- `HeaderValue::from_str` succeeds. -/
def validValue (value : String) : Bool := value.toUTF8.data.all headerByte

/-- A `Responder`: whether its sender is taken, what was sent through it, whether work was left for after the
response, and whether its slot was released. -/
structure Responder where
  taken : Bool
  replies : List HandlerReply
  kept : Bool
  released : Bool

def Responder.new (kept : Bool) : Responder := ⟨false, [], kept, false⟩

def ReplyBody.isFull : ReplyBody → Bool
  | full _ => true
  | stream => false

/-- The sender is taken and the reply sent.  One that is complete releases the slot. -/
def Responder.hand (reply : HandlerReply) (s : Responder) : Responder :=
  { s with
    taken := true
    replies := s.replies ++ [reply]
    released := s.released || (reply.body.isFull && !s.kept) }

abbrev Attempted := EStateM PyError Responder

namespace PyHost

variable (host : PyHost α)

def checkHeader (header : String × String) : Except PyError Unit :=
  if validName header.1 = false then
    .error (.valueError ("response header name " ++ host.debugStr header.1 ++ " is not a valid header name"))
  else if validValue header.2 = false then
    .error (.valueError ("the value of response header " ++ host.debugStr header.1 ++
      " is not valid: a newline or another control character, most likely"))
  else .ok ()

def checkHeaders : Headers → Except PyError Unit
  | [] => .ok ()
  | header :: rest => do
    host.checkHeader header
    checkHeaders rest

/-- `check`. -/
def check (reply : HandlerReply) : Except PyError Unit :=
  if ¬(100 ≤ reply.status ∧ reply.status ≤ 599) then
    .error (.valueError ("response status " ++ toString reply.status ++ " is not an HTTP status (100-599)"))
  else if validValue reply.contentType = false then
    .error (.valueError "the response's content type is not a valid header value")
  else host.checkHeaders reply.headers

/-- `Responder::deliver`. -/
def deliver (reply : HandlerReply) : Attempted Unit := do
  lift (host.check reply)
  let s ← get
  if s.taken then throw (.runtimeError "response already sent")
  set (s.hand reply)

/-- The arguments of `send`. -/
structure SendArgs (α : Type) where
  status : PyArg α
  contentType : PyArg α
  body : PyArg α
  headers : Option (List (PyArg α × PyArg α))

/-- What `send` makes of its arguments. -/
def fullReply (args : SendArgs α) : Except PyError HandlerReply := do
  let status ← host.statusArg args.status
  let contentType ← host.strArg "content_type" args.contentType
  let body ← host.bytesArg args.body
  let headers ← host.headersArg (args.headers.getD [])
  return ⟨status, contentType, headers, .full body⟩

/-- `Responder::send`. -/
def send (args : SendArgs α) : Attempted Unit := do
  let reply ← lift (host.fullReply args)
  host.deliver reply

/-- `Responder::send_json`. -/
def sendJson (status : ℕ) (value : PyArg α) : Attempted Unit := do
  let body ← lift (host.depythonize value)
  host.deliver ⟨status, "application/json", [], .full body⟩

/-- `SSE_HEADERS`. -/
def sseHeaders : Headers :=
  [("cache-control", "no-cache"), ("connection", "keep-alive"), ("x-accel-buffering", "no")]

/-- What `start_stream` makes of the status of an `SSE`. -/
def streamReply (status : PyArg α) : Except PyError HandlerReply := do
  let status ← host.statusArg status
  return ⟨status, "text/event-stream; charset=utf-8", sseHeaders, .stream⟩

end PyHost

def Responder.finish : Attempted Unit := modify fun s => { s with released := true }

def Responder.finishOrKeep : Attempted Bool := do
  let s ← get
  if s.kept then return true
  Responder.finish
  return false

/-! ## The runtime -/

/-- `PROBLEM`. -/
def problemType : PyArg α := .text "application/problem+json"

/-- What `_respond` sends: the value, the status that overrides its own, and the headers added to it. -/
structure Merged (α : Type) where
  value : HandlerValue α
  status : PyArg α
  headers : Option (List (PyArg α × PyArg α))

section

variable [DecidableEq α]

/-- `merge`. -/
def ReplyValue.merge (reply : ReplyValue α) : Except PyError (Merged α) := do
  let headers ← reply.headers.asDict
  match reply.value with
  | .response r =>
    let own ← r.headers.asDict
    let status := if reply.status = .none then r.status else reply.status
    return ⟨.response ⟨r.body, status, r.contentType, .dict (dictUpdate own headers)⟩, .none, none⟩
  | value => return ⟨value, reply.status, headerPairs headers⟩

def Returned.merged : Returned α → Except PyError (Merged α)
  | value v => .ok ⟨v, .none, none⟩
  | reply r => r.merge

/-- Nothing overrides the status or adds a header. -/
def Merged.Bare (m : Merged α) : Prop := m.status = .none ∧ m.headers = none

instance (m : Merged α) : Decidable m.Bare := inferInstanceAs (Decidable (_ ∧ _))

namespace PyHost

variable (host : PyHost α)

/-- The arguments that a `Response` is sent with. -/
def responseArgs (r : ResponseValue α) : Except PyError (SendArgs α) := do
  let body ← host.encoded r
  let headers ← r.headers.pairs
  return ⟨r.status, r.contentType, .bytes body, headers⟩

/-- The arguments that a body made by an encoder is sent with. -/
def bodyArgs (m : Merged α) (contentType : String) (body : Except PyError (List UInt8)) :
    Except PyError (SendArgs α) :=
  body.map fun b => ⟨host.orElse m.status (.int 200), .text contentType, .bytes b, m.headers⟩

/-- The last branch of `_respond`: the fast encoder, and the general one if it fails. -/
def sendOther (v : PyArg α) : Attempted Unit :=
  tryCatch (host.sendJson 200 v) fun _ => do
    let body ← lift (host.encode v)
    host.send ⟨.int 200, .text "application/json", .bytes body, none⟩

/-- `pump_sse`, which starts the stream before anything else. -/
def pumpSse (status : PyArg α) (pumped : Except PyError Unit) : Attempted Unit := do
  let reply ← lift (host.streamReply status)
  host.deliver reply
  lift pumped

def sendArgs (args : Except PyError (SendArgs α)) : Attempted Unit := do
  let args ← lift args
  host.send args

/-- The reply to what a handler returned. -/
def sendMerged (m : Merged α) : Attempted Unit :=
  match m.value with
  | .sse status pumped => host.pumpSse status pumped
  | .response r => host.sendArgs (host.responseArgs r)
  | .none => host.send ⟨host.orElse m.status (.int 204), .text "text/plain", .bytes [], m.headers⟩
  | .model x => host.sendArgs (host.bodyArgs m "application/json" (host.toJson x))
  | .buffer b => host.sendArgs (host.bodyArgs m "application/octet-stream" (host.toBytes b))
  | .text s => host.sendArgs (host.bodyArgs m "text/plain; charset=utf-8" (host.encodeStr s))
  | .other v =>
    if m.Bare then host.sendOther v
    else host.sendArgs (host.bodyArgs m "application/json" (host.encode v))

def sendResult (result : Returned α) : Attempted Unit := do
  let m ← lift result.merged
  host.sendMerged m

/-- The `500` of a crash, or of a reply that could not be sent. -/
def sendServerError (detail : Option PyStr) : Attempted Unit := do
  let body ← lift (host.serverError detail)
  host.send ⟨.int 500, problemType, .bytes body, none⟩

/-- `_unsendable`. -/
def unsendable (debug : Bool) (e : PyError) : Attempted Unit := do
  let detail ← lift (e.detail debug)
  tryCatch (host.sendServerError detail) fun _ => pure ()

def sendHttpError (exc : HttpError α) : Attempted Unit := do
  let body ← lift (host.httpErrorBody exc)
  host.send ⟨.int exc.status, problemType, .bytes body, headerPairs exc.headers⟩

/-- `_respond`. -/
def respond (debug : Bool) : HandlerOutcome α → Attempted Bool
  | .invalid body => do
    host.send ⟨.int 422, problemType, body, none⟩
    return false
  | .httpError exc => do
    tryCatch (host.sendHttpError exc) fun refused =>
      if refused.isValueError then host.unsendable debug refused else throw refused
    return false
  | .raised exc => do
    let detail ← lift (exc.detail debug)
    host.sendServerError detail
    return false
  | .returned result =>
    tryCatch
      (do
        host.sendResult result
        return true)
      fun e => do
        host.unsendable debug e
        return false

/-- `run_after`. -/
def runAfter : List AfterWork → Attempted Unit
  | [] => pure ()
  | work :: rest => do
    tryCatch (lift work.ended) fun _ => do
      let _ ← lift work.name
    runAfter rest

/-- `run_handler`, from the end of the handler on. -/
def runHandler (debug : Bool) (after : List AfterWork) (outcome : HandlerOutcome α) : Attempted Unit := do
  let answered ← tryCatch (host.respond debug outcome) fun e => do
    Responder.finish
    throw e
  let kept ← Responder.finishOrKeep
  if kept then
    tryCatch (if answered then runAfter after else pure ()) fun e => do
      Responder.finish
      throw e
    Responder.finish

end PyHost

end

end Oxbrook
