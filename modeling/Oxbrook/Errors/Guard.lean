import Mathlib.Data.List.Basic
import Oxbrook.Replies.Once

/-!
# Exceptions mapped to replies

`find` and `guard` of `_errors.py`, `_link` and `wrap` of `_middleware.py`, and `_layer` and `_compose` of `_app.py`.
A handler, an exception handler and a middleware are programs of `EStateM (Exc κ α) σ`: they may change the state of
the application, whatever it is, and raise.  A middleware is given its `call_next` and may call it as often as it
likes, or not at all, and may catch what it raises.

The guard around every link maps an exception that has a handler.  What the handler raises is mapped once more if it
is an `HTTPError`, and escapes otherwise.
-/

namespace Oxbrook

open Attempt PyStr

variable {κ α ρ σ : Type}

/-! ## Exceptions and their classes -/

inductive ExcClass (κ : Type)
  | httpError
  | requestValidationError
  | other (cls : κ)
  deriving DecidableEq

/-- What `_respond` tells exceptions apart by. -/
inductive ExcKind (α : Type)
  | invalid (body : PyArg α)
  | http (exc : HttpError α)
  | other (exc : PyError)

namespace ExcKind

def isHttp : ExcKind α → Bool
  | http _ => true
  | _ => false

def isInvalid : ExcKind α → Bool
  | invalid _ => true
  | _ => false

def outcome : ExcKind α → HandlerOutcome α
  | invalid body => .invalid body
  | http exc => .httpError exc
  | other exc => .raised exc

end ExcKind

/-- An exception, with the MRO of its class.  No class derives from both of the two that the library knows. -/
structure Exc (κ α : Type) where
  mro : List (ExcClass κ)
  kind : ExcKind α
  http_iff : .httpError ∈ mro ↔ kind.isHttp = true
  invalid_iff : .requestValidationError ∈ mro ↔ kind.isInvalid = true

/-! ## Programs of the application -/

/-- A handler, with its parameters bound. -/
abbrev Endpoint (κ α ρ σ : Type) := ρ → EStateM (Exc κ α) σ (Returned α)

abbrev ExcHandler (κ α ρ σ : Type) := ρ → Exc κ α → EStateM (Exc κ α) σ (Returned α)

abbrev CallNext (κ α ρ σ : Type) := ρ → EStateM (Exc κ α) σ (ReplyValue α)

abbrev Middleware (κ α ρ σ : Type) := CallNext κ α ρ σ → ρ → EStateM (Exc κ α) σ (Returned α)

/-- `as_reply`. -/
def asReply : Returned α → ReplyValue α
  | .value v => ⟨v, .none, .dict []⟩
  | .reply r => r

/-- `_link`. -/
def link (middleware : Middleware κ α ρ σ) (nxt : CallNext κ α ρ σ) : CallNext κ α ρ σ := fun request =>
  asReply <$> middleware nxt request

/-- A middleware that only calls the next. -/
def passThrough : Middleware κ α ρ σ := fun nxt request => Returned.reply <$> nxt request

/-- A check in front of what follows: `Gate.middleware`, and `shared_link` for limits. -/
def checkLink (check : ρ → EStateM (Exc κ α) σ Unit) : Middleware κ α ρ σ := fun nxt request => do
  check request
  Returned.reply <$> nxt request

/-- `Gate.wrap`. -/
def checkWrap (check : ρ → EStateM (Exc κ α) σ Unit) (target : Endpoint κ α ρ σ) : Endpoint κ α ρ σ := fun request => do
  check request
  target request

/-- What stands between the middleware of the app and that of the routers. -/
inductive RouteCheck (κ α ρ σ : Type)
  | free
  | shared (spend : ρ → EStateM (Exc κ α) σ Unit)
  | auth (check : ρ → EStateM (Exc κ α) σ Unit)

/-! ## The mapping -/

/-- The exception handlers of an app and of the routers of a route, and what they are given: `classes` is the MRO of
an exception that the JSON encoder raises, and `takeAfter` drops what a request has set aside for after its
response. -/
structure ErrorMapping (κ α ρ σ : Type) where
  host : PyHost α
  classes : PyError → List κ
  takeAfter : ρ → σ → σ
  app : List (ExcClass κ × ExcHandler κ α ρ σ)
  routed : List (ExcClass κ × ExcHandler κ α ρ σ)

namespace ErrorMapping

variable [DecidableEq κ] [DecidableEq α] (m : ErrorMapping κ α ρ σ)

/-- An exception of the encoder. -/
def encoderError (e : PyError) : Exc κ α where
  mro := (m.classes e).map .other
  kind := .other e
  http_iff := by simp [ExcKind.isHttp]
  invalid_iff := by simp [ExcKind.isInvalid]

/-- `_default_http_error`. -/
def defaultHttpError : ExcHandler κ α ρ σ := fun _ exc =>
  match exc.kind with
  | .http error =>
    match m.host.httpErrorBody error with
    | .ok body => pure (.value (.response ⟨.bytes body, .int error.status, problemType, .dict error.headers⟩))
    | .error e => throw (m.encoderError e)
  | _ => throw exc

/-- `_default_validation_error`. -/
def defaultValidationError : ExcHandler κ α ρ σ := fun _ exc =>
  match exc.kind with
  | .invalid body => pure (.value (.response ⟨body, .int 422, problemType, .dict []⟩))
  | _ => throw exc

/-- `DEFAULT_HANDLERS`. -/
def defaultHandlers : ExcClass κ → Option (ExcHandler κ α ρ σ)
  | .httpError => some m.defaultHttpError
  | .requestValidationError => some defaultValidationError
  | .other _ => none

/-- `App._handlers`. -/
def handlers (cls : ExcClass κ) : Option (ExcHandler κ α ρ σ) :=
  m.routed.lookup cls <|> m.app.lookup cls <|> m.defaultHandlers cls

def mapped : Bool := !(m.app.isEmpty && m.routed.isEmpty)

/-- `find`. -/
def find (exc : Exc κ α) : Option (ExcHandler κ α ρ σ) := exc.mro.findSome? m.handlers

/-- An exception handler runs; an `HTTPError` that it raises is mapped, once. -/
def settle (handler : ExcHandler κ α ρ σ) (request : ρ) (exc : Exc κ α) : EStateM (Exc κ α) σ (Returned α) :=
  tryCatch (handler request exc) fun answer =>
    if answer.kind.isHttp then
      match m.find answer with
      | none => throw answer
      | some fallback => fallback request answer
    else throw answer

/-- `guard`. -/
def guard (target : Endpoint κ α ρ σ) : Endpoint κ α ρ σ := fun request =>
  tryCatch (target request) fun exc =>
    match m.find exc with
    | none => throw exc
    | some handler => do
      modify (m.takeAfter request)
      m.settle handler request exc

/-- `around`, of `_layer`. -/
def around (call : CallNext κ α ρ σ) : CallNext κ α ρ σ := fun request =>
  asReply <$> m.guard (fun request => Returned.reply <$> call request) request

/-- What `wrap` builds around a guarded target, from the inside out. -/
def calls (target : Endpoint κ α ρ σ) (chain : List (Middleware κ α ρ σ)) : CallNext κ α ρ σ :=
  chain.foldr (fun middleware call => m.around (link middleware call)) fun request =>
    asReply <$> m.guard target request

/-- `App._layer`. -/
def layer (target : Endpoint κ α ρ σ) (chain : List (Middleware κ α ρ σ)) : Endpoint κ α ρ σ :=
  if chain.isEmpty then m.guard target else fun request => Returned.reply <$> m.calls target chain request

/-- `App._compose`, for a route that is served over HTTP. -/
def compose (target : Endpoint κ α ρ σ) (outer inner : List (Middleware κ α ρ σ)) :
    RouteCheck κ α ρ σ → Endpoint κ α ρ σ
  | .free => if (outer ++ inner).isEmpty && !m.mapped then target else m.layer target (outer ++ inner)
  | .shared spend => m.layer target (outer ++ checkLink spend :: inner)
  | .auth check =>
    if (outer ++ inner).isEmpty && !m.mapped then checkWrap check target
    else m.layer target (outer ++ checkLink check :: inner)

/-- The chain of a route, its check included. -/
def chain (outer inner : List (Middleware κ α ρ σ)) : RouteCheck κ α ρ σ → List (Middleware κ α ρ σ)
  | .free => outer ++ inner
  | .shared check => outer ++ checkLink check :: inner
  | .auth check => outer ++ checkLink check :: inner

end ErrorMapping

/-! ## Answers -/

def outcomeOf : EStateM.Result (Exc κ α) σ (Returned α) → HandlerOutcome α
  | .ok result _ => .returned result
  | .error exc _ => exc.kind.outcome

/-- What the responder was handed by then. -/
def repliesOf {β : Type} : EStateM.Result PyError Responder β → List HandlerReply
  | .ok _ s => s.replies
  | .error _ s => s.replies

/-- The replies to a request. -/
def PyHost.answer [DecidableEq α] (host : PyHost α) (debug kept : Bool) (target : Endpoint κ α ρ σ) (request : ρ)
    (s : σ) : List HandlerReply :=
  repliesOf ((host.respond debug (outcomeOf ((target request).run s))).run (.new kept))

end Oxbrook
