import Mathlib.Algebra.Order.Group.Multiset
import Oxbrook.Replies.Wanted
import Oxbrook.Sessions.Session

/-!
# Sessions and their middleware

`Sessions` of `_sessions.py`.  All objects of this class share one context variable: `load` sets it to the session it
has read, and the middleware saves it, clears it, and after the request looks at what it holds.  A middleware writes
the cookie of a modified session as the header `set-cookie` of the reply.

A request is served by a chain of such middleware and of others, around a handler that loads sessions and works on
them.  Loaded sessions are numbered, since a session is an object: a handler can change one that the variable does
not hold any more.
-/

namespace Oxbrook

open Attempt PyStr

variable {ι κ ν α : Type} [DecidableEq κ] [DecidableEq α]

/-! ## The objects -/

/-- The settings of a `Sessions`.  A name that held `=` could not be read back from a `Cookie` header. -/
structure SessionsObject where
  cookie : String
  maxAge : ℤ
  secure : Bool
  sameSite : String
  path : String
  named : '=' ∉ cookie.toList

/-- The `Sessions` objects of an app and one request: `encode` is the signed form of the content of a session, and
`decoded` what `load` makes of the request's cookie. -/
structure SessionsWorld (ι κ ν : Type) where
  object : ι → SessionsObject
  encode : ι → OrderedDict κ ν → Except PyError String
  decoded : ι → OrderedDict κ ν

/-- `Sessions.cookie_header`. -/
def SessionsWorld.cookieHeader (w : SessionsWorld ι κ ν) (i : ι) (data : OrderedDict κ ν) : Except PyError String :=
  let self := w.object i
  (w.encode i data).map fun encoded =>
    "; ".intercalate
      ([self.cookie ++ "=" ++ encoded, "Path=" ++ self.path, "Max-Age=" ++ toString self.maxAge, "HttpOnly",
          "SameSite=" ++ self.sameSite] ++
        if self.secure then ["Secure"] else [])

/-! ## Replies -/

/-- A `Reply`, and the headers of the `Response` in it, if it holds one.  Headers are dicts. -/
structure DictReply (α : Type) where
  value : HandlerValue α
  status : PyArg α
  headers : OrderedDict (PyArg α) (HeaderEntry α)
  own : OrderedDict (PyArg α) (HeaderEntry α)
  own_response : ∀ r, value = .response r → r.headers = .dict own.items
  own_empty : (∀ r, value ≠ .response r) → own.items = []

namespace DictReply

def toReply (r : DictReply α) : ReplyValue α := ⟨r.value, r.status, .dict r.headers.items⟩

/-- `reply.headers[key] = value`. -/
def setHeader (r : DictReply α) (key : PyArg α) (value : PyArg α) : DictReply α :=
  { r with headers := r.headers.set key (.one value) }

end DictReply

/-- A header whose name is `Set-Cookie`, in any letter case. -/
def PyArg.isSetCookie : PyArg α → Bool
  | .str s => s.map (CodePoint.scalar? · |>.map Char.toLower) == "set-cookie".toList.map some
  | _ => false

/-- The headers that a reply is sent with.  Those of a stream are its own. -/
def Merged.pairs (m : Merged α) : List (PyArg α × PyArg α) :=
  match m.value with
  | .sse _ _ => []
  | .response r =>
    match r.headers with
    | .dict headers => (headerPairs headers).getD []
    | .other _ _ => []
  | _ => m.headers.getD []

/-- The values of the `Set-Cookie` headers among these. -/
def cookiesIn (pairs : List (PyArg α × PyArg α)) : Multiset (PyArg α) :=
  ↑((pairs.filter fun header => header.1.isSetCookie).map Prod.snd)

/-- The cookies that a reply sets. -/
def DictReply.cookies (r : DictReply α) : Multiset (PyArg α) :=
  match r.toReply.merge with
  | .ok m => cookiesIn m.pairs
  | .error _ => 0

/-! ## The context variable -/

/-- The sessions that were loaded, and which of them the context variable holds. -/
structure SessionVar (ι κ ν : Type) where
  loaded : List (ι × CookieSession κ ν)
  current : Option ℕ

/-- What a handler does with sessions: it loads one, or works on one that it has loaded. -/
inductive HandlerStep (ι κ ν : Type)
  | load (i : ι)
  | act (n : ℕ) (op : SessionOp κ ν)

namespace SessionsWorld

variable (w : SessionsWorld ι κ ν)

def handle (st : SessionVar ι κ ν) : HandlerStep ι κ ν → SessionVar ι κ ν
  | .load i => ⟨st.loaded ++ [(i, .new (w.decoded i))], some st.loaded.length⟩
  | .act n op => { st with loaded := st.loaded.modify n fun entry => (entry.1, entry.2.step op) }

def handleAll (st : SessionVar ι κ ν) (steps : List (HandlerStep ι κ ν)) : SessionVar ι κ ν :=
  steps.foldl w.handle st

/-- What the middleware does with the reply. -/
def writeBack (i : ι) (session : Option (ι × CookieSession κ ν)) (reply : DictReply α) :
    Except PyError (DictReply α) :=
  match session with
  | none => .ok reply
  | some entry =>
    if entry.2.modified then
      (w.cookieHeader i entry.2.data).map fun text => reply.setHeader (.text "set-cookie") (.text text)
    else .ok reply

end SessionsWorld

/-! ## A chain of middleware -/

/-- A middleware that may add cookies, and takes none away. -/
structure CookieMiddleware (α : Type) [DecidableEq α] where
  run : DictReply α → DictReply α
  keeps : ∀ r, r.cookies ≤ (run r).cookies

inductive SessionsLink (ι α : Type) [DecidableEq α]
  | sessions (i : ι)
  | other (middleware : CookieMiddleware α)

/-- A middleware of a `Sessions`. -/
def SessionsLink.isSessions : SessionsLink ι α → Bool
  | sessions _ => true
  | other _ => false

namespace SessionsWorld

variable (w : SessionsWorld ι κ ν)

/-- `Sessions.middleware`, around what the rest of the chain does with the handler's reply. -/
def serve (steps : List (HandlerStep ι κ ν)) (reply : DictReply α) :
    List (SessionsLink ι α) → SessionVar ι κ ν → Except PyError (DictReply α) × SessionVar ι κ ν
  | [], st => (.ok reply, w.handleAll st steps)
  | .other middleware :: rest, st =>
    let served := serve steps reply rest st
    (served.1.map middleware.run, served.2)
  | .sessions i :: rest, st =>
    let token := st.current
    let served := serve steps reply rest { st with current := none }
    let session := served.2.current.bind fun n => served.2.loaded[n]?
    (served.1 >>= w.writeBack i session, { served.2 with current := token })

/-- A request that nothing was loaded for. -/
def start : SessionVar ι κ ν := ⟨[], none⟩

/-- `Reply(None)`. -/
def plainReply : DictReply α where
  value := .none
  status := .none
  headers := .empty
  own := .empty
  own_response := by simp
  own_empty _ := rfl

end SessionsWorld

end Oxbrook
