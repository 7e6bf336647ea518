import Oxbrook.Limits.Proxies
import Oxbrook.Origins.Patterns

/-!
# Checks of an origin

Besides the CORS layer, three checks read the list of origins: that of a WebSocket handshake, that of a session
against forged requests, and that of the MCP endpoint against DNS rebinding.  Each of them also takes an origin that
names the host the request was sent to.
-/

namespace Oxbrook

/-! ## Headers -/

/-- The text of a value, if it is visible. -/
def HeaderValue.text (v : HeaderValue) : Option Text := v.toStr.map fun bytes => bytes.map Char.ofUInt8

/-- The bytes of a header value, each as a character. -/
def HeaderValue.raw (v : HeaderValue) : Text := v.bytes.map Char.ofUInt8

lemma HeaderValue.text_of_visible {v : HeaderValue} (h : v.Visible) : v.text = some v.raw := by
  rw [text, toStr, if_pos h]
  rfl

lemma HeaderValue.text_of_not_visible {v : HeaderValue} (h : ¬ v.Visible) : v.text = none := by
  rw [text, toStr, if_neg h]
  rfl

namespace HeaderMap

/-- `HeaderMap::get`: the first value. -/
def get (headers : HeaderMap) (name : String) : Option HeaderValue := (headers.getAll name).head?

/-- `Request.header`. -/
def header (headers : HeaderMap) (name : String) : Option Text := (headers.get name).bind HeaderValue.text

end HeaderMap

/-- `split(",")[0]`. -/
def firstItem (value : Text) : Text := value.takeWhile fun c => c ≠ ','

/-! ## WebSockets -/

structure SocketOrigins where
  any : Bool
  allowed : List Text × List Pattern

namespace SocketOrigins

/-- `SocketOrigins::build`. -/
def build (any : Bool) (origins : List Text) : SocketOrigins := ⟨any, splitOrigins origins⟩

/-- `named`. -/
def named (authority : Text) (value : Option Text) : Bool :=
  value.any fun host => withoutDefaultPort host none = authority

/-- An origin, in lower case, that names this server. -/
def namesServer (headers : HeaderMap) (origin : Text) : Bool :=
  match splitOnce origin "://".toList with
  | none => false
  | some (scheme, authority) =>
    let authority := withoutDefaultPort authority (some scheme)
    named authority (headers.header "host") ||
      named authority ((headers.header "x-forwarded-host").map firstItem)

/-- `SocketOrigins::permits`. -/
def permits (origins : SocketOrigins) (headers : HeaderMap) : Bool :=
  origins.any ||
    match headers.get "origin" with
    | none => true
    | some value =>
      match value.text with
      | none => false
      | some origin =>
        let origin := lowercase (strip origin)
        listed origins.allowed origin || namesServer headers origin

end SocketOrigins

/-! ## The settings -/

variable {py : Lowering}

/-- What an application and its `SessionAuth` are given. -/
structure OriginSettings (py : Lowering) where
  cors : Option (Cors py)
  websocketOrigins : Option (List Text)
  trustedOrigins : Option (List Text)

namespace OriginSettings

/-- CORS, and the rest as it is by default. -/
def default (cors : Cors py) : OriginSettings py := ⟨some cors, none, none⟩

/-- The configured origins but `*`. -/
def corsOrigins (settings : OriginSettings py) : List Text :=
  (settings.cors.elim [] Cors.allowOrigins).filter fun origin => origin ≠ ['*']

local instance lawfulOrigin : LawfulBEq Text := inferInstance

/-- `App._socket_origins`. -/
def socketOrigins (settings : OriginSettings py) : SocketOrigins :=
  let listed := settings.websocketOrigins.getD settings.corsOrigins
  SocketOrigins.build (['*'] ∈ listed) (listed.filter fun origin => origin ≠ ['*'])

/-! ## Sessions -/

/-- `_SAFE`. -/
def safeMethods : List String := ["GET", "HEAD", "OPTIONS"]

/-- `_authority`. -/
def authorityOf (py : Lowering) (value : Text) (scheme : Option Text) : Text :=
  let value := py.lower (strip value)
  let ports := [("http".toList, ":80".toList), ("https".toList, ":443".toList)].filter fun (default, _) =>
    scheme = none || scheme = some default
  (ports.findSome? fun (_, port) => value.dropSuffix? port).getD value

/-- The value of a header names an authority. -/
def namedBy (py : Lowering) (authority : Text) (value : Option Text) : Bool :=
  value.any fun value => value ≠ [] && authorityOf py (firstItem value) none = authority

/-- `_same_origin`. -/
def sameOrigin (py : Lowering) (origin : Text) (headers : HeaderMap) : Bool :=
  match splitOnce (py.lower (strip origin)) "://".toList with
  | none => false
  | some (scheme, authority) =>
    authority ≠ [] &&
      (namedBy py (authorityOf py authority (some scheme)) (headers.header "host") ||
        namedBy py (authorityOf py authority (some scheme)) (headers.header "x-forwarded-host"))

/-- `SessionAuth._trusted`. -/
def trusted (settings : OriginSettings py) : List Text :=
  settings.trustedOrigins.getD (settings.corsOrigins.map py.lower)

/-- `SessionAuth._forged`, for a session with the token `expected`: why the request might be forged. -/
def forged (settings : OriginSettings py) (method : String) (headers : HeaderMap) (expected : Option Text) :
    Option String :=
  let site := py.lower (strip ((headers.header "sec-fetch-site").getD []))
  if method ∈ safeMethods then none
  else if site = "same-origin".toList ∨ site = "none".toList then none
  else
    match headers.header "origin" with
    | some origin =>
      if sameOrigin py origin headers || py.lower (strip origin) ∈ settings.trusted then none
      else some "cross-origin request"
    | none =>
      if site ≠ [] then some (String.ofList site ++ " request without an origin")
      else if expected.any fun token => token ≠ [] && headers.header "x-csrf-token" = some token then none
      else some "no origin, and no CSRF token"

/-! ## MCP -/

/-- `MCP.origin_allowed`. -/
def originAllowed (settings : OriginSettings py) (headers : HeaderMap) : Bool :=
  match headers.header "origin" with
  | none => true
  | some origin =>
    settings.cors.any (fun cors => ['*'] ∈ cors.allowOrigins || origin ∈ cors.allowOrigins) ||
      (headers.header "host").any fun host => ((splitOnce origin "://".toList).elim [] Prod.snd) = host

end OriginSettings

end Oxbrook
