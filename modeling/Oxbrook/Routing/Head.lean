import Oxbrook.Routing.Router

/-!
# HEAD as GET

`handle` of `src/server.rs` up to the response it returns: routing, limits, the answers that are made without a
worker, and the reply of a handler.  A HEAD request that matches no route of its own is routed a second time as GET,
and the two results are merged.

The merge keeps the error of the first attempt: a GET that fails on a parameter is 422, and HEAD for the same target
is 405.  `head_answers_as_get_iff` says that this is the only difference.
-/

namespace Oxbrook

variable {F L : Type*}

/-! ## Headers -/

/-- Headers in the order they were added, with their names in lower case. -/
abbrev Headers := List (String × String)

/-- `HeaderMap::insert`. -/
def setHeader (name value : String) (headers : Headers) : Headers :=
  headers.filter (fun header => header.1 ≠ name) ++ [(name, value)]

def trimmed (text : List Char) : List Char :=
  ((text.dropWhile Char.isWhitespace).reverse.dropWhile Char.isWhitespace).reverse

/-- A value of `Vary` that covers `Accept-Encoding`. -/
def coversEncoding (value : String) : Bool :=
  (value.toList.splitOn ',').any fun item =>
    trimmed item = ['*'] || (trimmed item).map Char.toLower = "accept-encoding".toList

/-- `vary`. -/
def vary (headers : Headers) : Headers :=
  if headers.any fun header => header.1 = "vary" && coversEncoding header.2 then headers
  else headers ++ [("vary", "Accept-Encoding")]

/-- `weaken_etag`. -/
def weakenEtag (headers : Headers) : Headers :=
  match headers.lookup "etag" with
  | some tag => if tag.startsWith "W/" then headers else setHeader "etag" ("W/" ++ tag) headers
  | none => headers

/-- Whether a reply is compressed, and with what. -/
inductive Plan
  | skip
  | identity
  | encode (token : String)

/-- `encoded`. -/
def Plan.encoded (headers : Headers) : Plan → Headers
  | .skip => headers
  | .identity => vary headers
  | .encode token => weakenEtag (vary (setHeader "content-encoding" token headers))

def Plan.encodes : Plan → Bool
  | .encode _ => true
  | _ => false

/-! ## Requests and responses -/

structure HttpRequest where
  method : String
  path : String
  query : Option String
  /-- An HTTP/2 handshake of a WebSocket. -/
  connect : Bool
  /-- There is no body, so none is deferred. -/
  endStream : Bool

/-- Problem details. -/
structure Problem where
  detail : Option String
  errors : Option ParamError

inductive ResponseBody
  | empty
  | bytes (bytes : List UInt8)
  | stream
  | problem (problem : Problem)

structure HttpResponse where
  status : ℕ
  headers : Headers
  body : ResponseBody

/-- `problem::response` and `problem::with_body`. -/
def problemResponse (status : ℕ) (detail : Option String) (errors : Option ParamError) (headers : Headers) :
    HttpResponse :=
  ⟨status, ("content-type", "application/problem+json") :: headers, .problem ⟨detail, errors⟩⟩

inductive ReplyBody
  | full (bytes : List UInt8)
  | stream

structure HandlerReply where
  status : ℕ
  contentType : String
  headers : Headers
  body : ReplyBody

/-- How the wait for a handler ends. -/
inductive Replied
  | timedOut
  | dropped
  | reply (reply : HandlerReply)

/-- How reading a body ends. -/
inductive Collected
  | complete
  | tooLarge
  | failed

/-- What becomes of a request past its routing: whether its connection has room, how its body ends, whether a worker
takes it and what the handler replies. -/
structure Fate where
  reserved : Bool
  collected : Collected
  enqueued : Bool
  replied : Replied

/-- What is given of a server beside its router.  `take` is the answer of a limit, with those already charged for
this request; `static` and `upgrade` are the answers of a mount and of a WebSocket handshake; `plan` and
`compress` are the compression; `acceptable` says which headers `hyper` takes. -/
structure Server (F L : Type*) extends Decoders F where
  router : Router
  appLimit : Option L
  routeLimits : ℕ → Option (Option L × Bool × Bool)
  byPrincipal : L → Bool
  take : List L → L → Option ℕ
  static : ℕ → Option String → HttpResponse
  upgrade : Matched F → HttpResponse
  plan : HandlerReply → Plan
  compress : List UInt8 → List UInt8
  acceptable : String × String → Bool

/-- What `handle` does with a request: the route it is counted under, the limits it is charged to, what a worker is
given, and the response. -/
structure Handled (F L : Type*) where
  label : Option ℕ
  charged : List L
  dispatched : Option (Matched F)
  response : HttpResponse

namespace Server

variable (s : Server F L)

/-! ## Routing and limits -/

/-- The route of a request.  A HEAD that finds none is tried as GET, which may not open a socket; if that fails the
result of the first attempt stands. -/
def route (request : HttpRequest) : Except RouteError (Matched F) :=
  let head := request.method = "HEAD"
  let method := if request.connect then "GET" else request.method
  let found := s.router.find s.toDecoders method request.path request.query
  let again : Except RouteError (Matched F) :=
    match s.router.find s.toDecoders "GET" request.path request.query with
    | .ok matched => if (s.router.specs matched.route).websocket then found else .ok matched
    | .error _ => found
  match found with
  | .error .notFound => if head then again else found
  | .error (.methodNotAllowed _) => if head then again else found
  | _ => found

/-- The route a result is counted and limited under. -/
def index : Except RouteError (Matched F) → Option ℕ
  | .ok matched => some matched.route
  | .error (.badParam route _) => some route
  | .error _ => none

/-- `State::limited`: the limits charged, and how long to wait if one refuses. -/
def limited (route : Option ℕ) : List L × Option ℕ :=
  let (own, exempt, gated) := (route.bind s.routeLimits).getD (none, false, false)
  let here (limit : L) : Bool := ! (gated && s.byPrincipal limit)
  let app := s.appLimit.filter fun limit => ! exempt && here limit
  let charge (charged : List L) (limit : Option L) : List L × Option ℕ :=
    match limit with
    | some limit => (charged ++ [limit], s.take charged limit)
    | none => (charged, none)
  match charge [] app with
  | (charged, some wait) => (charged, some wait)
  | (charged, none) => charge charged (own.filter here)

/-! ## Answers -/

/-- `limit::refused`. -/
def refused (wait : ℕ) : HttpResponse :=
  problemResponse 429 (some "rate limit exceeded") none
    [("retry-after", toString (max 1 ((wait + 999999999) / 1000000000)))]

def overloaded : HttpResponse := problemResponse 503 (some "server overloaded") none [("retry-after", "1")]

/-- `limited(&mut reply)`: the mark of a refused limit is taken off. -/
def unmarked (reply : HandlerReply) : HandlerReply :=
  if reply.status = 429 then
    { reply with headers := reply.headers.filter fun header =>
        header.1.toList.map Char.toLower ≠ "x-oxbrook-limited".toList }
  else reply

/-- The response that `builder` makes, if `hyper` takes the headers of the handler. -/
def built (reply : HandlerReply) (lengths : Headers) (plan : Plan) (body : ResponseBody) : HttpResponse :=
  if s.acceptable ("content-type", reply.contentType) && reply.headers.all s.acceptable then
    let headers := reply.headers.map fun header => (String.ofList (header.1.toList.map Char.toLower), header.2)
    ⟨reply.status, plan.encoded (("content-type", reply.contentType) :: lengths ++ headers), body⟩
  else problemResponse 500 (some "bad response header") none []

/-- The response made of the reply of a handler. -/
def answered (head : Bool) (reply : HandlerReply) : HttpResponse :=
  let reply := unmarked reply
  let plan := match reply.body with
    | .full _ => s.plan reply
    | .stream => .skip
  if head then
    let length := match reply.body with
      | .full bytes => bytes.length
      | .stream => 0
    s.built reply (if plan.encodes then [] else [("content-length", toString length)]) plan .empty
  else
    let body : ResponseBody := match reply.body with
      | .full bytes => .bytes (if plan.encodes then s.compress bytes else bytes)
      | .stream => .stream
    s.built reply [] plan body

/-- The answer of a mount: `respond` reads no file for a HEAD. -/
def served (head : Bool) (mount : ℕ) (file : Option String) : HttpResponse :=
  let response := s.static mount file
  match response.body with
  | .problem _ => response
  | _ => if head then { response with body := .empty } else response

/-- A request with a route: what a worker is given of it, and the response. -/
def matchedAnswer (head : Bool) (request : HttpRequest) (fate : Fate) (matched : Matched F) :
    Option (Matched F) × HttpResponse :=
  let spec := s.router.specs matched.route
  match spec.mount with
  | some mount => (none, s.served head mount matched.file)
  | none =>
    if spec.websocket then (none, s.upgrade matched)
    else if request.connect then
      (none, problemResponse 400 (some "this route does not open a websocket") none [])
    else if ! fate.reserved then (none, overloaded)
    else
      -- a body that is streamed or deferred is not waited for
      match if spec.streaming || (spec.deferred && ! request.endStream) then .complete else fate.collected with
      | .tooLarge => (none, problemResponse 413 none none [])
      | .failed => (none, problemResponse 400 (some "bad body") none [])
      | .complete =>
        if ! fate.enqueued then (none, overloaded)
        else match fate.replied with
          | .timedOut => (some matched, problemResponse 504 (some "handler did not respond in time") none [])
          | .dropped => (some matched, problemResponse 500 (some "handler finished without responding") none [])
          | .reply reply => (some matched, s.answered head reply)

/-- A request within its limits. -/
def foundAnswer (head : Bool) (request : HttpRequest) (fate : Fate) :
    Except RouteError (Matched F) → Option (Matched F) × HttpResponse
  | .error .notFound => (none, problemResponse 404 none none [])
  | .error (.methodNotAllowed allow) => (none, problemResponse 405 none none [("allow", allow)])
  | .error (.badParam _ error) => (none, problemResponse 422 none (some error) [])
  | .ok matched => s.matchedAnswer head request fate matched

/-- `handle` once the request is routed. -/
def handleFound (head : Bool) (request : HttpRequest) (fate : Fate) (found : Except RouteError (Matched F)) :
    Handled F L :=
  let (charged, wait) := s.limited (index found)
  let (dispatched, response) := match wait with
    | some wait => (none, refused wait)
    | none => s.foundAnswer head request fate found
  ⟨index found, charged, dispatched, response⟩

/-- `handle`. -/
def handle (request : HttpRequest) (fate : Fate) : Handled F L :=
  s.handleFound (decide (request.method = "HEAD")) request fate (s.route request)

end Server

/-! ## What is compared -/

/-- `hyper` sends no body in answer to a HEAD. -/
def HttpResponse.sent (response : HttpResponse) (head : Bool) : HttpResponse :=
  if head then { response with body := .empty } else response

/-- The problem details of an error. -/
def HttpResponse.error (response : HttpResponse) : Option Problem :=
  match response.body with
  | .problem problem => some problem
  | _ => none

/-- The headers apart from the length, which only a HEAD needs to be told. -/
def withoutLength (headers : Headers) : Headers := headers.filter fun header => header.1 ≠ "content-length"

/-- A HEAD is answered as a GET is. -/
structure AnswersAlike (head get : Handled F L) : Prop where
  label : head.label = get.label
  charged : head.charged = get.charged
  dispatched : head.dispatched = get.dispatched
  status : head.response.status = get.response.status
  headers : withoutLength head.response.headers = withoutLength get.response.headers
  error : head.response.error = get.response.error
  empty : (head.response.sent true).body = .empty

/-! ## Headers apart from the length -/

lemma withoutLength_setHeader {name value : String} (hname : name ≠ "content-length") (headers : Headers) :
    withoutLength (setHeader name value headers) = setHeader name value (withoutLength headers) := by
  simp only [withoutLength, setHeader, List.filter_append, List.filter_filter]
  congr 1
  · refine List.filter_congr fun header _ => Bool.and_comm _ _
  · simp [hname]

lemma withoutLength_vary (headers : Headers) : withoutLength (vary headers) = vary (withoutLength headers) := by
  have hany : (withoutLength headers).any (fun header => header.1 = "vary" && coversEncoding header.2) =
      headers.any fun header => header.1 = "vary" && coversEncoding header.2 := by
    rw [withoutLength, List.any_filter]
    congr 1
    funext header
    by_cases hvary : header.1 = "vary" <;> simp [hvary]
  rw [vary, vary, hany]
  split
  · rfl
  · simp [withoutLength, List.filter_append]

lemma withoutLength_weakenEtag (headers : Headers) :
    withoutLength (weakenEtag headers) = weakenEtag (withoutLength headers) := by
  have hlookup : (withoutLength headers).lookup "etag" = headers.lookup "etag" :=
    lookup_filter_key (fun name => decide (name ≠ "content-length")) headers "etag"
  rw [weakenEtag, weakenEtag, hlookup]
  split
  · split
    · rfl
    · exact withoutLength_setHeader (by decide) headers
  · rfl

lemma withoutLength_encoded (plan : Plan) (headers : Headers) :
    withoutLength (plan.encoded headers) = plan.encoded (withoutLength headers) := by
  cases plan with
  | skip => rfl
  | identity => exact withoutLength_vary headers
  | encode token =>
    rw [Plan.encoded, Plan.encoded, withoutLength_weakenEtag, withoutLength_vary,
      withoutLength_setHeader (by decide)]

/-! ## The answers compared -/

namespace Server

variable {s : Server F L}

/-- Two responses that differ in their body and their length only. -/
structure Alike (head get : HttpResponse) : Prop where
  status : head.status = get.status
  headers : withoutLength head.headers = withoutLength get.headers
  error : head.error = get.error

lemma Alike.refl (response : HttpResponse) : Alike response response := ⟨rfl, rfl, rfl⟩

lemma built_alike {reply : HandlerReply} {lengths : Headers} {plan : Plan} {body : ResponseBody}
    (hlengths : withoutLength lengths = []) (hbody : ∀ problem, body ≠ .problem problem) :
    Alike (s.built reply lengths plan .empty) (s.built reply [] plan body) := by
  rw [built, built]
  split
  · refine ⟨rfl, ?_, ?_⟩
    · simp only [withoutLength_encoded]
      congr 1
      rw [withoutLength] at hlengths ⊢
      rw [withoutLength, List.cons_append, List.filter_cons, List.filter_append, hlengths]
      simp
    · cases body with
      | problem problem => exact absurd rfl (hbody problem)
      | _ => rfl
  · exact .refl _

lemma answered_alike (reply : HandlerReply) : Alike (s.answered true reply) (s.answered false reply) := by
  simp only [answered, if_true, Bool.false_eq_true, if_false]
  apply built_alike
  · split <;> simp [withoutLength]
  · intro problem
    split <;> nofun

lemma served_alike (mount : ℕ) (file : Option String) :
    Alike (s.served true mount file) (s.served false mount file) := by
  simp only [served]
  cases hbody : (s.static mount file).body with
  | problem problem => exact .refl _
  | _ => exact ⟨rfl, rfl, by simp [HttpResponse.error, hbody]⟩

lemma matchedAnswer_alike {request request' : HttpRequest} (hconnect : request.connect = request'.connect)
    (hbody : request.endStream = request'.endStream) (fate : Fate) (matched : Matched F) :
    (s.matchedAnswer true request fate matched).1 = (s.matchedAnswer false request' fate matched).1 ∧
      Alike (s.matchedAnswer true request fate matched).2 (s.matchedAnswer false request' fate matched).2 := by
  simp only [matchedAnswer, hconnect, hbody]
  split
  · exact ⟨rfl, served_alike _ _⟩
  split
  · exact ⟨rfl, .refl _⟩
  split
  · exact ⟨rfl, .refl _⟩
  split
  · exact ⟨rfl, .refl _⟩
  split
  · exact ⟨rfl, .refl _⟩
  · exact ⟨rfl, .refl _⟩
  split
  · exact ⟨rfl, .refl _⟩
  cases fate.replied with
  | timedOut => exact ⟨rfl, .refl _⟩
  | dropped => exact ⟨rfl, .refl _⟩
  | reply reply => exact ⟨rfl, answered_alike reply⟩

lemma foundAnswer_alike {request request' : HttpRequest} (hconnect : request.connect = request'.connect)
    (hbody : request.endStream = request'.endStream) (fate : Fate) (found : Except RouteError (Matched F)) :
    (s.foundAnswer true request fate found).1 = (s.foundAnswer false request' fate found).1 ∧
      Alike (s.foundAnswer true request fate found).2 (s.foundAnswer false request' fate found).2 := by
  match found with
  | .ok matched => exact matchedAnswer_alike hconnect hbody fate matched
  | .error .notFound => exact ⟨rfl, .refl _⟩
  | .error (.methodNotAllowed allow) => exact ⟨rfl, .refl _⟩
  | .error (.badParam route error) => exact ⟨rfl, .refl _⟩

/-- A request that is routed the same way is answered the same way. -/
lemma handleFound_alike {request request' : HttpRequest} (hconnect : request.connect = request'.connect)
    (hbody : request.endStream = request'.endStream) (fate : Fate) (found : Except RouteError (Matched F)) :
    AnswersAlike (s.handleFound true request fate found) (s.handleFound false request' fate found) := by
  simp only [handleFound]
  cases (s.limited (index found)).2 with
  | some wait => exact ⟨rfl, rfl, rfl, rfl, rfl, rfl, rfl⟩
  | none =>
    obtain ⟨hdispatched, halike⟩ := foundAnswer_alike hconnect hbody fate found (s := s)
    exact ⟨rfl, rfl, hdispatched, halike.status, halike.headers, halike.error, rfl⟩

/-! ## Routing compared -/

/-- The parameters of the GET route are there and coerce. -/
def Binds (s : Server F L) (path : String) (query : Option String) : Prop :=
  ∀ found, s.router.at_ "GET" path = some found → (s.router.specs found.route).mount = none →
    ∃ params, s.router.bindParams s.toDecoders found query = .ok params

def headRequest (path : String) (query : Option String) (endStream : Bool) : HttpRequest :=
  ⟨"HEAD", path, query, false, endStream⟩

def getRequest (path : String) (query : Option String) (endStream : Bool) : HttpRequest :=
  ⟨"GET", path, query, false, endStream⟩

section Routes

variable {path : String} {query : Option String} {endStream : Bool}

lemma route_get : s.route (getRequest path query endStream) = s.router.find s.toDecoders "GET" path query := by
  have hhead : ¬ ("GET" = "HEAD") := by decide
  simp only [route, getRequest, if_neg hhead, Bool.false_eq_true, if_false]
  split <;> simp_all

/-- The result of the second attempt, if it finds a route, and else of the first. -/
lemma route_head (nohead : s.router.at_ "HEAD" path = none) :
    s.route (headRequest path query endStream) =
      match s.router.find s.toDecoders "GET" path query with
      | .ok matched =>
        if (s.router.specs matched.route).websocket then .error (s.router.otherMethods "HEAD" path)
        else .ok matched
      | .error _ => .error (s.router.otherMethods "HEAD" path) := by
  simp only [route, headRequest, Bool.false_eq_true, if_false, Router.find_of_none nohead]
  cases herror : s.router.otherMethods "HEAD" path with
  | notFound => simp
  | methodNotAllowed allow => simp
  | badParam route error => exact absurd herror Router.otherMethods_ne_badParam

/-- A HEAD without a route of its own is routed as the GET, if the parameters of the GET bind. -/
lemma route_head_eq (nohead : s.router.at_ "HEAD" path = none)
    (nosocket : ∀ found, s.router.at_ "GET" path = some found → (s.router.specs found.route).websocket = false)
    (binds : s.Binds path query) :
    s.route (headRequest path query endStream) = s.route (getRequest path query endStream) := by
  rw [route_get, route_head nohead]
  cases hget : s.router.at_ "GET" path with
  | none => rw [Router.find_of_none hget, Router.otherMethods_congr nohead hget]
  | some found =>
    have hsocket := nosocket found hget
    simp only [Router.find, hget]
    by_cases hmount : (s.router.specs found.route).mount.isSome = true
    · simp [hmount, hsocket]
    · obtain ⟨params, hparams⟩ := binds found hget (by simpa using hmount)
      simp [hmount, hparams, hsocket]

/-- If they do not, the GET is counted under its route and the HEAD under none. -/
lemma index_ne (nohead : s.router.at_ "HEAD" path = none) (unbound : ¬ s.Binds path query) :
    index (s.route (headRequest path query endStream)) ≠ index (s.route (getRequest path query endStream)) := by
  simp only [Binds, not_forall] at unbound
  obtain ⟨found, hget, hmount, hparams⟩ := unbound
  have hfind : ∃ error, s.router.find s.toDecoders "GET" path query = .error (.badParam found.route error) := by
    cases hbind : s.router.bindParams s.toDecoders found query with
    | ok params => exact absurd ⟨params, hbind⟩ hparams
    | error error => exact ⟨error, by simp [Router.find, hget, hmount, hbind]⟩
  obtain ⟨error, hfind⟩ := hfind
  rw [route_get, route_head nohead, hfind]
  cases herror : s.router.otherMethods "HEAD" path with
  | notFound => rintro ⟨⟩
  | methodNotAllowed allow => rintro ⟨⟩
  | badParam route error => exact absurd herror Router.otherMethods_ne_badParam

/-- **HEAD answers as GET does** just when the parameters of the GET route bind: for every path and query with no
HEAD route of its own and no socket behind the GET, and whatever becomes of the request past its routing. -/
theorem head_answers_as_get_iff (fate : Fate) (nohead : s.router.at_ "HEAD" path = none)
    (nosocket : ∀ found, s.router.at_ "GET" path = some found → (s.router.specs found.route).websocket = false) :
    AnswersAlike (s.handle (headRequest path query endStream) fate)
      (s.handle (getRequest path query endStream) fate) ↔ s.Binds path query := by
  constructor
  · intro alike
    by_contra unbound
    exact index_ne nohead unbound alike.label
  · intro binds
    have hroute : s.route (headRequest path query endStream) = s.route (getRequest path query endStream) :=
      route_head_eq nohead nosocket binds
    rw [handle, handle, hroute]
    exact handleFound_alike rfl rfl fate _

end Routes

/-! ## A number in the path -/

/-- `GET /items/{id}` with an integer for the `id`, and nothing else. -/
def items : Server Unit Unit where
  float _ := none
  isFinite _ := true
  uuid _ := none
  date _ := none
  offsetDateTime _ := none
  primitiveDateTime _ := none
  query _ := []
  percent raw := raw
  router := {
    byMethod := [("GET", fun path => match path.toList with
      | '/' :: 'i' :: 't' :: 'e' :: 'm' :: 's' :: '/' :: id =>
        some ⟨0, fun name => if name = "id" then some (.ofList id) else none⟩
      | _ => none)]
    specs := fun _ => ⟨[⟨"id", .int, .path, .required, false⟩], false, false, false, none⟩ }
  appLimit := none
  routeLimits _ := none
  byPrincipal _ := false
  take _ _ := none
  static _ _ := ⟨404, [], .empty⟩
  upgrade _ := ⟨101, [], .empty⟩
  plan _ := .skip
  compress bytes := bytes
  acceptable _ := true

/-- A handler that replies with one byte. -/
def oneByte : Fate := ⟨true, .complete, true, .reply ⟨200, "text/plain", [], .full [120]⟩⟩

/-- `HEAD /items/7`. -/
theorem head_items_seven : AnswersAlike (items.handle (headRequest "/items/7" none true) oneByte)
    (items.handle (getRequest "/items/7" none true) oneByte) := by
  refine (head_answers_as_get_iff oneByte rfl fun _ _ => rfl).mpr ?_
  intro found hfound _
  obtain rfl := Option.some.inj hfound
  exact ⟨[.int 7], rfl⟩

/-- `HEAD /items/abc` is refused with 405, and `GET /items/abc` with 422. -/
theorem head_items_abc : items.router.at_ "HEAD" "/items/abc" = none ∧
    (∀ found, items.router.at_ "GET" "/items/abc" = some found →
      (items.router.specs found.route).websocket = false) ∧
    (items.handle (headRequest "/items/abc" none true) oneByte).response.status = 405 ∧
    (items.handle (getRequest "/items/abc" none true) oneByte).response.status = 422 ∧
    ¬ AnswersAlike (items.handle (headRequest "/items/abc" none true) oneByte)
      (items.handle (getRequest "/items/abc" none true) oneByte) := by
  refine ⟨rfl, fun _ _ => rfl, rfl, rfl, ?_⟩
  intro alike
  exact nomatch alike.label

end Server

end Oxbrook
