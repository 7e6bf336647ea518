import Mathlib
import Oxbrook.Limits.Callers
import Oxbrook.Origins.Checks
import Oxbrook.Routing.Head

/-!
# What a shared cache may keep

`Cors` of `src/cors.rs`, built from the configuration, and `cors_and_handle` of `src/server.rs`, which adds its
headers to a response.  A cache that stores a response for one origin gives it to another unless `Vary` names
`Origin`.  The layer appends that name where the allowed origin is the request's own.  Where it is `*` it does not,
though a request without an origin that can be read gets no header at all: `vary_names_origin_iff` says that this is
the one way in which two answers differ and a cache is not told.
-/

namespace Oxbrook

/-! ## Headers -/

/-- `HeaderValue::from_str`. -/
def HeaderValue.fromStr (text : Text) : Option HeaderValue :=
  if h : ∀ b ∈ utf8 (String.ofList text), headerByte b = true then some ⟨utf8 (String.ofList text), h⟩ else none

namespace HeaderMap

def append (headers : HeaderMap) (name : String) (value : HeaderValue) : HeaderMap := headers ++ [(name, value)]

def insert (headers : HeaderMap) (name : String) (value : HeaderValue) : HeaderMap :=
  (headers.filter fun h => h.1 ≠ name) ++ [(name, value)]

/-- `if let Some(value) = value { headers.insert(name, value) }`. -/
def insertSome (headers : HeaderMap) (name : String) (value : Option HeaderValue) : HeaderMap :=
  value.elim headers fun value => headers.insert name value

variable {headers : HeaderMap} {name other : String} {value : HeaderValue}

lemma getAll_append_self : (headers.append name value).getAll name = headers.getAll name ++ [value] := by
  simp [append, getAll, List.filter_append]

lemma getAll_append_ne (h : other ≠ name) : (headers.append name value).getAll other = headers.getAll other := by
  simp [append, getAll, List.filter_append, h.symm]

lemma getAll_insert_self : (headers.insert name value).getAll name = [value] := by
  simp [insert, getAll, List.filter_append, List.filter_filter]

lemma getAll_insert_ne (h : other ≠ name) : (headers.insert name value).getAll other = headers.getAll other := by
  have hfilter : ((headers.filter fun h => h.1 ≠ name).filter fun h => h.1 = other) =
      headers.filter fun h => h.1 = other := by
    rw [List.filter_filter]
    apply List.filter_congr
    intro entry _
    by_cases hother : entry.1 = other
    · simp [hother, h]
    · simp [hother]
  simp only [insert, getAll, List.filter_append, hfilter]
  simp [h.symm]

lemma containsKey_eq_false_iff : headers.containsKey name = false ↔ headers.getAll name = [] := by
  simp [containsKey, getAll]

end HeaderMap

/-- `to_ascii_uppercase`. -/
def uppercase (text : Text) : Text := text.map Char.toUpper

/-- `joined`. -/
def joined (items : List Text) : Option HeaderValue :=
  if items = [] then none else HeaderValue.fromStr (", ".toList.intercalate items)

/-- `HeaderValue::from_static`. -/
def staticValue (text : String) : HeaderValue := (HeaderValue.fromStr text.toList).getD ⟨[], nofun⟩

def varyName : String := "vary"
def allowOriginName : String := "access-control-allow-origin"
def allowCredentials : String := "access-control-allow-credentials"
def exposeHeaders : String := "access-control-expose-headers"
def requestMethod : String := "access-control-request-method"
def askedHeadersName : String := "access-control-request-headers"

/-! ## The layer -/

/-- `CorsTuple`. -/
structure CorsTuple where
  origins : List Text
  methods : List Text
  headers : List Text
  credentials : Bool
  expose : List Text
  maxAge : Option ℕ

/-- `Cors` of the server. -/
structure CorsLayer where
  anyOrigin : Bool
  origins : List Text × List Pattern
  anyMethod : Bool
  methods : List Text
  methodsValue : Option HeaderValue
  anyHeader : Bool
  headers : List Text
  headersValue : Option HeaderValue
  credentials : Bool
  expose : Option HeaderValue
  maxAge : Option HeaderValue

local instance lawfulName : LawfulBEq Text := inferInstance

namespace CorsLayer

/-- `Cors::build`. -/
def build (spec : CorsTuple) : Except String CorsLayer :=
  let anyOrigin : Bool := ['*'] ∈ spec.origins
  if anyOrigin && spec.credentials then .error "allow_credentials cannot be combined with any origin"
  else
    let anyMethod : Bool := ['*'] ∈ spec.methods
    let methods := spec.methods.map uppercase
    let anyHeader : Bool := ['*'] ∈ spec.headers
    let headers := spec.headers.map lowercase
    .ok
      { anyOrigin
        origins := splitOrigins (spec.origins.filter fun o => o ≠ ['*'])
        anyMethod
        methods
        methodsValue := if anyMethod then none else joined methods
        anyHeader
        headers
        headersValue := if anyHeader then none else joined headers
        credentials := spec.credentials
        expose := joined spec.expose
        maxAge := spec.maxAge.bind fun age => HeaderValue.fromStr (Nat.repr age).toList }

variable (layer : CorsLayer)

/-- `Cors::allows`. -/
def allows (origin : Text) : Bool := layer.anyOrigin || listed layer.origins origin

/-- `Cors::wildcard`. -/
def wildcard : Bool := layer.anyOrigin && ! layer.credentials

/-- `Cors::allow_origin`. -/
def allowOrigin (origin : Text) (out : HeaderMap) : HeaderMap :=
  match if layer.wildcard then some (staticValue "*") else HeaderValue.fromStr origin with
  | none => out
  | some value =>
    let out := out.insert allowOriginName value
    if layer.credentials then out.insert allowCredentials (staticValue "true") else out

/-- What `Cors::decorate` adds for an origin. -/
def added (origin : Text) : HeaderMap := (layer.allowOrigin origin []).insertSome exposeHeaders layer.expose

/-- `Cors::decorate`. -/
def decorate (origin : Option HeaderValue) (response : HeaderMap) : HeaderMap :=
  let response := if layer.wildcard then response else response.append varyName (staticValue "Origin")
  match origin.bind HeaderValue.text with
  | none => response
  | some origin =>
    if ! layer.allows origin || response.containsKey allowOriginName then response
    else (layer.added origin).foldl (fun response h => response.insert h.1 h.2) response

/-- The headers of a successful preflight. -/
def preflightHeaders (origin method asked : Text) : HeaderMap :=
  let methods := if layer.anyMethod then HeaderValue.fromStr method else layer.methodsValue
  let headers :=
    if layer.anyHeader then (if asked = [] then none else HeaderValue.fromStr asked) else layer.headersValue
  ((((layer.allowOrigin origin []).insertSome "access-control-allow-methods" methods).insertSome
    "access-control-allow-headers" headers).insertSome "access-control-max-age" layer.maxAge).append varyName
      (staticValue "Origin, Access-Control-Request-Method, Access-Control-Request-Headers")

/-- `Cors::preflight`. -/
def preflight (request : HeaderMap) : Except String HeaderMap :=
  match request.header "origin" with
  | none => .error "missing origin"
  | some origin =>
    if ! layer.allows origin then .error "origin not allowed"
    else
      match request.header requestMethod with
      | none => .error "missing request method"
      | some method =>
        if ! layer.anyMethod && uppercase method ∉ layer.methods then .error "method not allowed"
        else
          let asked := (request.header askedHeadersName).getD []
          let refused := ((asked.splitOn ',').map fun h => lowercase (strip h)).any fun h => h ≠ [] && h ∉ layer.headers
          if ! layer.anyHeader && refused then .error "header not allowed"
          else .ok (layer.preflightHeaders origin method asked)

end CorsLayer

/-! ## Answering -/

structure CorsRequest where
  method : String
  headers : HeaderMap

/-- `Cors::is_preflight`. -/
def CorsRequest.isPreflight (r : CorsRequest) : Bool :=
  r.method = "OPTIONS" && r.headers.containsKey "origin" && r.headers.containsKey requestMethod

/-- A response, and whether it is left out of the metrics. -/
structure WireResponse where
  status : ℕ
  headers : HeaderMap
  body : ResponseBody
  uncounted : Bool

/-- `plain`. -/
def plainResponse (status : ℕ) (detail : String) : WireResponse where
  status
  headers := [("content-type", staticValue "application/problem+json")]
  body := .problem ⟨some detail, none⟩
  uncounted := false

/-- `cors_and_handle`, with the response of `handle`. -/
def corsAndHandle (cors : Option CorsLayer) (r : CorsRequest) (handled : WireResponse) : WireResponse :=
  match cors with
  | none => handled
  | some cors =>
    if r.isPreflight then
      match cors.preflight r.headers with
      | .ok headers => { status := 204, headers, body := .empty, uncounted := true }
      | .error reason =>
        let response := plainResponse 400 reason
        { response with headers := cors.decorate none response.headers, uncounted := true }
    else if handled.status = 101 then handled
    else { handled with headers := cors.decorate (r.headers.get "origin") handled.headers }

/-! ## What is promised -/

/-- A value of `Vary` names `Origin`. -/
def NamesOrigin (headers : HeaderMap) : Prop :=
  ∃ value ∈ headers.getAll varyName, ∃ text, value.text = some text ∧
    "origin".toList ∈ (text.splitOn ',').map fun item => lowercase (strip item)

/-- Where two responses differ in a header, the `Vary` of both names `Origin`. -/
def VarySafe (a b : HeaderMap) : Prop := (∃ name, a.getAll name ≠ b.getAll name) → NamesOrigin a ∧ NamesOrigin b

/-- What the server adds for a request: credentials never beside `*`, and an origin only if it is the request's own
and allowed. -/
structure AddsOwn (layer : CorsLayer) (r : CorsRequest) (handled : WireResponse) (headers : HeaderMap) : Prop where
  credentials : headers.getAll allowCredentials ≠ handled.headers.getAll allowCredentials →
    staticValue "*" ∉ headers.getAll allowOriginName
  own : ∀ v ∈ headers.getAll allowOriginName, v ∉ handled.headers.getAll allowOriginName →
    (layer.wildcard = true ∧ v = staticValue "*") ∨
      (r.headers.get "origin" = some v ∧ ∃ text, v.text = some text ∧ layer.allows text = true)

/-- The request has an origin that can be read. -/
def CorsRequest.SendsOrigin (r : CorsRequest) : Prop := (r.headers.header "origin").isSome = true

/-- The layer sends `*`, the response leaves its headers to the layer and has no `Vary` of its own that names `Origin`,
and only one of the requests has an origin. -/
structure Confusable (layer : CorsLayer) (handled : WireResponse) (r₁ r₂ : CorsRequest) : Prop where
  wildcard : layer.wildcard = true
  upgraded : handled.status ≠ 101
  unset : handled.headers.getAll allowOriginName = []
  unnamed : ¬ NamesOrigin handled.headers
  differ : ¬ (r₁.SendsOrigin ↔ r₂.SendsOrigin)

/-! ## Values -/

lemma utf8EncodeChar_ofUInt8 {b : UInt8} (h : visibleAscii b = true) :
    String.utf8EncodeChar (Char.ofUInt8 b) = [b] := by
  have hall : ∀ b : BitVec 8, visibleAscii ⟨b⟩ = true → String.utf8EncodeChar (Char.ofUInt8 ⟨b⟩) = [⟨b⟩] := by
    decide +kernel
  exact hall b.toBitVec h

/-- Visible bytes are the encoding of what they are read as. -/
lemma utf8_ofUInt8 {bytes : List UInt8} (h : ∀ b ∈ bytes, visibleAscii b = true) :
    utf8 (String.ofList (bytes.map Char.ofUInt8)) = bytes := by
  have hflat : (bytes.map Char.ofUInt8).flatMap String.utf8EncodeChar = bytes := by
    induction bytes with
    | nil => rfl
    | cons b bytes ih =>
      rw [List.map_cons, List.flatMap_cons, utf8EncodeChar_ofUInt8 (h b (List.mem_cons_self ..)),
        ih fun c hc => h c (List.mem_cons_of_mem _ hc), List.singleton_append]
  rw [utf8, String.toByteArray_ofList, List.utf8Encode, hflat]
  simp

/-- A value that can be read is made of its text. -/
lemma fromStr_text {v : HeaderValue} {text : Text} (h : v.text = some text) : HeaderValue.fromStr text = some v := by
  obtain ⟨bytes, hbytes, rfl⟩ := Option.map_eq_some_iff.mp h
  obtain ⟨hvisible, hv⟩ := Option.ite_none_right_eq_some.mp hbytes
  obtain rfl := Option.some.inj hv
  have hutf8 := utf8_ofUInt8 hvisible
  have hvalid : ∀ b ∈ utf8 (String.ofList (v.bytes.map Char.ofUInt8)), headerByte b = true := by
    rw [hutf8]
    exact v.valid
  rw [HeaderValue.fromStr, dif_pos hvalid]
  congr 1
  cases v
  simpa using hutf8

lemma ofUInt8_ofNat {c : Char} (h : 32 ≤ c.toNat ∧ c.toNat < 127) :
    visibleAscii (UInt8.ofNat c.toNat) = true ∧ Char.ofUInt8 (UInt8.ofNat c.toNat) = c := by
  have hall : ∀ n < 127, 32 ≤ n → visibleAscii (UInt8.ofNat n) = true ∧
      (Char.ofUInt8 (UInt8.ofNat n)).toNat = n := by decide +kernel
  obtain ⟨hvisible, hcode⟩ := hall c.toNat h.2 h.1
  exact ⟨hvisible, Char.toNat_inj.mp hcode⟩

/-- A text of ASCII without control characters makes a value that reads as this text. -/
lemma fromStr_ascii {text : Text} (h : ∀ c ∈ text, 32 ≤ c.toNat ∧ c.toNat < 127) :
    ∃ v, HeaderValue.fromStr text = some v ∧ v.text = some text := by
  have hvisible : ∀ b ∈ text.map fun c => UInt8.ofNat c.toNat, visibleAscii b = true := by
    intro b hb
    obtain ⟨c, hc, rfl⟩ := List.mem_map.mp hb
    exact (ofUInt8_ofNat (h c hc)).1
  have htext : (text.map fun c => UInt8.ofNat c.toNat).map Char.ofUInt8 = text := by
    rw [List.map_map]
    conv_rhs => rw [← List.map_id text]
    exact List.map_congr_left fun c hc => (ofUInt8_ofNat (h c hc)).2
  let v : HeaderValue := ⟨text.map fun c => UInt8.ofNat c.toNat, fun b hb => headerByte_of_visibleAscii (hvisible b hb)⟩
  have hread : v.text = some text := by
    have hv : v.Visible := hvisible
    rw [HeaderValue.text_of_visible hv]
    exact congrArg some htext
  exact ⟨v, fromStr_text hread, hread⟩

lemma staticValue_text {text : String} (h : (text.toList.all fun c => 32 ≤ c.toNat && c.toNat < 127) = true) :
    (staticValue text).text = some text.toList := by
  have hascii : ∀ c ∈ text.toList, 32 ≤ c.toNat ∧ c.toNat < 127 := by
    intro c hc
    simpa using List.all_eq_true.mp h c hc
  obtain ⟨v, hv, htext⟩ := fromStr_ascii hascii
  rw [staticValue, hv]
  exact htext

lemma eq_star_of_toLower {c : Char} (h : c.toLower = '*') : c = '*' := by
  unfold Char.toLower at h
  split at h
  · rename_i hupper
    have hlow : 65 ≤ c.val.toNat := hupper.1
    have hhigh : c.val.toNat ≤ 90 := hupper.2
    have hval : (c.val.toNat + 32) % 2 ^ 32 = 42 := congrArg (fun d : Char => d.val.toNat) h
    omega
  · exact h

/-- No list of origins has `*` itself: an entry with a `*` is a pattern, and a pattern matches what has a scheme. -/
lemma not_listed_star (origins : List Text) : listed (splitOrigins origins) ['*'] = false := by
  have hexact : ['*'] ∉ (splitOrigins origins).1 := by
    intro hmem
    obtain ⟨entry, hentry, hlower⟩ := List.mem_map.mp hmem
    have hnot : '*' ∉ entry := of_decide_eq_true (List.mem_filter.mp hentry).2
    obtain ⟨c, rest, rfl, hc, -⟩ := List.map_eq_cons_iff.mp hlower
    exact hnot (eq_star_of_toLower hc ▸ List.mem_cons_self ..)
  have hpatterns (pattern : Pattern) : pattern.matchesOrigin (lowercase ['*']) = false := by
    have hsplit : splitOnce (lowercase ['*']) "://".toList = none := by decide
    rw [Pattern.matchesOrigin, hsplit]
  rw [listed, decide_eq_false hexact, Bool.false_or, List.any_eq_false]
  intro pattern _
  rw [hpatterns]
  exact Bool.false_ne_true

lemma namesOrigin_append (headers : HeaderMap) : NamesOrigin (headers.append varyName (staticValue "Origin")) := by
  refine ⟨staticValue "Origin", ?_, "Origin".toList, ?_, ?_⟩
  · rw [HeaderMap.getAll_append_self]
    exact List.mem_append_right _ (List.mem_singleton_self _)
  · exact staticValue_text (by decide)
  · decide +kernel

/-! ## What the layer adds -/

namespace HeaderMap

variable {base : HeaderMap} {hs : List (String × HeaderValue)} {name : String} {value : HeaderValue}

/-- Headers of other names are left alone. -/
lemma getAll_inserts_of_not_mem (h : name ∉ hs.map Prod.fst) :
    (hs.foldl (fun r h => r.insert h.1 h.2) base).getAll name = base.getAll name := by
  induction hs generalizing base with
  | nil => rfl
  | cons entry hs ih =>
    rw [List.map_cons, List.mem_cons, not_or] at h
    rw [List.foldl_cons, ih h.2, getAll_insert_ne h.1]

/-- A header that is inserted once has its one value. -/
lemma getAll_inserts_of_mem (distinct : (hs.map Prod.fst).Nodup) (h : (name, value) ∈ hs) :
    (hs.foldl (fun r h => r.insert h.1 h.2) base).getAll name = [value] := by
  induction hs generalizing base with
  | nil => cases h
  | cons entry hs ih =>
    rw [List.map_cons, List.nodup_cons] at distinct
    rw [List.foldl_cons]
    obtain rfl | h := List.mem_cons.mp h
    · rw [getAll_inserts_of_not_mem distinct.1, getAll_insert_self]
    · exact ih distinct.2 h

end HeaderMap

namespace CorsLayer

variable {layer : CorsLayer} {v : HeaderValue} {text : Text} {response : HeaderMap} {origin : Option HeaderValue}

/-- The value of the allowed origin. -/
def allowed (layer : CorsLayer) (v : HeaderValue) : HeaderValue := if layer.wildcard then staticValue "*" else v

lemma added_eq (h : v.text = some text) : layer.added text =
    (allowOriginName, layer.allowed v) ::
      ((if layer.credentials then [(allowCredentials, staticValue "true")] else []) ++
        (layer.expose.map fun value => (exposeHeaders, value)).toList) := by
  have hvalue : (if layer.wildcard then some (staticValue "*") else HeaderValue.fromStr text) =
      some (layer.allowed v) := by
    rw [fromStr_text h, allowed]
    split <;> rfl
  rw [added, allowOrigin, hvalue]
  cases layer.credentials <;> cases layer.expose <;>
    simp [HeaderMap.insert, HeaderMap.insertSome, allowOriginName, allowCredentials, exposeHeaders]

lemma nodup_added (h : v.text = some text) : ((layer.added text).map Prod.fst).Nodup := by
  rw [added_eq h]
  cases layer.credentials <;> cases layer.expose <;> simp [allowOriginName, allowCredentials, exposeHeaders]

lemma varyName_not_mem_added (h : v.text = some text) : varyName ∉ (layer.added text).map Prod.fst := by
  rw [added_eq h]
  cases layer.credentials <;> cases layer.expose <;>
    simp [varyName, allowOriginName, allowCredentials, exposeHeaders]

lemma allowCredentials_not_mem_added (h : v.text = some text) (hcredentials : layer.credentials = false) :
    allowCredentials ∉ (layer.added text).map Prod.fst := by
  rw [added_eq h, hcredentials]
  cases layer.expose <;> simp [allowOriginName, allowCredentials, exposeHeaders]

/-- The response with the `Vary` of the layer. -/
def varied (layer : CorsLayer) (response : HeaderMap) : HeaderMap :=
  if layer.wildcard then response else response.append varyName (staticValue "Origin")

lemma getAll_varied {name : String} (h : name ≠ varyName) : (layer.varied response).getAll name = response.getAll name := by
  rw [varied]
  split
  · rfl
  · exact HeaderMap.getAll_append_ne h

/-- What comes of a response: its own headers, or those with what is added for an origin. -/
inductive Decorated (layer : CorsLayer) (origin : Option HeaderValue) (response : HeaderMap) : HeaderMap → Prop
  | plain (h : ∀ v text, origin = some v → v.text = some text →
      layer.allows text = false ∨ response.getAll allowOriginName ≠ []) :
      Decorated layer origin response (layer.varied response)
  | added {v : HeaderValue} {text : Text} (sent : origin = some v) (reads : v.text = some text)
      (allows : layer.allows text = true) (unset : response.getAll allowOriginName = []) :
      Decorated layer origin response
        ((layer.added text).foldl (fun r h => r.insert h.1 h.2) (layer.varied response))

lemma decorated (layer : CorsLayer) (origin : Option HeaderValue) (response : HeaderMap) :
    layer.Decorated origin response (layer.decorate origin response) := by
  have hunset : ((layer.varied response).containsKey allowOriginName = false) ↔
      response.getAll allowOriginName = [] := by
    rw [HeaderMap.containsKey_eq_false_iff, getAll_varied (by decide)]
  unfold decorate
  rw [← varied]
  dsimp only
  split
  · rename_i hnone
    refine .plain ?_
    rintro v text rfl htext
    rw [Option.bind_some, htext] at hnone
    cases hnone
  · rename_i text hsome
    obtain ⟨v, rfl, htext⟩ := Option.bind_eq_some_iff.mp hsome
    split
    · rename_i hrefused
      refine .plain ?_
      intro v' text' hv' htext'
      cases hv'
      rw [htext] at htext'
      cases htext'
      rw [Bool.or_eq_true, Bool.not_eq_true'] at hrefused
      refine hrefused.imp_right fun hkey hnil => ?_
      rw [hunset.mpr hnil] at hkey
      cases hkey
    · rename_i htaken
      rw [Bool.or_eq_true, not_or, Bool.not_eq_true', Bool.not_eq_false, Bool.not_eq_true] at htaken
      exact .added rfl htext htaken.1 (hunset.mp htaken.2)

lemma getAll_varyName_decorate :
    (layer.decorate origin response).getAll varyName = (layer.varied response).getAll varyName := by
  have hdecorated := layer.decorated origin response
  revert hdecorated
  generalize layer.decorate origin response = out
  intro hdecorated
  cases hdecorated with
  | plain h => rfl
  | added sent reads allows unset => exact HeaderMap.getAll_inserts_of_not_mem (varyName_not_mem_added reads)

/-- The layer tells a cache, unless it sends `*`. -/
lemma namesOrigin_decorate_iff :
    NamesOrigin (layer.decorate origin response) ↔ layer.wildcard = false ∨ NamesOrigin response := by
  have hsame : NamesOrigin (layer.decorate origin response) ↔ NamesOrigin (layer.varied response) := by
    rw [NamesOrigin, getAll_varyName_decorate, ← NamesOrigin]
  rw [hsame, varied]
  cases layer.wildcard with
  | true => simp
  | false => simpa using namesOrigin_append response

/-- A layer with credentials does not allow `*`. -/
lemma allows_star {spec : CorsTuple} (built : build spec = .ok layer) (hcredentials : layer.credentials = true) :
    layer.allows ['*'] = false := by
  rw [build] at built
  split at built
  · cases built
  · rename_i hboth
    cases built
    have hany : ['*'] ∉ spec.origins := by simpa [show spec.credentials = true from hcredentials] using hboth
    rw [allows, decide_eq_false hany, Bool.false_or]
    exact not_listed_star _

variable {r r₁ r₂ : CorsRequest} {handled : WireResponse}

/-- What the layer adds is the request's own. -/
lemma addsOwn {spec : CorsTuple} (built : build spec = .ok layer) (hpreflight : r.isPreflight = false) :
    AddsOwn layer r handled (corsAndHandle (some layer) r handled).headers := by
  have hsame : AddsOwn layer r handled handled.headers := ⟨fun h => absurd rfl h, fun v hv hnot => absurd hv hnot⟩
  rw [corsAndHandle, hpreflight]
  simp only [Bool.false_eq_true, if_false]
  split
  · exact hsame
  · have hdecorated := layer.decorated (r.headers.get "origin") handled.headers
    revert hdecorated
    dsimp only
    generalize layer.decorate (r.headers.get "origin") handled.headers = out
    intro hdecorated
    have horigin : (layer.varied handled.headers).getAll allowOriginName = handled.headers.getAll allowOriginName :=
      getAll_varied (by decide)
    have hcreds : (layer.varied handled.headers).getAll allowCredentials = handled.headers.getAll allowCredentials :=
      getAll_varied (by decide)
    cases hdecorated with
    | plain h =>
      constructor
      · intro hne
        exact absurd hcreds hne
      · intro v hv hnot
        rw [horigin] at hv
        exact absurd hv hnot
    | @added v text sent reads allows unset =>
      have hallowed : ((layer.added text).foldl (fun r h => r.insert h.1 h.2) (layer.varied handled.headers)).getAll
          allowOriginName = [layer.allowed v] :=
        HeaderMap.getAll_inserts_of_mem (nodup_added reads) (by rw [added_eq reads]; exact List.mem_cons_self ..)
      constructor
      · intro hne hstar
        cases hcredentials : layer.credentials with
        | false =>
          rw [HeaderMap.getAll_inserts_of_not_mem (allowCredentials_not_mem_added reads hcredentials)] at hne
          exact hne hcreds
        | true =>
          rw [hallowed, allowed, wildcard, hcredentials, Bool.not_true, Bool.and_false, if_neg Bool.false_ne_true,
            List.mem_singleton] at hstar
          have hreads : (staticValue "*").text = some ['*'] := staticValue_text (by decide)
          rw [← hstar, hreads] at reads
          cases reads
          rw [allows_star built hcredentials] at allows
          cases allows
      · intro v' hv' _
        rw [hallowed, List.mem_singleton, allowed] at hv'
        split at hv'
        · exact .inl ⟨‹_›, hv'⟩
        · exact .inr ⟨hv' ▸ sent, text, hv' ▸ reads, allows⟩

/-- With `*`, what comes of a response depends only on whether there is an origin. -/
lemma decorate_of_wildcard (hwildcard : layer.wildcard = true) : layer.decorate origin response =
    if (origin.bind HeaderValue.text).isSome = true ∧ response.getAll allowOriginName = [] then
      ((allowOriginName, staticValue "*") :: (layer.expose.map fun value => (exposeHeaders, value)).toList).foldl
        (fun r h => r.insert h.1 h.2) response
    else response := by
  obtain ⟨hany, hcredentials⟩ : layer.anyOrigin = true ∧ layer.credentials = false := by
    simpa [wildcard] using hwildcard
  have hvaried : layer.varied response = response := if_pos hwildcard
  have hdecorated := layer.decorated origin response
  revert hdecorated
  generalize layer.decorate origin response = out
  intro hdecorated
  cases hdecorated with
  | plain h =>
    rw [hvaried, if_neg]
    rintro ⟨hsome, hunset⟩
    obtain ⟨text, htext⟩ := Option.isSome_iff_exists.mp hsome
    obtain ⟨v, hv, hreads⟩ := Option.bind_eq_some_iff.mp htext
    obtain hnot | hset := h v text hv hreads
    · rw [allows, hany, Bool.true_or] at hnot
      cases hnot
    · exact hset hunset
  | added sent reads allows unset =>
    have hsome : (origin.bind HeaderValue.text).isSome = true := by rw [sent, Option.bind_some, reads, Option.isSome_some]
    rw [if_pos ⟨hsome, unset⟩, hvaried, added_eq reads, allowed, if_pos hwildcard, hcredentials]
    rfl

/-- The allowed origin with `*`. -/
lemma getAll_allowOriginName_of_wildcard (hwildcard : layer.wildcard = true)
    (unset : response.getAll allowOriginName = []) : (layer.decorate origin response).getAll allowOriginName =
      if (origin.bind HeaderValue.text).isSome = true then [staticValue "*"] else [] := by
  rw [decorate_of_wildcard hwildcard]
  by_cases hsome : (origin.bind HeaderValue.text).isSome = true
  · rw [if_pos ⟨hsome, unset⟩, if_pos hsome]
    refine HeaderMap.getAll_inserts_of_mem ?_ (List.mem_cons_self ..)
    cases layer.expose <;> simp [allowOriginName, exposeHeaders]
  · rw [if_neg fun h => hsome h.1, if_neg hsome]
    exact unset

lemma varySafe_iff (hnot : handled.status ≠ 101) :
    VarySafe (layer.decorate (r₁.headers.get "origin") handled.headers)
        (layer.decorate (r₂.headers.get "origin") handled.headers) ↔ ¬ Confusable layer handled r₁ r₂ := by
  constructor
  · intro hsafe hconfusable
    obtain ⟨hwildcard, -, hunset, hunnamed, hdiffer⟩ := hconfusable
    have hne : ∃ name, (layer.decorate (r₁.headers.get "origin") handled.headers).getAll name ≠
        (layer.decorate (r₂.headers.get "origin") handled.headers).getAll name := by
      refine ⟨allowOriginName, ?_⟩
      rw [getAll_allowOriginName_of_wildcard hwildcard hunset, getAll_allowOriginName_of_wildcard hwildcard hunset]
      intro heq
      apply hdiffer
      rw [CorsRequest.SendsOrigin, CorsRequest.SendsOrigin, HeaderMap.header, HeaderMap.header]
      split_ifs at heq with h₁ h₂ h₂
      · exact iff_of_true h₁ h₂
      · exact iff_of_false h₁ h₂
    obtain hfalse | hnamed := namesOrigin_decorate_iff.mp (hsafe hne).1
    · rw [hwildcard] at hfalse
      cases hfalse
    · exact hunnamed hnamed
  · intro hnotconfusable hne
    have htold : layer.wildcard = false ∨ NamesOrigin handled.headers := by
      by_contra hquiet
      rw [not_or, Bool.not_eq_false] at hquiet
      obtain ⟨hwildcard, hunnamed⟩ := hquiet
      obtain ⟨name, hname⟩ := hne
      apply hname
      rw [decorate_of_wildcard hwildcard, decorate_of_wildcard hwildcard]
      by_cases hunset : handled.headers.getAll allowOriginName = []
      · have hsends : r₁.SendsOrigin ↔ r₂.SendsOrigin := by
          by_contra hdiffer
          exact hnotconfusable ⟨hwildcard, hnot, hunset, hunnamed, hdiffer⟩
        rw [CorsRequest.SendsOrigin, CorsRequest.SendsOrigin, HeaderMap.header, HeaderMap.header] at hsends
        simp only [hsends]
      · rw [if_neg fun h => hunset h.2, if_neg fun h => hunset h.2]
    exact ⟨namesOrigin_decorate_iff.mpr htold, namesOrigin_decorate_iff.mpr htold⟩

/-- **Caches.**  Two answers to what a handler said differ only where `Vary` names `Origin`, and what the layer adds
is the request's own, unless the layer sends `*` and only one of the requests has an origin. -/
theorem vary_names_origin_iff {spec : CorsTuple} (built : build spec = .ok layer) (handled : WireResponse)
    (h₁ : r₁.isPreflight = false) (h₂ : r₂.isPreflight = false) :
    (VarySafe (corsAndHandle (some layer) r₁ handled).headers (corsAndHandle (some layer) r₂ handled).headers ∧
        AddsOwn layer r₁ handled (corsAndHandle (some layer) r₁ handled).headers ∧
        AddsOwn layer r₂ handled (corsAndHandle (some layer) r₂ handled).headers) ↔
      ¬ Confusable layer handled r₁ r₂ := by
  rw [and_iff_left ⟨addsOwn built h₁, addsOwn built h₂⟩]
  by_cases hupgraded : handled.status = 101
  · have hsame (r : CorsRequest) (h : r.isPreflight = false) : corsAndHandle (some layer) r handled = handled := by
      simp only [corsAndHandle, h, Bool.false_eq_true, if_false, if_pos hupgraded]
    rw [hsame r₁ h₁, hsame r₂ h₂]
    refine iff_of_true ?_ fun hconfusable => hconfusable.upgraded hupgraded
    rintro ⟨name, hname⟩
    exact absurd rfl hname
  · have hdecorate (r : CorsRequest) (h : r.isPreflight = false) : (corsAndHandle (some layer) r handled).headers =
        layer.decorate (r.headers.get "origin") handled.headers := by
      simp only [corsAndHandle, h, Bool.false_eq_true, if_false, if_neg hupgraded]
    rw [hdecorate r₁ h₁, hdecorate r₂ h₂]
    exact varySafe_iff hupgraded

/-- The layer of a configuration allows what the configuration allows. -/
theorem allows_of_build {py : Lowering} (cors : Cors py) {spec : CorsTuple} (same : spec.origins = cors.allowOrigins)
    (built : build spec = .ok layer) (origin : Text) : layer.allows origin = cors.allows origin := by
  rw [build] at built
  split at built
  · cases built
  · cases built
    rw [allows, Cors.allows, same]

end CorsLayer

/-! ## Two requests -/

section Examples

/-- `CORS(allow_origins=[origin])`. -/
def oneOrigin (origin : String) : CorsTuple := ⟨[origin.toList], [['*']], [['*']], false, [], some 600⟩

def bareGet : CorsRequest := ⟨"GET", []⟩

def foreignGet : CorsRequest := ⟨"GET", [("origin", staticValue "https://a.example")]⟩

def emptyResponse : WireResponse := ⟨200, [], .empty, false⟩

/-- With one origin in the list a cache is told. -/
theorem vary_names_origin_listed : ∃ layer, CorsLayer.build (oneOrigin "https://a.example") = .ok layer ∧
    VarySafe (corsAndHandle (some layer) bareGet emptyResponse).headers
      (corsAndHandle (some layer) foreignGet emptyResponse).headers := by
  have built : CorsLayer.build (oneOrigin "https://a.example") = .ok _ := rfl
  refine ⟨_, built, ((CorsLayer.vary_names_origin_iff built emptyResponse ?_ ?_).mpr ?_).1⟩
  · decide +kernel
  · decide +kernel
  · intro hconfusable
    exact absurd hconfusable.wildcard (by decide +kernel)

/-- With any origin it is not: the request without an origin gets a response without a header, which a cache may
give to the other. -/
theorem any_origin_unvaried : ∃ layer, CorsLayer.build (oneOrigin "*") = .ok layer ∧
    bareGet.isPreflight = false ∧ foreignGet.isPreflight = false ∧
    ¬ VarySafe (corsAndHandle (some layer) bareGet emptyResponse).headers
      (corsAndHandle (some layer) foreignGet emptyResponse).headers := by
  refine ⟨_, rfl, by decide +kernel, by decide +kernel, ?_⟩
  intro hsafe
  obtain ⟨⟨v, hv, -⟩, -⟩ := hsafe ⟨allowOriginName, by
    intro heq
    exact absurd (congrArg List.length heq) (by decide +kernel)⟩
  exact absurd (List.length_pos_of_mem hv) (by decide +kernel)

end Examples

end Oxbrook
