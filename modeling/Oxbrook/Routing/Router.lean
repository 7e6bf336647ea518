import Oxbrook.Routing.Coerce

/-!
# The router

`Router::find` of `src/router.rs`: one radix tree for each HTTP method, the parameters of the route that matches,
and, for a path that matches nothing, whether it would under another method.

The trees are those of the `matchit` crate: what one says of a path is a parameter, and so is how a query string and
a percent-encoded segment are decoded.
-/

namespace Oxbrook

variable {F : Type*}

/-- Entries that are kept by their name are found by it. -/
lemma lookup_filter_key {β : Type*} (q : String → Bool) (entries : List (String × β)) (name : String) :
    (entries.filter fun entry => q entry.1).lookup name = if q name then entries.lookup name else none := by
  induction entries with
  | nil => simp
  | cons entry entries ih =>
    obtain ⟨key, value⟩ := entry
    rw [List.filter_cons]
    by_cases hname : name = key
    · subst hname
      cases hq : q name with
      | true => simp
      | false => simpa [hq] using ih
    · have hne : (name == key) = false := beq_false_of_ne hname
      cases hq : q key with
      | true => simpa [List.lookup_cons, hne] using ih
      | false => simpa [List.lookup_cons, hne] using ih

/-- How texts of a request are decoded and parsed. -/
structure Decoders (F : Type*) extends Parsers F where
  query : String → List (String × String)
  percent : String → String

/-- A path that matches: the index of the route, and the raw parameters by name. -/
structure Capture where
  route : ℕ
  params : String → Option String

/-- A radix tree, as a function of the path. -/
abbrev Matcher := String → Option Capture

structure RouteSpec where
  params : List ParamSpec
  websocket : Bool
  streaming : Bool
  deferred : Bool
  mount : Option ℕ

def RouteSpec.hasQuery (spec : RouteSpec) : Bool := spec.params.any fun param => param.source = .query

inductive RouteError
  | notFound
  | methodNotAllowed (allow : String)
  | badParam (route : ℕ) (error : ParamError)

structure Matched (F : Type*) where
  route : ℕ
  params : List (ParamValue F)
  file : Option String

structure Router where
  byMethod : List (String × Matcher)
  specs : ℕ → RouteSpec

/-- `decode_path`. -/
def decodePath (d : Decoders F) (raw : String) : String :=
  if '%' ∈ raw.toList then d.percent raw else raw

namespace Router

variable (r : Router)

/-- The route a method and a path lead to. -/
def at_ (method path : String) : Option Capture := (r.byMethod.lookup method).bind fun matcher => matcher path

/-- `other_methods`. -/
def otherMethods (method path : String) : RouteError :=
  let allowed := (r.byMethod.map Prod.fst).filter fun m => decide (m ≠ method) && (r.at_ m path).isSome
  if allowed.isEmpty then .notFound
  else .methodNotAllowed (", ".intercalate (allowed.mergeSort fun a b => decide (a ≤ b)))

/-- The file of a mount: an empty one for its directory, and none for the prefix without a slash. -/
def mountedFile (found : Capture) (path : String) : Option String :=
  match found.params "file" with
  | some file => some file
  | none => if path.endsWith "/" then some "" else none

/-- The parameters of a route, in order: the first that fails is the error. -/
def bindParams (d : Decoders F) (found : Capture) (query : Option String) :
    Except ParamError (List (ParamValue F)) :=
  let spec := r.specs found.route
  let pairs := if spec.hasQuery then d.query (query.getD "") else []
  spec.params.mapM (paramValue d.toParsers (fun name => (found.params name).map (decodePath d)) pairs)

/-- `Router::find`. -/
def find (d : Decoders F) (method path : String) (query : Option String) : Except RouteError (Matched F) :=
  match r.at_ method path with
  | none => .error (r.otherMethods method path)
  | some found =>
    if (r.specs found.route).mount.isSome then .ok ⟨found.route, [], mountedFile found path⟩
    else match r.bindParams d found query with
      | .ok params => .ok ⟨found.route, params, none⟩
      | .error error => .error (.badParam found.route error)

variable {r} {d : Decoders F} {path : String} {query : Option String}

/-- The methods of a path that neither of two methods has are the same for both. -/
lemma otherMethods_congr {method method' : String} (h : r.at_ method path = none)
    (h' : r.at_ method' path = none) : r.otherMethods method path = r.otherMethods method' path := by
  have hsame : ∀ m, (decide (m ≠ method) && (r.at_ m path).isSome) =
      (decide (m ≠ method') && (r.at_ m path).isSome) := by
    intro m
    by_cases hm : m = method
    · simp [hm, h]
    · by_cases hm' : m = method'
      · simp [hm', h']
      · simp [hm, hm']
  rw [otherMethods, otherMethods, List.filter_congr fun m _ => hsame m]

lemma otherMethods_ne_badParam {method : String} {route : ℕ} {error : ParamError} :
    r.otherMethods method path ≠ .badParam route error := by
  rw [otherMethods]
  split <;> nofun

lemma find_of_none {method : String} (h : r.at_ method path = none) :
    r.find d method path query = .error (r.otherMethods method path) := by
  rw [find, h]

end Router

end Oxbrook
