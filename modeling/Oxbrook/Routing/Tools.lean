import Oxbrook.Routing.Construct
import Oxbrook.Routing.Router

/-!
# Routes as tools

`Capability` of `python/oxbrook/_capabilities.py`: a route that an agent may call by name, with its arguments in one
JSON object.  Over HTTP the router coerces the parameters of a route and the worker builds Python objects from
them; as a tool the handler gets the values of the JSON object as they are.

`tool_call_binds_iff` says for which arguments the two agree.  They do not when a parameter is a UUID or a date,
which JSON has no values for; when an integer is given for a float; when an optional parameter without a default
is left out, which the router passes as `None`; when `null` is given for one with a default, which a query string
can only leave out; when a list is empty; and when an argument is none the route knows, which the schema does not
forbid.
-/

namespace Oxbrook

open Numerals

variable {F : Type*}

/-! ## Python objects -/

/-- A Python object that `json.loads` or the worker makes. -/
inductive PyObject (F : Type*)
  | str (value : String)
  | int (value : ℤ)
  | float (value : F)
  | bool (value : Bool)
  | uuid (value : ℕ)
  | date (value : PyDate)
  | dateTime (value : PyDateTime)
  | list (items : List (PyObject F))
  | dict (fields : List (String × PyObject F))
  | none

def PyValue.object : PyValue F → PyObject F
  | .str value => .str value
  | .int value => .int value
  | .float value => .float value
  | .bool value => .bool value
  | .uuid value => .uuid value
  | .date value => .date value
  | .dateTime value => .dateTime value
  | .list items => .list (items.map PyValue.object)
  | .none => .none

/-- A `dict` with strings for keys. -/
abbrev Keywords (F : Type*) := List (String × PyObject F)

/-- Python objects as text: how `repr` writes a float, that `f64` reads it back and that it is never an integer to
`i64`; which floats JSON Schema takes for integers; and what `str` makes of other objects than scalars. -/
structure Wire (F : Type*) extends Parsers F where
  repr : F → String
  integral : F → Bool
  display : PyObject F → String
  float_repr : ∀ x, float (repr x) = some x
  repr_not_int : ∀ x, parseInt (repr x) = none

/-- An integer in decimal. -/
def intText (n : ℤ) : String :=
  .ofList (if n < 0 then '-' :: Nat.toDigits 10 n.natAbs else Nat.toDigits 10 n.natAbs)

/-- A value as a URL or a form carries it. -/
def Wire.text (w : Wire F) : PyObject F → String
  | .str value => value
  | .int value => intText value
  | .float value => w.repr value
  | .bool value => if value then "true" else "false"
  | value => w.display value

/-- The values of one field: a list is a repeated field, and `None` is left out. -/
def Wire.texts (w : Wire F) : PyObject F → List String
  | .list items => items.flatMap fun item => match item with
    | .none => []
    | item => [w.text item]
  | .none => []
  | value => [w.text value]

/-! ## Routes -/

structure ParamInfo where
  name : String
  kind : ParamKind
  source : Source
  presence : Presence
  optional : Bool
  repeated : Bool

/-- What the router is told of a parameter. -/
def ParamInfo.spec (p : ParamInfo) : ParamSpec := ⟨p.name, p.kind, p.source, p.presence, p.repeated⟩

/-- How `build_route` describes a parameter of the path. -/
def pathParam (declared : String × ParamKind) : ParamInfo :=
  ⟨declared.1, declared.2, .path, .required, false, false⟩

/-- A parameter of the handler that is not in the path. -/
structure QueryDecl where
  name : String
  kind : ParamKind
  optional : Bool
  repeated : Bool
  hasDefault : Bool

/-- How `build_route` describes it. -/
def QueryDecl.info (declared : QueryDecl) : ParamInfo where
  name := declared.name
  kind := declared.kind
  source := .query
  presence := if declared.hasDefault then .omit else if declared.optional then .null else .required
  optional := declared.optional
  repeated := declared.repeated

/-- A pydantic model a route takes its body or its form from: the fields of its schema. -/
structure BodyModel (F : Type*) where
  form : Bool
  fields : List String
  required : List String
  admits : String → PyObject F → Bool

/-- A route that is a tool.  The parameters of a handler have different names, and a body field of the same name
as one is refused. -/
structure Capability (F : Type*) where
  pathParams : List (String × ParamKind)
  queryParams : List QueryDecl
  body : Option (BodyModel F)
  nodup : (pathParams.map Prod.fst ++ queryParams.map QueryDecl.name).Nodup
  apart : ∀ model ∈ body, ∀ field ∈ model.fields, field ∉ pathParams.map Prod.fst ++ queryParams.map QueryDecl.name

/-! ## The schema -/

/-- `_SCALAR_SCHEMA`.  A format is an annotation: any string meets it. -/
def ParamKind.admits (w : Wire F) : ParamKind → PyObject F → Bool
  | .str, .str _ => true
  | .int, .int _ => true
  | .int, .float x => w.integral x
  | .float, .int _ => true
  | .float, .float _ => true
  | .bool, .bool _ => true
  | .uuid, .str _ => true
  | .date, .str _ => true
  | .dateTime, .str _ => true
  | _, _ => false

/-- `_param_schema`. -/
def ParamInfo.admits (w : Wire F) (p : ParamInfo) : PyObject F → Bool
  | .none => p.optional
  | .list items => p.repeated && items.all (p.kind.admits w)
  | value => ! p.repeated && p.kind.admits w value

namespace Capability

variable (c : Capability F)

def params : List ParamInfo := c.pathParams.map pathParam ++ c.queryParams.map QueryDecl.info

def bodyFields : List String := (c.body.map BodyModel.fields).getD []

def required : List String :=
  ((c.params.filter fun p => p.source = .path ∨ p.presence = .required).map ParamInfo.name) ++
    (c.body.map BodyModel.required).getD []

/-- The arguments meet `input_schema`, which does not restrict other properties. -/
structure Validates (w : Wire F) (arguments : Keywords F) : Prop where
  required : ∀ name ∈ c.required, (arguments.lookup name).isSome = true
  params : ∀ p ∈ c.params, ∀ value, arguments.lookup p.name = some value → p.admits w value = true
  body : ∀ model ∈ c.body, ∀ field ∈ model.fields, ∀ value, arguments.lookup field = some value →
    model.admits field value = true

/-! ## A tool call -/

/-- Why a capability was not invoked, with the arguments it is about. -/
inductive CapabilityError
  | unexpected (names : List String)
  | missing (names : List String)

/-- The body of the synthesized request, before it is encoded. -/
inductive Payload (F : Type*)
  | empty
  | json (fields : Keywords F)
  | form (fields : List (String × String))

def isParam (name : String) : Bool := c.params.any fun p => p.name = name

/-- `_split`: the arguments for the path and the query, for the body, and the rest. -/
def split (arguments : Keywords F) : Keywords F × Keywords F × Keywords F :=
  (arguments.filter fun a => c.isParam a.1,
    arguments.filter fun a => ! c.isParam a.1 && decide (a.1 ∈ c.bodyFields),
    arguments.filter fun a => ! c.isParam a.1 && ! decide (a.1 ∈ c.bodyFields))

/-- `_urlencoded`, before the escaping. -/
def urlencoded (w : Wire F) (fields : Keywords F) : List (String × String) :=
  fields.flatMap fun field => (w.texts field.2).map fun text => (field.1, text)

def payload (w : Wire F) (body : Keywords F) : Payload F :=
  match c.body with
  | some ⟨true, _, _, _⟩ => .form (urlencoded w body)
  | _ => if body.isEmpty then .empty else .json body

/-- `invoke`: the keyword arguments the target is called with, and the body of the request it is called with. -/
def invoke (w : Wire F) (arguments : Keywords F) : Except CapabilityError (Keywords F × Payload F) :=
  let (params, body, unknown) := c.split arguments
  if ¬ unknown.isEmpty then .error (.unexpected (unknown.map Prod.fst))
  else
    let missing := c.required.filter fun name => (params.lookup name).isNone && (body.lookup name).isNone
    if ¬ missing.isEmpty then .error (.missing missing) else .ok (params, c.payload w body)

/-! ## The same request over HTTP -/

/-- The keyword arguments the worker builds. -/
def keywords (other : OtherForms) : List ParamSpec → List (ParamValue F) → Option (Keywords F)
  | _ :: specs, .omit :: values => keywords other specs values
  | spec :: specs, value :: values => do
    let built ← toPython other value
    let rest ← keywords other specs values
    some ((spec.name, built.object) :: rest)
  | _, _ => some []

/-- The keyword arguments of a request with these path parameters and this query: `Router::find` and the worker. -/
def serve (w : Wire F) (other : OtherForms) (path : String → Option String) (pairs : List (String × String)) :
    Option (Keywords F) := do
  let specs := c.params.map ParamInfo.spec
  let values ← (specs.mapM (paramValue w.toParsers path pairs)).toOption
  keywords other specs values

/-- A request carries the arguments in its path and its query. -/
structure Carries (w : Wire F) (arguments : Keywords F) (path : String → Option String)
    (pairs : List (String × String)) : Prop where
  path : ∀ p ∈ c.params, p.source = .path → path p.name = (arguments.lookup p.name).map w.text
  query : ∀ p ∈ c.params, p.source = .query →
    (pairs.filter fun pair => pair.1 == p.name).map Prod.snd =
      ((arguments.lookup p.name).map w.texts).getD []

/-- The route's own coercion accepts the values. -/
def Coerces (w : Wire F) (arguments : Keywords F) : Prop :=
  ∀ p ∈ c.params, ∀ value, arguments.lookup p.name = some value → ∀ raw ∈ w.texts value,
    ∃ coerced, coerce w.toParsers raw p.spec = .ok coerced

end Capability

/-! ## When the two agree -/

/-- The JSON value is the one the worker builds. -/
def ParamKind.Keeps : ParamKind → PyObject F → Prop
  | .str, _ => True
  | .int, _ => True
  | .bool, _ => True
  | .float, .float _ => True
  | _, _ => False

/-- What is given for a parameter is what the router and the worker make of it. -/
def ParamInfo.Keeps (p : ParamInfo) : Option (PyObject F) → Prop
  | none => p.presence ≠ .null
  | some .none => p.presence = .null
  | some (.list items) => items ≠ [] ∧ ∀ item ∈ items, p.kind.Keeps item
  | some value => p.kind.Keeps value

/-! ### One value -/

section Values

variable (w : Wire F) (other : OtherForms)

lemma readDigits_cons_sign {c : Char} (hc : valueOfDigit c = none) (text : List Char) :
    readDigits 10 (c :: text) = none := by
  have hfold : ∀ text : List Char, text.foldl (fun value c => value.bind fun v => (valueOfDigit c).bind fun d =>
      if d < 10 then some (v * 10 + d) else none) (none : Option ℕ) = none := by
    intro text
    induction text with
    | nil => rfl
    | cons c text ih => exact ih
  rw [readDigits, List.foldl_cons, hc]
  exact hfold text

/-- A numeral without a sign. -/
lemma parseInt_of_digits {text : List Char} {n : ℕ} (h : readDigits 10 text = some n) :
    parseInt (.ofList text) = if text.isEmpty then none
      else if -2 ^ 63 ≤ (1 : ℤ) * n ∧ (1 : ℤ) * n < 2 ^ 63 then some ((1 : ℤ) * n) else none := by
  simp only [parseInt, String.toList_ofList]
  split
  case h_1 digits =>
    rw [readDigits_cons_sign (by decide)] at h
    exact nomatch h
  case h_2 digits =>
    rw [readDigits_cons_sign (by decide)] at h
    exact nomatch h
  case h_3 => rw [h, Option.bind_some]

/-- An integer is read back as itself. -/
lemma parseInt_intText {n m : ℤ} (h : parseInt (intText n) = some m) : m = n := by
  have hdigits := readDigits_toDigits (by decide : 1 < 10) (by decide) n.natAbs
  by_cases hn : n < 0
  · simp only [parseInt, intText, if_pos hn, String.toList_ofList, hdigits, Option.bind_some] at h
    obtain ⟨-, h⟩ := Option.ite_none_left_eq_some.mp h
    obtain ⟨-, h⟩ := Option.ite_none_right_eq_some.mp h
    have hm := Option.some.inj h
    omega
  · rw [intText, if_neg hn, parseInt_of_digits hdigits] at h
    obtain ⟨-, h⟩ := Option.ite_none_left_eq_some.mp h
    obtain ⟨-, h⟩ := Option.ite_none_right_eq_some.mp h
    have hm := Option.some.inj h
    omega

/-- What the worker makes of a scalar is the scalar itself just when its kind keeps it. -/
lemma built_iff_keeps {p : ParamSpec} {value : PyObject F} {coerced : ParamValue F}
    (admits : p.kind.admits w value = true) (h : coerce w.toParsers (w.text value) p = .ok coerced) :
    (toPython other coerced).map PyValue.object = some value ↔ p.kind.Keeps value := by
  generalize hkind : p.kind = kind at admits ⊢
  match kind, value, hkind, admits with
  | .str, .str text, hkind, _ =>
    obtain rfl : ParamValue.str text = coerced := by simpa [coerce, hkind, Wire.text] using h
    simp [toPython, PyValue.object, ParamKind.Keeps]
  | .int, .int n, hkind, _ =>
    simp only [coerce, hkind, Wire.text] at h
    cases hn : parseInt (intText n) with
    | none => simp [hn] at h
    | some m =>
      obtain rfl := parseInt_intText hn
      obtain rfl : ParamValue.int m = coerced := by simpa [hn] using h
      simp [toPython, PyValue.object, ParamKind.Keeps]
  | .int, .float x, hkind, _ => simp [coerce, hkind, Wire.text, w.repr_not_int] at h
  | .float, .float x, hkind, _ =>
    simp only [coerce, hkind, Wire.text, w.float_repr, Option.filter] at h
    split_ifs at h with hfinite
    · obtain rfl : ParamValue.float x = coerced := by simpa using h
      simp [toPython, PyValue.object, ParamKind.Keeps]
    · simp at h
  | .float, .int n, hkind, _ =>
    simp only [coerce, hkind] at h
    cases hx : (w.float (w.text (.int n))).filter w.isFinite with
    | none => simp [hx] at h
    | some x =>
      obtain rfl : ParamValue.float x = coerced := by simpa [hx] using h
      simp [toPython, PyValue.object, ParamKind.Keeps]
  | .bool, .bool b, hkind, _ =>
    obtain rfl : ParamValue.bool b = coerced := by
      cases b <;> simpa [coerce, hkind, Wire.text] using h
    simp [toPython, PyValue.object, ParamKind.Keeps]
  | .uuid, .str text, hkind, _ =>
    simp only [coerce, hkind] at h
    cases hx : w.uuid (w.text (.str text)) with
    | none => simp [hx] at h
    | some uuid =>
      obtain rfl : ParamValue.uuid (.ofList uuid.hyphenated) = coerced := by simpa [hx] using h
      simp [toPython, PyValue.object, ParamKind.Keeps]
  | .date, .str text, hkind, _ =>
    obtain ⟨date, -, rfl⟩ := coerce_date w.toParsers hkind h
    simp [toPython, PyValue.object, ParamKind.Keeps]
  | .dateTime, .str text, hkind, _ =>
    obtain ⟨text, -, rfl⟩ := coerce_dateTime w.toParsers hkind h
    simp [toPython, PyValue.object, ParamKind.Keeps]

omit w in
lemma mapM_object_iff {items : List (PyObject F)} {values : List (ParamValue F)} :
    (values.mapM fun value => toPython other value).map (List.map PyValue.object) = some items ↔
      List.Forall₂ (fun value item => (toPython other value).map PyValue.object = some item) values items := by
  induction values generalizing items with
  | nil => cases items <;> simp
  | cons value values ih =>
    cases items with
    | nil =>
      cases hfirst : toPython other value <;>
        cases hrest : values.mapM fun value => toPython other value <;> simp [hfirst, hrest]
    | cons item items =>
      rw [List.forall₂_cons, ← ih]
      cases hfirst : toPython other value <;>
        cases hrest : values.mapM fun value => toPython other value <;> simp [hfirst, hrest]

omit w in
/-- A list that is built consists of what its items become. -/
lemma built_list_iff {items : List (PyObject F)} {values : List (ParamValue F)} :
    (toPython other (.list values)).map PyValue.object = some (.list items) ↔
      List.Forall₂ (fun value item => (toPython other value).map PyValue.object = some item) values items := by
  rw [← mapM_object_iff, toPython]
  cases values.mapM fun value => toPython other value with
  | none => simp
  | some built => simp [PyValue.object]

/-- What the worker makes of the items of a list. -/
lemma built_list_iff_keeps {p : ParamSpec} {items : List (PyObject F)} {values : List (ParamValue F)}
    (admits : ∀ item ∈ items, p.kind.admits w item = true)
    (h : ((items.map w.text).mapM fun raw => coerce w.toParsers raw p) = .ok values) :
    (toPython other (.list values)).map PyValue.object = some (.list items) ↔
      ∀ item ∈ items, p.kind.Keeps item := by
  rw [built_list_iff]
  induction items generalizing values with
  | nil =>
    obtain rfl : [] = values := by simpa [pure, Except.pure] using h
    simp
  | cons item items ih =>
    rw [List.map_cons, List.mapM_cons] at h
    cases hfirst : coerce w.toParsers (w.text item) p with
    | error error => simp [hfirst, bind, Except.bind] at h
    | ok value =>
      cases hrest : (items.map w.text).mapM fun raw => coerce w.toParsers raw p with
      | error error => simp [hfirst, hrest, bind, Except.bind] at h
      | ok rest =>
        obtain rfl : value :: rest = values := by
          simpa [hfirst, hrest, bind, Except.bind, pure, Except.pure] using h
        obtain ⟨hitem, hitems⟩ := List.forall_mem_cons.mp admits
        rw [List.forall₂_cons, List.forall_mem_cons, built_iff_keeps w other hitem hfirst, ih hitems hrest]

/-- What the router and the worker make of a parameter: nothing at all, or the object that is passed. -/
def served : Except ParamError (ParamValue F) → Option (Option (PyObject F))
  | .ok .omit => some none
  | .ok value => (toPython other value).map fun built => some built.object
  | .error _ => none

omit w in
/-- What is coerced is passed on. -/
lemma coerce_ne_omit {parsers : Parsers F} {p : ParamSpec} {raw : String} {value : ParamValue F}
    (h : coerce parsers raw p = .ok value) : value ≠ .omit := by
  rintro rfl
  simp only [coerce] at h
  split at h
  case h_1 coerced hcoerced =>
    obtain rfl := Except.ok.inj h
    cases hkind : p.kind <;> simp [hkind] at hcoerced
    split_ifs at hcoerced <;> simp at hcoerced
  case h_2 => cases h

omit w in
lemma served_ok {value : ParamValue F} (h : value ≠ .omit) :
    served other (.ok value) = ((toPython other value).map PyValue.object).map some := by
  rw [served, Option.map_map]
  · rfl
  · exact h

/-- A query parameter of which the query has no value. -/
lemma served_absent {path : String → Option String} {pairs : List (String × String)} {p : ParamSpec}
    (hquery : p.source = .query) (h : (pairs.filter fun pair => pair.1 == p.name).map Prod.snd = []) :
    served other (paramValue w.toParsers path pairs p) =
      match p.presence with
      | .required => none
      | .omit => some none
      | .null => some (some .none) := by
  have hfind : (pairs.find? fun pair => pair.1 == p.name).map Prod.snd = none := by
    rw [← List.head?_filter, ← List.head?_map, h]
    rfl
  cases hrepeated : p.repeated <;> cases hpresence : p.presence <;>
    simp [paramValue, hrepeated, hpresence, hquery, h, hfind, served, toPython, PyValue.object, pure, Except.pure,
      bind, Except.bind]

end Values

/-! ### One parameter -/

namespace Capability

variable {c : Capability F} {w : Wire F} {other : OtherForms} {arguments : Keywords F}
  {path : String → Option String} {pairs : List (String × String)} {p : ParamInfo}

/-- The parameters `build_route` describes. -/
lemma param_cases (hp : p ∈ c.params) :
    (p.source = .path ∧ p.presence = .required ∧ p.optional = false ∧ p.repeated = false) ∨
      (p.source = .query ∧ (p.presence = .required → p.optional = false)) := by
  rcases List.mem_append.mp hp with hp | hp
  · obtain ⟨declared, -, rfl⟩ := List.mem_map.mp hp
    exact .inl ⟨rfl, rfl, rfl, rfl⟩
  · obtain ⟨declared, -, rfl⟩ := List.mem_map.mp hp
    refine .inr ⟨rfl, ?_⟩
    cases hdefault : declared.hasDefault <;> cases hoptional : declared.optional <;>
      simp [QueryDecl.info, hdefault, hoptional]

/-- A parameter that may be left out is a query parameter that is not required. -/
lemma not_required (valid : c.Validates w arguments) (hp : p ∈ c.params) (h : arguments.lookup p.name = none) :
    p.source = .query ∧ p.presence ≠ .required := by
  have hnot : ¬ (p.source = .path ∨ p.presence = .required) := by
    intro hrequired
    have hmem : p.name ∈ c.required :=
      List.mem_append_left _ (List.mem_map.mpr ⟨p, List.mem_filter.mpr ⟨hp, by simpa using hrequired⟩, rfl⟩)
    have hgiven := valid.required p.name hmem
    rw [h] at hgiven
    exact nomatch hgiven
  rcases param_cases hp with ⟨hpath, -⟩ | ⟨hquery, -⟩
  · exact absurd (.inl hpath) hnot
  · exact ⟨hquery, fun hpresence => hnot (.inr hpresence)⟩

/-- The raw text of a parameter that is given one value. -/
lemma paramValue_single (carries : c.Carries w arguments path pairs) (hp : p ∈ c.params)
    (hrepeated : p.repeated = false) {value : PyObject F} (h : arguments.lookup p.name = some value)
    (htexts : w.texts value = [w.text value]) :
    paramValue w.toParsers path pairs p.spec = coerce w.toParsers (w.text value) p.spec := by
  rcases param_cases hp with ⟨hpath, -⟩ | ⟨hquery, -⟩
  · have hraw : path p.name = some (w.text value) := by rw [carries.path p hp hpath, h, Option.map_some]
    simp [paramValue, ParamInfo.spec, hrepeated, hpath, hraw]
  · have hraws := carries.query p hp hquery
    rw [h, Option.map_some, Option.getD_some, htexts] at hraws
    have hraw : (pairs.find? fun pair => pair.1 == p.name).map Prod.snd = some (w.text value) := by
      rw [← List.head?_filter, ← List.head?_map, hraws]
      rfl
    simp [paramValue, ParamInfo.spec, hrepeated, hquery, hraw]

lemma texts_list {items : List (PyObject F)} {kind : ParamKind}
    (admits : ∀ item ∈ items, kind.admits w item = true) : w.texts (.list items) = items.map w.text := by
  induction items with
  | nil => rfl
  | cons item items ih =>
    obtain ⟨hitem, hitems⟩ := List.forall_mem_cons.mp admits
    have hrest : w.texts (.list (item :: items)) = w.text item :: w.texts (.list items) := by
      cases item with
      | none => cases kind <;> exact nomatch hitem
      | _ => rfl
    rw [hrest, ih hitems, List.map_cons]

/-- Texts that are each accepted are accepted together. -/
lemma mapM_coerce {spec : ParamSpec} {raws : List String}
    (h : ∀ raw ∈ raws, ∃ value, coerce w.toParsers raw spec = .ok value) :
    ∃ values, (raws.mapM fun raw => coerce w.toParsers raw spec) = .ok values ∧ values.length = raws.length := by
  induction raws with
  | nil => exact ⟨[], rfl, rfl⟩
  | cons raw raws ih =>
    obtain ⟨⟨value, hvalue⟩, hrest⟩ := List.forall_mem_cons.mp h
    obtain ⟨values, hvalues, hlength⟩ := ih hrest
    refine ⟨value :: values, ?_, ?_⟩
    · rw [List.mapM_cons, hvalue, hvalues]
      rfl
    · rw [List.length_cons, hlength, List.length_cons]

lemma served_single (coerces : c.Coerces w arguments) (carries : c.Carries w arguments path pairs)
    (hp : p ∈ c.params) (hrepeated : p.repeated = false) {value : PyObject F}
    (h : arguments.lookup p.name = some value) (admits : p.kind.admits w value = true)
    (htexts : w.texts value = [w.text value]) :
    served other (paramValue w.toParsers path pairs p.spec) = some (some value) ↔ p.kind.Keeps value := by
  obtain ⟨coerced, hcoerced⟩ := coerces p hp value h (w.text value) (by simp [htexts])
  rw [paramValue_single carries hp hrepeated h htexts, hcoerced, served_ok other (coerce_ne_omit hcoerced),
    Option.map_eq_some_iff]
  simp only [Option.some.injEq, exists_eq_right]
  exact built_iff_keeps w other admits hcoerced

lemma served_list (coerces : c.Coerces w arguments) (carries : c.Carries w arguments path pairs)
    (hp : p ∈ c.params) (hrepeated : p.repeated = true) {items : List (PyObject F)}
    (h : arguments.lookup p.name = some (.list items)) (admits : ∀ item ∈ items, p.kind.admits w item = true) :
    served other (paramValue w.toParsers path pairs p.spec) = some (some (.list items)) ↔
      items ≠ [] ∧ ∀ item ∈ items, p.kind.Keeps item := by
  have hquery : p.source = .query := by
    rcases param_cases hp with ⟨-, -, -, hnot⟩ | ⟨hquery, -⟩
    · exact nomatch hnot.symm.trans hrepeated
    · exact hquery
  have hraws := carries.query p hp hquery
  rw [h, Option.map_some, Option.getD_some, texts_list admits] at hraws
  by_cases hempty : items = []
  · -- an empty list leaves no trace in a query
    subst hempty
    rw [served_absent w other hquery hraws]
    cases p.spec.presence <;> simp
  · have haccepted : ∀ raw ∈ items.map w.text, ∃ value, coerce w.toParsers raw p.spec = .ok value :=
      fun raw hraw => coerces p hp _ h raw (by rwa [texts_list admits])
    obtain ⟨values, hvalues, hlength⟩ := mapM_coerce haccepted
    have hnonempty : values.isEmpty = false := by
      rw [List.isEmpty_eq_false_iff, ← List.length_pos_iff, hlength, List.length_map]
      exact List.length_pos_iff.mpr hempty
    have hvalue : paramValue w.toParsers path pairs p.spec = .ok (.list values) := by
      have hrepeated' : p.spec.repeated = true := hrepeated
      have hraws' : (pairs.filter fun pair => pair.1 == p.spec.name).map Prod.snd = items.map w.text := hraws
      simp [paramValue, hrepeated', hraws', hvalues, hnonempty, bind, Except.bind]
    have hpassed : ParamValue.list values ≠ .omit := by
      intro hlist
      exact nomatch hlist
    rw [hvalue, served_ok other hpassed, Option.map_eq_some_iff]
    simp only [Option.some.injEq, exists_eq_right]
    rw [built_list_iff_keeps w other admits hvalues]
    exact ⟨fun hkeeps => ⟨hempty, hkeeps⟩, fun hkeeps => hkeeps.2⟩

/-- The router and the worker pass what the tool call passes just when the parameter keeps it. -/
lemma served_iff_keeps (valid : c.Validates w arguments) (coerces : c.Coerces w arguments)
    (carries : c.Carries w arguments path pairs) (hp : p ∈ c.params) :
    served other (paramValue w.toParsers path pairs p.spec) = some (arguments.lookup p.name) ↔
      p.Keeps (arguments.lookup p.name) := by
  cases h : arguments.lookup p.name with
  | none =>
    obtain ⟨hquery, hpresence⟩ := not_required valid hp h
    have hraws := carries.query p hp hquery
    rw [h] at hraws
    rw [served_absent w other hquery hraws, ParamInfo.Keeps]
    cases hp' : p.presence <;> simp_all [ParamInfo.spec]
  | some value =>
    have hadmits := valid.params p hp value h
    cases value with
    | none =>
      rcases param_cases hp with ⟨-, -, hnot, -⟩ | ⟨hquery, hrequired⟩
      · exact nomatch hnot.symm.trans hadmits
      · have hraws := carries.query p hp hquery
        rw [h] at hraws
        rw [served_absent w other hquery hraws, ParamInfo.Keeps]
        cases hp' : p.presence <;> simp_all [ParamInfo.spec, ParamInfo.admits]
    | list items =>
      obtain ⟨hrepeated, hitems⟩ := Bool.and_eq_true_iff.mp hadmits
      exact served_list coerces carries hp hrepeated h (List.all_eq_true.mp hitems)
    | _ =>
      obtain ⟨hrepeated, hkind⟩ := Bool.and_eq_true_iff.mp hadmits
      exact served_single coerces carries hp (by simpa using hrepeated) h hkind rfl

/-! ### The whole call -/

/-- The keyword arguments built from the values that `bind` gives each parameter. -/
def bound (other : OtherForms) (bind : ParamSpec → Except ParamError (ParamValue F)) (specs : List ParamSpec) :
    Option (Keywords F) :=
  (specs.mapM bind).toOption.bind (keywords other specs)

/-- One parameter and its value. -/
lemma keywords_cons (spec : ParamSpec) (specs : List ParamSpec) (value : ParamValue F)
    (values : List (ParamValue F)) :
    keywords other (spec :: specs) (value :: values) = (served other (.ok value)).bind fun passed =>
      (keywords other specs values).map fun rest =>
        (passed.map fun object => (spec.name, object)).toList ++ rest := by
  by_cases hpassed : value = .omit
  · subst hpassed
    simp [keywords, served]
  · rw [served_ok other hpassed, keywords]
    · cases toPython other value <;> cases keywords other specs values <;> simp
    · exact hpassed

lemma bound_cons (bind : ParamSpec → Except ParamError (ParamValue F)) (spec : ParamSpec)
    (specs : List ParamSpec) :
    bound other bind (spec :: specs) = (served other (bind spec)).bind fun passed =>
      (bound other bind specs).map fun rest =>
        (passed.map fun object => (spec.name, object)).toList ++ rest := by
  rw [bound, List.mapM_cons]
  cases hfirst : bind spec with
  | error error => rfl
  | ok value =>
    cases hrest : specs.mapM bind with
    | error error =>
      rw [bound, hrest]
      cases served other (.ok value) <;> rfl
    | ok values =>
      rw [bound, hrest]
      exact keywords_cons spec specs value values

/-- The keyword arguments hold what is passed for each parameter, and nothing else. -/
lemma lookup_bound {bind : ParamSpec → Except ParamError (ParamValue F)} {specs : List ParamSpec}
    (nodup : (specs.map ParamSpec.name).Nodup) {built : Keywords F} (h : bound other bind specs = some built) :
    (∀ spec ∈ specs, served other (bind spec) = some (built.lookup spec.name)) ∧
      ∀ name ∉ specs.map ParamSpec.name, built.lookup name = none := by
  induction specs generalizing built with
  | nil =>
    obtain rfl : [] = built := Option.some.inj h
    simp
  | cons spec specs ih =>
    rw [List.map_cons, List.nodup_cons] at nodup
    rw [bound_cons] at h
    obtain ⟨passed, hpassed, h⟩ := Option.bind_eq_some_iff.mp h
    obtain ⟨rest, hrest, rfl⟩ := Option.map_eq_some_iff.mp h
    obtain ⟨hspecs, hothers⟩ := ih nodup.2 hrest
    have hskip : ∀ name, name ≠ spec.name →
        ((passed.map fun object => (spec.name, object)).toList ++ rest).lookup name = rest.lookup name := by
      intro name hname
      cases passed with
      | none => rfl
      | some object =>
        have hne : (name == spec.name) = false := beq_false_of_ne hname
        simp [List.lookup_cons, hne]
    have hself : ((passed.map fun object => (spec.name, object)).toList ++ rest).lookup spec.name = passed := by
      cases passed with
      | none => exact hothers spec.name nodup.1
      | some object => simp
    constructor
    · intro other' hmem
      rcases List.mem_cons.mp hmem with rfl | hmem
      · rw [hself, hpassed]
      · have hname : other'.name ≠ spec.name := by
          intro hsame
          exact nodup.1 (hsame ▸ List.mem_map_of_mem hmem)
        rw [hskip _ hname]
        exact hspecs other' hmem
    · intro name hname
      rw [List.map_cons, List.mem_cons, not_or] at hname
      rw [hskip name hname.1]
      exact hothers name hname.2

lemma bound_isSome {bind : ParamSpec → Except ParamError (ParamValue F)} {specs : List ParamSpec}
    (h : ∀ spec ∈ specs, ∃ passed, served other (bind spec) = some passed) :
    ∃ built, bound other bind specs = some built := by
  induction specs with
  | nil => exact ⟨[], rfl⟩
  | cons spec specs ih =>
    obtain ⟨⟨passed, hpassed⟩, hrest⟩ := List.forall_mem_cons.mp h
    obtain ⟨built, hbuilt⟩ := ih hrest
    rw [bound_cons, hpassed, hbuilt]
    exact ⟨_, rfl⟩

/-- The tool call and the request call the target with the same keyword arguments. -/
def BindsAlike (c : Capability F) (w : Wire F) (other : OtherForms) (arguments : Keywords F)
    (path : String → Option String) (pairs : List (String × String)) : Prop :=
  ∃ called payload built, c.invoke w arguments = .ok (called, payload) ∧
    c.serve w other path pairs = some built ∧ ∀ name, called.lookup name = built.lookup name

/-- Every argument is one the route knows, and each parameter keeps what is given for it. -/
def Kept (c : Capability F) (arguments : Keywords F) : Prop :=
  (∀ argument ∈ arguments, c.isParam argument.1 = true ∨ argument.1 ∈ c.bodyFields) ∧
    ∀ p ∈ c.params, p.Keeps (arguments.lookup p.name)

lemma isParam_iff {name : String} : c.isParam name = true ↔ name ∈ c.params.map ParamInfo.name := by
  simp [isParam]

/-- No argument is left over just when the route knows them all. -/
lemma split_unknown : (c.split arguments).2.2.isEmpty = true ↔
    ∀ argument ∈ arguments, c.isParam argument.1 = true ∨ argument.1 ∈ c.bodyFields := by
  simp only [split, List.isEmpty_iff, List.filter_eq_nil_iff, Bool.and_eq_true, Bool.not_eq_true',
    decide_eq_false_iff_not, not_and_or, Bool.not_eq_false, not_not]

lemma split_missing (valid : c.Validates w arguments)
    (known : ∀ argument ∈ arguments, c.isParam argument.1 = true ∨ argument.1 ∈ c.bodyFields) :
    (c.required.filter fun name =>
      ((c.split arguments).1.lookup name).isNone && ((c.split arguments).2.1.lookup name).isNone) = [] := by
  rw [List.filter_eq_nil_iff]
  intro name hname
  obtain ⟨value, hvalue⟩ := Option.isSome_iff_exists.mp (valid.required name hname)
  have hmem : ∃ argument ∈ arguments, argument.1 = name := by
    obtain ⟨before, after, harguments, -⟩ := List.lookup_eq_some_iff.mp hvalue
    exact ⟨(name, value), by simp [harguments], rfl⟩
  obtain ⟨argument, hargument, rfl⟩ := hmem
  have hparams := lookup_filter_key c.isParam arguments argument.1
  have hbody := lookup_filter_key (fun name => ! c.isParam name && decide (name ∈ c.bodyFields)) arguments
    argument.1
  simp only [split, hparams, hbody, hvalue]
  cases hparam : c.isParam argument.1 with
  | true => simp
  | false =>
    have hfield := (known argument hargument).resolve_left (by simp [hparam])
    simp [hfield]

/-- Arguments that meet the schema are refused only for one the route does not know. -/
lemma invoke_eq_ok (valid : c.Validates w arguments) {result : Keywords F × Payload F} :
    c.invoke w arguments = .ok result ↔
      (∀ argument ∈ arguments, c.isParam argument.1 = true ∨ argument.1 ∈ c.bodyFields) ∧
        ((c.split arguments).1, c.payload w (c.split arguments).2.1) = result := by
  rw [← split_unknown]
  simp only [invoke]
  by_cases hunknown : (c.split arguments).2.2.isEmpty = true
  · have hmissing := split_missing valid (split_unknown.mp hunknown)
    simp [hunknown, hmissing]
  · simp [hunknown]

/-- **A tool call binds as the request does** just when every argument is kept.  The request is any that carries
the arguments in its path and its query, and the arguments meet the schema and are accepted by the coercion of
the route. -/
theorem tool_call_binds_iff (valid : c.Validates w arguments) (coerces : c.Coerces w arguments)
    (carries : c.Carries w arguments path pairs) :
    c.BindsAlike w other arguments path pairs ↔ c.Kept arguments := by
  have hnames : (c.params.map ParamInfo.spec).map ParamSpec.name = c.params.map ParamInfo.name := by
    rw [List.map_map]
    rfl
  have hnodup : ((c.params.map ParamInfo.spec).map ParamSpec.name).Nodup := by
    rw [hnames, params, List.map_append, List.map_map, List.map_map]
    exact c.nodup
  have hserve : c.serve w other path pairs =
      bound other (paramValue w.toParsers path pairs) (c.params.map ParamInfo.spec) := rfl
  have hcalled : ∀ name, (c.split arguments).1.lookup name =
      if c.isParam name then arguments.lookup name else none := lookup_filter_key c.isParam arguments
  constructor
  · rintro ⟨called, payload, built, hinvoke, hbuilt, hsame⟩
    obtain ⟨hknown, hresult⟩ := (invoke_eq_ok valid).mp hinvoke
    obtain rfl : (c.split arguments).1 = called := congrArg Prod.fst hresult
    refine ⟨hknown, fun p hp => ?_⟩
    have hpassed := (lookup_bound hnodup (hserve ▸ hbuilt)).1 p.spec (List.mem_map_of_mem hp)
    have hparam : c.isParam p.name = true := isParam_iff.mpr (List.mem_map_of_mem hp)
    have hlookup : built.lookup p.spec.name = arguments.lookup p.name := by
      rw [← hsame, hcalled]
      exact if_pos hparam
    rw [hlookup] at hpassed
    exact (served_iff_keeps valid coerces carries hp).mp hpassed
  · rintro ⟨hknown, hkeeps⟩
    have hserved : ∀ p ∈ c.params,
        served other (paramValue w.toParsers path pairs p.spec) = some (arguments.lookup p.name) :=
      fun p hp => (served_iff_keeps valid coerces carries hp).mpr (hkeeps p hp)
    have hpassed : ∀ spec ∈ c.params.map ParamInfo.spec,
        ∃ passed, served other (paramValue w.toParsers path pairs spec) = some passed := by
      intro spec hspec
      obtain ⟨p, hp, rfl⟩ := List.mem_map.mp hspec
      exact ⟨_, hserved p hp⟩
    obtain ⟨built, hbuilt⟩ := bound_isSome hpassed
    refine ⟨_, _, built, (invoke_eq_ok valid).mpr ⟨hknown, rfl⟩, hbuilt, fun name => ?_⟩
    obtain ⟨hspecs, hothers⟩ := lookup_bound hnodup hbuilt
    rw [hcalled]
    by_cases hparam : c.isParam name = true
    · rw [if_pos hparam]
      obtain ⟨p, hp, rfl⟩ := List.mem_map.mp (isParam_iff.mp hparam)
      exact Option.some.inj ((hserved p hp).symm.trans (hspecs p.spec (List.mem_map_of_mem hp)))
    · rw [if_neg hparam, hothers name (by rwa [hnames, ← isParam_iff])]

/-! ### A number and a date -/

/-- One float, calendar dates, and no UUID. -/
def oneFloat : Wire Unit where
  toParsers := { calendarDates with float := fun raw => if raw = "0.0" then some () else none }
  repr _ := "0.0"
  integral _ := true
  display _ := ""
  float_repr _ := rfl
  repr_not_int _ := by decide +kernel

/-- `GET /items/{id}?q=`. -/
def itemTool : Capability Unit where
  pathParams := [("id", .int)]
  queryParams := [⟨"q", .str, true, false, false⟩]
  body := none
  nodup := by decide
  apart := nofun

lemma itemTool_params {P : ParamInfo → Prop} (id : P (pathParam ("id", .int)))
    (q : P (QueryDecl.info ⟨"q", .str, true, false, false⟩)) : ∀ p ∈ itemTool.params, P p := by
  intro p hp
  rcases List.mem_cons.mp hp with rfl | hp
  · exact id
  · obtain rfl := List.mem_singleton.mp hp
    exact q

/-- The tool call `{"id": 7, "q": "tea"}` binds as `GET /items/7?q=tea` does. -/
theorem item_tool_binds : itemTool.BindsAlike oneFloat canonicalForms [("id", .int 7), ("q", .str "tea")]
    (fun name => if name = "id" then some "7" else none) [("q", "tea")] := by
  refine (tool_call_binds_iff ⟨?_, itemTool_params ?_ ?_, nofun⟩ (itemTool_params ?_ ?_)
    ⟨itemTool_params ?_ ?_, itemTool_params ?_ ?_⟩).mpr ⟨?_, itemTool_params ?_ ?_⟩
  · simp [itemTool, required, params, pathParam, QueryDecl.info]
  · intro value hvalue
    obtain rfl := Option.some.inj hvalue
    rfl
  · intro value hvalue
    obtain rfl := Option.some.inj hvalue
    rfl
  · intro value hvalue raw hraw
    obtain rfl := Option.some.inj hvalue
    obtain rfl := List.mem_singleton.mp hraw
    exact ⟨.int 7, rfl⟩
  · intro value hvalue raw hraw
    obtain rfl := Option.some.inj hvalue
    obtain rfl := List.mem_singleton.mp hraw
    exact ⟨.str "tea", rfl⟩
  · exact fun _ => rfl
  · exact nofun
  · exact nofun
  · exact fun _ => rfl
  · simp [itemTool, isParam, params, pathParam, QueryDecl.info]
  · exact trivial
  · exact trivial

/-- `GET /diary?day=`. -/
def diaryTool : Capability Unit where
  pathParams := []
  queryParams := [⟨"day", .date, false, false, false⟩]
  body := none
  nodup := by decide
  apart := nofun

/-- As a tool the handler gets the string, over HTTP a date. -/
theorem diary_tool_gets_text :
    diaryTool.Validates oneFloat [("day", .str "2024-02-29")] ∧
    diaryTool.Coerces oneFloat [("day", .str "2024-02-29")] ∧
    diaryTool.Carries oneFloat [("day", .str "2024-02-29")] (fun _ => none) [("day", "2024-02-29")] ∧
    ¬ diaryTool.BindsAlike oneFloat canonicalForms [("day", .str "2024-02-29")] (fun _ => none)
      [("day", "2024-02-29")] := by
  refine ⟨⟨?_, ?_, nofun⟩, ?_, ⟨?_, ?_⟩, ?_⟩
  · simp [diaryTool, required, params, QueryDecl.info]
  · intro p hp value hvalue
    obtain rfl := List.mem_singleton.mp hp
    obtain rfl := Option.some.inj hvalue
    rfl
  · intro p hp value hvalue raw hraw
    obtain rfl := List.mem_singleton.mp hp
    obtain rfl := Option.some.inj hvalue
    obtain rfl := List.mem_singleton.mp hraw
    exact ⟨.date "2024-02-29", rfl⟩
  · intro p hp hpath
    obtain rfl := List.mem_singleton.mp hp
    exact nomatch hpath
  · intro p hp _
    obtain rfl := List.mem_singleton.mp hp
    rfl
  · rintro ⟨called, payload, built, hinvoke, hserve, hsame⟩
    have hcalled : [("day", .str "2024-02-29")] = called := congrArg Prod.fst (Except.ok.inj hinvoke)
    have hvalues : diaryTool.serve oneFloat canonicalForms (fun _ => none) [("day", "2024-02-29")] =
      keywords canonicalForms [dayParam] [.date "2024-02-29"] := rfl
    have hdate : toPython canonicalForms (F := Unit) (.date "2024-02-29") = some (.date ⟨2024, 2, 29⟩) := by
      rw [toPython]
      rfl
    simp only [hvalues, keywords, hdate, Option.bind_eq_bind, Option.bind_some, PyValue.object,
      Option.some.injEq] at hserve
    have hday := hsame "day"
    rw [← hserve, ← hcalled] at hday
    simp [dayParam] at hday

end Capability

end Oxbrook
