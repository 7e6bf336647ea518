import Oxbrook.Foundation.OrderedDict
import Oxbrook.Foundation.Trails

/-!
# Routers that include routers

`Router._mounts` and `Router._flatten` of `python/oxbrook/_routers.py`, and `App.include` of `python/oxbrook/_app.py`.
Routers are objects that refer to each other, so what is included is a graph: a router may be included at several
places, and nothing keeps routers from including each other.  Both functions walk it and hand down what the routers
declare: prefixes, `auth=`, `rate_limit=`, tags, middleware and exception handlers.

`Lawful` says what a route gets from the routers it is included through.  `inclusion_law` shows that every flattened
route is lawful, when a mount is refused, and that routers which include themselves are refused.

`build_route` and `build_mount` are parameters, which may refuse.
-/

namespace Oxbrook

open Attempt Trails

/-! ## Declarations -/

/-- An argument `auth=` or `rate_limit=`: `UNSET`, `None` or an object. -/
inductive Setting (Obj : Type)
  | unset
  | given (value : Option Obj)

namespace Setting

variable {Obj : Type}

/-- `inner if inner is not UNSET else outer` -/
def orElse : Setting Obj → Setting Obj → Setting Obj
  | unset, outer => outer
  | given value, _ => given value

/-- `resolve`. -/
def resolve : List (Setting Obj) → Option Obj
  | [] => none
  | unset :: outer => resolve outer
  | given value :: _ => value

/-- `setting is not UNSET and setting is not None` -/
def isProtected : Setting Obj → Bool
  | given (some _) => true
  | _ => false

def isSet : Setting Obj → Bool
  | unset => false
  | given _ => true

/-- The nearest declaration that was set, of some that are listed innermost first. -/
def nearest (declarations : List (Setting Obj)) : Setting Obj := (declarations.find? isSet).getD unset

end Setting

/-- `_Declared`. -/
structure DeclaredRoute (Obj : Type) where
  method : String
  path : String
  fn : Obj
  tool : Bool
  websocket : Bool
  authorize : Option Obj
  cancelOnDisconnect : Bool
  blocking : Bool
  auth : Setting Obj
  rateLimit : Setting Obj
  recheck : Option Obj

/-- Static files, with the directory and its options. -/
structure StaticFiles (Obj : Type) where
  urlPrefix : String
  directory : Obj

/-- What a `Router` has when it is included; `ρ` are the routers. -/
structure RouterRecord (ρ Obj Cls : Type) where
  urlPrefix : String
  auth : Setting Obj
  rateLimit : Setting Obj
  tags : List String
  handlers : OrderedDict Cls Obj
  declared : List (DeclaredRoute Obj)
  middleware : List Obj
  children : List (ρ × String)
  statics : List (StaticFiles Obj)

/-- The routers of a program. -/
abbrev Routers (ρ Obj Cls : Type) := ρ → RouterRecord ρ Obj Cls

/-- `RouteInfo`. -/
structure RouteInfo (Obj Cls : Type) where
  method : String
  path : String
  fn : Obj
  tool : Bool
  websocket : Bool
  cancelOnDisconnect : Bool
  blocking : Bool
  authorizer : Option Obj
  middleware : List Obj
  auth : Setting Obj
  rateLimit : Option Obj
  tags : List String
  handlers : OrderedDict Cls Obj
  recheck : Option Obj

/-- The `ValueError`s and `TypeError`s of an inclusion. -/
inductive IncludeError (ρ : Type)
  | prefixForm (value : String)
  | itself (router : ρ)
  | covered (full : String)
  | refused (text : String)
  | conflict (full existing : String)

/-- Why `build_route` or `build_mount` refuses, and what `make_gate` makes of an authorizer. -/
structure BuildRules (Obj : Type) where
  refusesRoute : DeclaredRoute Obj → String → Option String
  refusesMount : StaticFiles Obj → Option String
  makeGate : Obj → Obj

variable {ρ Obj Cls : Type} [DecidableEq Cls]

/-! ## Mounts -/

/-- What `_mounts` is handed by the router outside. -/
structure MountScope (Obj : Type) where
  base : String
  auth : Setting Obj

/-- Inside a router. -/
def MountScope.enter (scope : MountScope Obj) (router : RouterRecord ρ Obj Cls) : MountScope Obj where
  base := scope.base ++ router.urlPrefix
  auth := router.auth.orElse scope.auth

/-- Under the prefix of an inclusion. -/
def MountScope.below (scope : MountScope Obj) (under : String) : MountScope Obj :=
  { scope with base := scope.base ++ under }

/-- `_join`. -/
def joinPrefix (base under : String) : String :=
  if under = "/" then (if base = "" then "/" else base) else base ++ under

/-- One of the mounts of a router. -/
def placeMount (scope : MountScope Obj) (files : StaticFiles Obj) : Except (IncludeError ρ) (StaticFiles Obj) :=
  let full := joinPrefix scope.base files.urlPrefix
  if scope.auth.isProtected then .error (.covered full) else .ok { files with urlPrefix := full }

def mountWalker (routers : Routers ρ Obj Cls) :
    Walker ρ (MountScope Obj) String (StaticFiles Obj) (IncludeError ρ) where
  edges r := (routers r).children
  outputs r scope := (routers r).statics.mapM (placeMount (scope.enter (routers r)))
  inner r scope := scope.enter (routers r)
  descend := MountScope.below
  returned := .itself

/-- `Router._mounts`. -/
def Routers.mounts [Fintype ρ] [DecidableEq ρ] (routers : Routers ρ Obj Cls) (r : ρ) (outer : String) :
    Except (IncludeError ρ) (List (StaticFiles Obj)) :=
  (mountWalker routers).walk r ⟨outer, .unset⟩ []

/-! ## Routes -/

/-- What `_flatten` is handed by the router outside. -/
structure RouteScope (Obj Cls : Type) extends MountScope Obj where
  middleware : List Obj
  rateLimit : Setting Obj
  tags : List String
  handlers : OrderedDict Cls Obj

def RouteScope.enter (scope : RouteScope Obj Cls) (router : RouterRecord ρ Obj Cls) : RouteScope Obj Cls where
  toMountScope := scope.toMountScope.enter router
  middleware := scope.middleware ++ router.middleware
  rateLimit := router.rateLimit.orElse scope.rateLimit
  tags := scope.tags ++ router.tags.filter (· ∉ scope.tags)
  handlers := scope.handlers.update router.handlers.items

def RouteScope.below (scope : RouteScope Obj Cls) (under : String) : RouteScope Obj Cls :=
  { scope with toMountScope := scope.toMountScope.below under }

/-- One of the routes of a router. -/
def buildRoute (rules : BuildRules Obj) (scope : RouteScope Obj Cls) (declared : DeclaredRoute Obj) :
    Except (IncludeError ρ) (RouteInfo Obj Cls) :=
  match rules.refusesRoute declared (scope.base ++ declared.path) with
  | some text => .error (.refused text)
  | none => .ok {
      method := declared.method
      path := scope.base ++ declared.path
      fn := declared.fn
      tool := declared.tool
      websocket := declared.websocket
      cancelOnDisconnect := declared.cancelOnDisconnect
      blocking := declared.blocking
      authorizer := declared.authorize.map rules.makeGate
      middleware := scope.middleware
      auth := declared.auth.orElse scope.auth
      rateLimit := match declared.rateLimit.orElse scope.rateLimit with
        | .unset => none
        | .given limit => limit
      tags := scope.tags
      handlers := scope.handlers
      recheck := declared.recheck }

def routeWalker (rules : BuildRules Obj) (routers : Routers ρ Obj Cls) :
    Walker ρ (RouteScope Obj Cls) String (RouteInfo Obj Cls) (IncludeError ρ) where
  edges r := (routers r).children
  outputs r scope := (routers r).declared.mapM (buildRoute rules (scope.enter (routers r)))
  inner r scope := scope.enter (routers r)
  descend := RouteScope.below
  returned := .itself

/-- `Router._flatten`. -/
def Routers.flatten [Fintype ρ] [DecidableEq ρ] (routers : Routers ρ Obj Cls) (rules : BuildRules Obj) (r : ρ)
    (outer : String) (middleware : List Obj) : Except (IncludeError ρ) (List (RouteInfo Obj Cls)) :=
  (routeWalker rules routers).walk r ⟨⟨outer, .unset⟩, middleware, .unset, [], .empty⟩ []

/-! ## The app -/

/-- `route_shape`: the path with its placeholders replaced. -/
def routeShape : List Char → List Char
  | [] => []
  | c :: rest =>
    if c = '{' ∧ (rest.dropWhile fun c => c ≠ '{' && c ≠ '}').head? = some '}' then
      '{' :: '}' :: routeShape (rest.dropWhile fun c => c ≠ '{' && c ≠ '}').tail
    else c :: routeShape rest
  termination_by text => text.length
  decreasing_by
    · have hdrop := (List.dropWhile_suffix (fun c => c ≠ '{' && c ≠ '}') (l := rest)).length_le
      simp only [List.length_cons, List.length_tail]
      omega
    · simp

/-- `StaticMount.shapes`. -/
def StaticFiles.shapes (files : StaticFiles Obj) : List (List Char) :=
  let under := files.urlPrefix.toList
  if files.urlPrefix = "/" then [['/'], "/{}".toList] else [under, under ++ ['/'], under ++ "/{}".toList]

/-- What an `App` has. -/
structure AppRoutes (Obj Cls : Type) where
  auth : Setting Obj
  routes : List (RouteInfo Obj Cls)
  mounts : List (StaticFiles Obj)

namespace AppRoutes

local instance lawfulShape : LawfulBEq (List Char) := inferInstance

/-- What a route cannot be held together with. -/
def conflictOf (app : AppRoutes Obj Cls) (route : RouteInfo Obj Cls) : Option String :=
  let shape := routeShape route.path.toList
  let mounted := if route.method = "GET" then app.mounts.find? fun files => shape ∈ files.shapes else none
  let existing := app.routes.find? fun existing =>
    existing.method = route.method && routeShape existing.path.toList = shape
  (mounted.map StaticFiles.urlPrefix).or (existing.map RouteInfo.path)

/-- `App._add`. -/
def add (route : RouteInfo Obj Cls) : EStateM (IncludeError ρ) (AppRoutes Obj Cls) Unit := do
  let app ← get
  match app.conflictOf route with
  | some existing => throw (.conflict route.path existing)
  | none =>
    set { app with routes := app.routes ++ [{ route with auth := .given (Setting.resolve [route.auth, app.auth]) }] }

/-- What a mount cannot be held together with. -/
def conflictOfMount (app : AppRoutes Obj Cls) (files : StaticFiles Obj) : Option String :=
  let route := app.routes.find? fun route =>
    route.method = "GET" && decide (routeShape route.path.toList ∈ files.shapes)
  let existing := app.mounts.find? fun existing => files.shapes.any fun shape => shape ∈ existing.shapes
  (route.map RouteInfo.path).or (existing.map StaticFiles.urlPrefix)

/-- `App.static`. -/
def addMount (rules : BuildRules Obj) (files : StaticFiles Obj) :
    EStateM (IncludeError ρ) (AppRoutes Obj Cls) Unit := do
  let app ← get
  match rules.refusesMount files, app.conflictOfMount files with
  | some text, _ => throw (.refused text)
  | none, some existing => throw (.conflict files.urlPrefix existing)
  | none, none => set { app with mounts := app.mounts ++ [files] }

end AppRoutes

/-- `check_prefix`. -/
def checkPrefix (value : String) : Except (IncludeError ρ) Unit :=
  if value ≠ "" ∧ (value.toList.head? ≠ some '/' ∨ value.toList.getLast? = some '/') then .error (.prefixForm value)
  else .ok ()

/-- `App.include`. -/
def AppRoutes.include [Fintype ρ] [DecidableEq ρ] (rules : BuildRules Obj) (routers : Routers ρ Obj Cls)
    (router : ρ) (under : String) : EStateM (IncludeError ρ) (AppRoutes Obj Cls) Unit := do
  lift (checkPrefix under)
  let placed ← lift (routers.mounts router under)
  let routes ← lift (routers.flatten rules router under [])
  routes.forM add
  placed.forM (addMount rules)

/-! ## The law -/

/-- The tags of routers, listed outermost first: each adds those that no router outside it has. -/
def tagsAlong (outer : List String) : List (List String) → List String
  | [] => []
  | own :: more => own.filter (· ∉ outer) ++ tagsAlong (outer ++ own) more

/-- What a route has that is included through some routers, listed outermost first, each with the prefix of its
inclusion. -/
structure Lawful (rules : BuildRules Obj) (routers : Routers ρ Obj Cls) (through : List (ρ × String))
    (declared : DeclaredRoute Obj) (route : RouteInfo Obj Cls) : Prop where
  path : route.path = String.join (through.map fun step => step.2 ++ (routers step.1).urlPrefix) ++ declared.path
  middleware : route.middleware = through.flatMap fun step => (routers step.1).middleware
  auth : route.auth = .nearest (declared.auth :: through.reverse.map fun step => (routers step.1).auth)
  rateLimit : route.rateLimit =
    Setting.resolve (declared.rateLimit :: through.reverse.map fun step => (routers step.1).rateLimit)
  handlers : ∀ cls, route.handlers.get cls = through.reverse.findSome? fun step => (routers step.1).handlers.get cls
  tags : route.tags = tagsAlong [] (through.map fun step => (routers step.1).tags)
  unrepeated : (∀ step ∈ through, (routers step.1).tags.Nodup) → route.tags.Nodup
  own : route.method = declared.method ∧ route.fn = declared.fn ∧ route.tool = declared.tool ∧
    route.websocket = declared.websocket ∧ route.cancelOnDisconnect = declared.cancelOnDisconnect ∧
    route.blocking = declared.blocking ∧ route.authorizer = declared.authorize.map rules.makeGate ∧
    route.recheck = declared.recheck

/-- The trails of inclusions from a router. -/
abbrev Routers.IsInclusion (routers : Routers ρ Obj Cls) (root : ρ) (trail : List (ρ × String)) : Prop :=
  IsTrail (fun r => (routers r).children) root trail

/-- No trail of inclusions from a router comes to a router twice. -/
def Routers.Acyclic (routers : Routers ρ Obj Cls) (root : ρ) : Prop :=
  ∀ trail, routers.IsInclusion root trail → (nodes root trail).Nodup

/-- What the routers of a trail declare as `auth=`. -/
def Routers.authAlong (routers : Routers ρ Obj Cls) (through : List (ρ × String)) : List (Setting Obj) :=
  through.reverse.map fun step => (routers step.1).auth

/-! ## The nearest declaration -/

namespace Setting

variable {outer more : List (Setting Obj)} {s : Setting Obj}

@[simp] lemma orElse_unset : s.orElse unset = s := by
  cases s <;> rfl

lemma nearest_cons : nearest (s :: more) = s.orElse (nearest more) := by
  cases s <;> rfl

lemma nearest_append : nearest (more ++ outer) = (nearest more).orElse (nearest outer) := by
  induction more with
  | nil => rfl
  | cons s more ih =>
    rw [List.cons_append, nearest_cons, nearest_cons, ih]
    cases s <;> rfl

lemma resolve_eq : resolve more = match nearest more with
    | unset => none
    | given value => value := by
  induction more with
  | nil => rfl
  | cons s more ih =>
    rw [nearest_cons]
    cases s with
    | unset => exact ih
    | given value => rfl

/-- What a router declares goes before what it inherits. -/
lemma nearest_concat_orElse (own inherited : Setting Obj) :
    (nearest (more ++ [own])).orElse inherited = (nearest more).orElse (own.orElse inherited) := by
  rw [nearest_append]
  cases nearest more with
  | unset => cases own <;> rfl
  | given value => rfl

end Setting

/-! ## What is handed down -/

section Scopes

variable {routers : Routers ρ Obj Cls} {through : List (ρ × String)}

omit [DecidableEq Cls] in
/-- What the mounts of the last router are placed in. -/
lemma scope_of_mounts (routers : Routers ρ Obj Cls) (through : List (ρ × String)) (scope : MountScope Obj) :
    (through.foldl (fun scope step => (scope.below step.2).enter (routers step.1)) scope).base =
        scope.base ++ String.join (through.map fun step => step.2 ++ (routers step.1).urlPrefix) ∧
      (through.foldl (fun scope step => (scope.below step.2).enter (routers step.1)) scope).auth =
        (Setting.nearest (routers.authAlong through)).orElse scope.auth := by
  induction through generalizing scope with
  | nil => exact ⟨(String.append_empty).symm, rfl⟩
  | cons step through ih =>
    obtain ⟨hbase, hauth⟩ := ih ((scope.below step.2).enter (routers step.1))
    rw [List.foldl_cons, hbase, hauth]
    constructor
    · simp only [MountScope.enter, MountScope.below, List.map_cons, String.join_cons, String.append_assoc]
    · have halong : routers.authAlong (step :: through) = routers.authAlong through ++ [(routers step.1).auth] := by
        simp [Routers.authAlong]
      rw [halong, Setting.nearest_concat_orElse]
      rfl

lemma tagsAlong_congr {outer outer' : List String} (h : ∀ tag, tag ∈ outer ↔ tag ∈ outer') (tags : List (List String)) :
    tagsAlong outer tags = tagsAlong outer' tags := by
  induction tags generalizing outer outer' with
  | nil => rfl
  | cons own more ih =>
    have hfilter : own.filter (· ∉ outer) = own.filter (· ∉ outer') := by
      apply List.filter_congr
      intro tag _
      simp [h]
    rw [tagsAlong, tagsAlong, hfilter, ih]
    intro tag
    rw [List.mem_append, List.mem_append, h]

/-- Tags are repeated only by a router that repeats its own. -/
lemma nodup_tagsAlong {outer : List String} {tags : List (List String)} (h : ∀ own ∈ tags, own.Nodup) :
    (tagsAlong outer tags).Nodup ∧ ∀ tag ∈ tagsAlong outer tags, tag ∉ outer := by
  induction tags generalizing outer with
  | nil => exact ⟨List.nodup_nil, nofun⟩
  | cons own more ih =>
    obtain ⟨hnodup, hnew⟩ := ih fun own hown => h own (List.mem_cons_of_mem _ hown)
    have hown := (h own (List.mem_cons_self ..)).filter (· ∉ outer)
    rw [tagsAlong]
    constructor
    · refine List.nodup_append.mpr ⟨hown, hnodup, ?_⟩
      rintro tag htag _ hmore rfl
      exact hnew tag hmore (List.mem_append_right _ (List.mem_filter.mp htag).1)
    · intro tag htag
      rcases List.mem_append.mp htag with htag | htag
      · simpa using (List.mem_filter.mp htag).2
      · exact fun hin => hnew tag htag (List.mem_append_left _ hin)

/-- What the routes of the last router are built in, besides the scope of its mounts. -/
structure HandedDown (routers : Routers ρ Obj Cls) (through : List (ρ × String)) (scope result : RouteScope Obj Cls) :
    Prop where
  middleware : result.middleware = scope.middleware ++ through.flatMap fun step => (routers step.1).middleware
  rateLimit : result.rateLimit =
    (Setting.nearest (through.reverse.map fun step => (routers step.1).rateLimit)).orElse scope.rateLimit
  tags : result.tags = scope.tags ++ tagsAlong scope.tags (through.map fun step => (routers step.1).tags)
  handlers : ∀ cls, result.handlers.get cls =
    (through.reverse.findSome? fun step => (routers step.1).handlers.get cls).or (scope.handlers.get cls)

lemma handedDown (routers : Routers ρ Obj Cls) (through : List (ρ × String)) (scope : RouteScope Obj Cls) :
    HandedDown routers through scope
      (through.foldl (fun scope step => (scope.below step.2).enter (routers step.1)) scope) := by
  induction through generalizing scope with
  | nil => exact ⟨by simp, rfl, by simp [tagsAlong], fun _ => rfl⟩
  | cons step through ih =>
    obtain ⟨hmiddleware, hrate, htags, hhandlers⟩ := ih ((scope.below step.2).enter (routers step.1))
    rw [List.foldl_cons]
    refine ⟨?_, ?_, ?_, fun cls => ?_⟩
    · rw [hmiddleware, List.flatMap_cons, ← List.append_assoc]
      rfl
    · rw [hrate, List.reverse_cons, List.map_append, List.map_singleton, Setting.nearest_concat_orElse]
      rfl
    · have hseen : ∀ tag, tag ∈ ((scope.below step.2).enter (routers step.1)).tags ↔
          tag ∈ scope.tags ++ (routers step.1).tags := by
        intro tag
        by_cases hin : tag ∈ scope.tags
        · simp [RouteScope.enter, RouteScope.below, hin]
        · simp [RouteScope.enter, RouteScope.below, hin]
      rw [htags, tagsAlong_congr hseen, List.map_cons, tagsAlong, ← List.append_assoc]
      rfl
    · rw [hhandlers, List.reverse_cons, List.findSome?_append, Option.or_assoc]
      congr 1
      have hhere : ((scope.below step.2).enter (routers step.1)).handlers.get cls =
          ((routers step.1).handlers.get cls).or (scope.handlers.get cls) := OrderedDict.get_update_items _
      rw [hhere, List.findSome?_singleton]

lemma toMountScope_foldl (scope : RouteScope Obj Cls) :
    (through.foldl (fun scope step => (scope.below step.2).enter (routers step.1)) scope).toMountScope =
      through.foldl (fun scope step => (scope.below step.2).enter (routers step.1)) scope.toMountScope := by
  induction through generalizing scope with
  | nil => rfl
  | cons step through ih => exact ih _

/-- What an app hands to the router that it includes. -/
def outermost : RouteScope Obj Cls := ⟨⟨"", .unset⟩, [], .unset, [], .empty⟩

omit [DecidableEq Cls] in
lemma outermost_below (outer : String) : (outermost : RouteScope Obj Cls).below outer =
    ⟨⟨outer, .unset⟩, [], .unset, [], .empty⟩ := by
  simp [outermost, RouteScope.below, MountScope.below]

end Scopes

section Law

variable {rules : BuildRules Obj} {routers : Routers ρ Obj Cls} {root : ρ} {under : String}
  {trail : List (ρ × String)} {declared : DeclaredRoute Obj} {route : RouteInfo Obj Cls}

/-- The scope of the routes at the end of a trail. -/
lemma routeScope_eq : ((routeWalker rules routers).inherited root ⟨⟨under, .unset⟩, [], .unset, [], .empty⟩ trail).enter
      (routers (endOf root trail)) =
    ((root, under) :: trail).foldl (fun scope step => (scope.below step.2).enter (routers step.1)) outermost := by
  rw [← outermost_below]
  exact (routeWalker rules routers).inner_inherited root outermost under trail

omit [DecidableEq Cls] in
/-- The scope of the mounts there. -/
lemma mountScope_eq : ((mountWalker routers).inherited root ⟨under, .unset⟩ trail).enter (routers (endOf root trail)) =
    ((root, under) :: trail).foldl (fun scope step => (scope.below step.2).enter (routers step.1)) ⟨"", .unset⟩ := by
  have hstart : (⟨under, .unset⟩ : MountScope Obj) = MountScope.below ⟨"", .unset⟩ under := by simp [MountScope.below]
  rw [hstart]
  exact (mountWalker routers).inner_inherited root ⟨"", .unset⟩ under trail

/-- A route that is built is lawful. -/
lemma lawful_of_build {through : List (ρ × String)}
    (h : (buildRoute rules (through.foldl (fun scope step => (scope.below step.2).enter (routers step.1)) outermost)
      declared : Except (IncludeError ρ) _) = .ok route) : Lawful rules routers through declared route := by
  obtain ⟨hmiddleware, hrate, htags, hhandlers⟩ := handedDown routers through outermost
  obtain ⟨hbase, hauth⟩ := scope_of_mounts routers through
    (outermost : RouteScope Obj Cls).toMountScope
  rw [← toMountScope_foldl] at hbase hauth
  unfold buildRoute at h
  split at h
  · cases h
  · cases h
    refine ⟨?_, ?_, ?_, ?_, ?_, ?_, ?_, ⟨rfl, rfl, rfl, rfl, rfl, rfl, rfl, rfl⟩⟩
    · dsimp only
      rw [hbase]
      simp [outermost]
    · dsimp only
      rw [hmiddleware]
      simp [outermost]
    · dsimp only
      rw [hauth, Setting.nearest_cons]
      simp [outermost, Routers.authAlong]
    · dsimp only
      rw [hrate, Setting.resolve_eq, Setting.nearest_cons]
      simp [outermost]
    · intro cls
      dsimp only
      rw [hhandlers]
      simp [outermost, OrderedDict.get, OrderedDict.empty]
    · dsimp only
      rw [htags]
      simp [outermost]
    · intro hown
      dsimp only
      rw [htags]
      refine (nodup_tagsAlong ?_).1
      intro own hmem
      obtain ⟨step, hstep, rfl⟩ := List.mem_map.mp hmem
      exact hown step hstep

end Law

/-! ## What the app gets -/

namespace AppRoutes

variable {rules : BuildRules Obj} {routers : Routers ρ Obj Cls} {app : AppRoutes Obj Cls}

/-- The app with more routes, each with its own declaration, that of its routers or that of the app. -/
def withRoutes (app : AppRoutes Obj Cls) (routes : List (RouteInfo Obj Cls)) : AppRoutes Obj Cls :=
  { app with routes := app.routes ++ routes.map fun route =>
      { route with auth := .given (Setting.resolve [route.auth, app.auth]) } }

omit [DecidableEq Cls] in
lemma meets_add (route : RouteInfo Obj Cls) : Attempt.Meets (ε := IncludeError ρ) (fun s => s = app) (add route)
    (fun _ s => s = app.withRoutes [route]) fun _ _ => True := by
  apply Attempt.Meets.get_bind
  rintro t s ⟨rfl, rfl⟩
  cases s.conflictOf route with
  | some existing => trivial
  | none => rfl

omit [DecidableEq Cls] in
lemma meets_addAll (routes : List (RouteInfo Obj Cls)) : Attempt.Meets (ε := IncludeError ρ) (fun s => s = app)
    (routes.forM add) (fun _ s => s = app.withRoutes routes) fun _ _ => True := by
  induction routes generalizing app with
  | nil =>
    apply Attempt.Meets.pure
    rintro s rfl
    simp [withRoutes]
  | cons route routes ih =>
    refine (meets_add route).bind fun _ => ih.weaken (fun _ h => h) ?_
    rintro - s rfl
    simp [withRoutes]

omit [DecidableEq Cls] in
lemma meets_addMount (files : StaticFiles Obj) : Attempt.Meets (ε := IncludeError ρ) (fun s => s = app)
    (addMount rules files) (fun _ s => s = { app with mounts := app.mounts ++ [files] }) fun _ _ => True := by
  apply Attempt.Meets.get_bind
  rintro t s ⟨rfl, rfl⟩
  cases rules.refusesMount files with
  | some text => trivial
  | none =>
    cases s.conflictOfMount files with
    | some existing => trivial
    | none => rfl

omit [DecidableEq Cls] in
lemma meets_addMounts (placed : List (StaticFiles Obj)) : Attempt.Meets (ε := IncludeError ρ) (fun s => s = app)
    (placed.forM (addMount rules)) (fun _ s => s = { app with mounts := app.mounts ++ placed }) fun _ _ => True := by
  induction placed generalizing app with
  | nil =>
    apply Attempt.Meets.pure
    rintro s rfl
    simp
  | cons files placed ih =>
    refine (meets_addMount files).bind fun _ => ih.weaken (fun _ h => h) ?_
    rintro - s rfl
    simp

variable [Fintype ρ] [DecidableEq ρ] {root : ρ} {under : String}

/-- An app that has included a router has its mounts and routes. -/
lemma eq_of_include {app' : AppRoutes Obj Cls}
    (h : (AppRoutes.include rules routers root under).run app = .ok () app') :
    ∃ placed routes, routers.mounts root under = .ok placed ∧ routers.flatten rules root under [] = .ok routes ∧
      app' = { app.withRoutes routes with mounts := app.mounts ++ placed } := by
  unfold AppRoutes.include at h
  cases hform : (checkPrefix under : Except (IncludeError ρ) Unit) with
  | error e =>
    rw [hform, run_bind_error (run_lift_error e app)] at h
    cases h
  | ok _ =>
    rw [hform, run_bind_ok (run_lift_ok _ app)] at h
    cases hplaced : routers.mounts root under with
    | error e =>
      rw [hplaced, run_bind_error (run_lift_error e app)] at h
      cases h
    | ok placed =>
      rw [hplaced, run_bind_ok (run_lift_ok _ app)] at h
      cases hroutes : routers.flatten rules root under [] with
      | error e =>
        rw [hroutes, run_bind_error (run_lift_error e app)] at h
        cases h
      | ok routes =>
        rw [hroutes, run_bind_ok (run_lift_ok _ app)] at h
        have hadded : Attempt.Meets (fun s => s = app) (routes.forM add >>= fun _ => placed.forM (addMount rules))
            (fun _ s => s = { app.withRoutes routes with mounts := app.mounts ++ placed })
            fun (_ : IncludeError ρ) _ => True :=
          (meets_addAll routes).bind fun _ => (meets_addMounts placed).weaken (fun _ h => h) fun _ _ h => h
        exact ⟨placed, routes, rfl, rfl, hadded.ok rfl h⟩

/-- A router whose mounts are refused leaves the app as it was. -/
lemma include_of_refused {e : IncludeError ρ} (hform : checkPrefix under = (.ok () : Except (IncludeError ρ) Unit))
    (h : routers.mounts root under = .error e) :
    (AppRoutes.include rules routers root under).run app = .error e app := by
  unfold AppRoutes.include
  rw [hform, run_bind_ok (run_lift_ok _ app), h, run_bind_error (run_lift_error e app)]

end AppRoutes

/-! ## The inclusion of a graph -/

section Graph

variable [Fintype ρ] [DecidableEq ρ] {rules : BuildRules Obj} {routers : Routers ρ Obj Cls} {root : ρ}
  {under : String} {trail : List (ρ × String)}

omit [DecidableEq Cls] [Fintype ρ] [DecidableEq ρ] in
lemma fresh_iff : Fresh [] root trail ↔ (nodes root trail).Nodup := by simp [Fresh]

lemma Setting.isProtected_iff {s : Setting Obj} : s.isProtected = true ↔ ∃ policy, s = given (some policy) := by
  cases s with
  | unset => simp [isProtected]
  | given value =>
    cases value with
    | none => simp [isProtected]
    | some policy => simp [isProtected]

omit [DecidableEq Cls] [Fintype ρ] [DecidableEq ρ] in
/-- What a router at the end of a trail would make of a route without its own `auth=`. -/
lemma isProtected_iff_nearest : (((mountWalker routers).inherited root ⟨under, .unset⟩ trail).enter
      (routers (endOf root trail))).auth.isProtected = true ↔
    ∃ policy, Setting.nearest (.unset :: routers.authAlong ((root, under) :: trail)) = .given (some policy) := by
  have hscope := (scope_of_mounts routers ((root, under) :: trail) ⟨"", .unset⟩).2
  rw [mountScope_eq, hscope, Setting.nearest_cons, Setting.orElse_unset, Setting.isProtected_iff]
  rfl

omit [DecidableEq Cls] in
/-- Mounts are refused for a mount that would be public, or for a return. -/
lemma exists_of_mounts_error {e : IncludeError ρ} (h : routers.mounts root under = .error e) :
    ∃ trail, routers.IsInclusion root trail ∧
      (¬ (nodes root trail).Nodup ∨ (∃ full, e = .covered full) ∧ (routers (endOf root trail)).statics ≠ [] ∧
        ∃ policy, Setting.nearest (.unset :: routers.authAlong ((root, under) :: trail)) = .given (some policy)) := by
  obtain ⟨trail, htrail, ⟨hfresh, -⟩ | hrefused⟩ := Walker.exists_trail_of_error h
  · rw [fresh_iff] at hfresh
    exact ⟨trail, htrail, .inl hfresh⟩
  · obtain ⟨files, hfiles, hplace⟩ := exists_of_mapM_error hrefused
    unfold placeMount at hplace
    dsimp only at hplace
    split_ifs at hplace with hprotected
    cases hplace
    exact ⟨trail, htrail, .inr ⟨⟨_, rfl⟩, List.ne_nil_of_mem hfiles, isProtected_iff_nearest.mp hprotected⟩⟩

omit [DecidableEq Cls] in
/-- Where mounts are placed, none would be public, and no trail returns. -/
lemma of_mounts_ok {placed : List (StaticFiles Obj)} (h : routers.mounts root under = .ok placed)
    (htrail : routers.IsInclusion root trail) : (nodes root trail).Nodup ∧
      ((routers (endOf root trail)).statics ≠ [] →
        ¬ ∃ policy, Setting.nearest (.unset :: routers.authAlong ((root, under) :: trail)) = .given (some policy)) := by
  obtain ⟨hfresh, here, hhere, -⟩ := Walker.trail_of_walk h htrail
  refine ⟨fresh_iff.mp hfresh, fun hstatics hpolicy => ?_⟩
  obtain ⟨files, hfiles⟩ := List.exists_mem_of_ne_nil _ hstatics
  obtain ⟨result, -, hplace⟩ := (mem_of_mapM_ok hhere).1 files hfiles
  unfold placeMount at hplace
  rw [if_pos (isProtected_iff_nearest.mpr hpolicy)] at hplace
  cases hplace

/-- The routes of a graph without returns are refused by `build_route` only. -/
lemma exists_of_flatten_error {e : IncludeError ρ} (h : routers.flatten rules root under [] = .error e) :
    (∃ trail, routers.IsInclusion root trail ∧ ¬ (nodes root trail).Nodup) ∨ ∃ text, e = .refused text := by
  obtain ⟨trail, htrail, ⟨hfresh, -⟩ | hrefused⟩ := Walker.exists_trail_of_error h
  · rw [fresh_iff] at hfresh
    exact .inl ⟨trail, htrail, hfresh⟩
  · obtain ⟨declared, -, hbuild⟩ := exists_of_mapM_error hrefused
    unfold buildRoute at hbuild
    split at hbuild
    · cases hbuild
      exact .inr ⟨_, rfl⟩
    · cases hbuild

/-- **Routers.**  Every route has what the routers say that it is included through, and every route that is declared is
included.  On a graph in which no router includes itself, mounts are refused exactly if one lies where a route without
its own `auth=` would have one.  A router that includes itself is refused, and the app is left as it was. -/
theorem inclusion_law (rules : BuildRules Obj) (routers : Routers ρ Obj Cls) (root : ρ) (under : String) :
    (∀ routes, routers.flatten rules root under [] = .ok routes →
      (∀ route ∈ routes, ∃ trail, routers.IsInclusion root trail ∧
        ∃ declared ∈ (routers (endOf root trail)).declared,
          Lawful rules routers ((root, under) :: trail) declared route) ∧
      ∀ trail, routers.IsInclusion root trail → ∀ declared ∈ (routers (endOf root trail)).declared,
        ∃ route ∈ routes, Lawful rules routers ((root, under) :: trail) declared route) ∧
    (∀ app app', (AppRoutes.include rules routers root under).run app = .ok () app' →
      ∃ routes, routers.flatten rules root under [] = .ok routes ∧ app'.routes = app.routes ++ routes.map fun route =>
        { route with auth := .given (Setting.resolve [route.auth, app.auth]) }) ∧
    (routers.Acyclic root →
      ((∃ full, routers.mounts root under = .error (.covered full)) ↔
        ∃ trail, routers.IsInclusion root trail ∧ (routers (endOf root trail)).statics ≠ [] ∧
          ∃ policy, Setting.nearest (.unset :: routers.authAlong ((root, under) :: trail)) = .given (some policy)) ∧
      ((∃ placed, routers.mounts root under = .ok placed) ∨
        ∃ full, routers.mounts root under = .error (.covered full)) ∧
      ((∃ routes, routers.flatten rules root under [] = .ok routes) ∨
        ∃ text, routers.flatten rules root under [] = .error (.refused text))) ∧
    (¬ routers.Acyclic root → ∀ app, ∃ e, (AppRoutes.include rules routers root under).run app = .error e app) := by
  refine ⟨fun routes hroutes => ⟨?_, ?_⟩, ?_, fun acyclic => ⟨⟨?_, ?_⟩, ?_, ?_⟩, ?_⟩
  · intro route hroute
    obtain ⟨trail, here, htrail, hhere, hmem⟩ := Walker.exists_trail_of_mem hroutes hroute
    obtain ⟨declared, hdeclared, hbuild⟩ := (mem_of_mapM_ok hhere).2 route hmem
    rw [routeScope_eq] at hbuild
    exact ⟨trail, htrail, declared, hdeclared, lawful_of_build hbuild⟩
  · intro trail htrail declared hdeclared
    obtain ⟨-, here, hhere, hin⟩ := Walker.trail_of_walk hroutes htrail
    obtain ⟨route, hroute, hbuild⟩ := (mem_of_mapM_ok hhere).1 declared hdeclared
    rw [routeScope_eq] at hbuild
    exact ⟨route, hin route hroute, lawful_of_build hbuild⟩
  · intro app app' h
    obtain ⟨placed, routes, -, hroutes, rfl⟩ := AppRoutes.eq_of_include h
    exact ⟨routes, hroutes, rfl⟩
  · rintro ⟨full, h⟩
    obtain ⟨trail, htrail, hreturns | ⟨-, hstatics, hpolicy⟩⟩ := exists_of_mounts_error h
    · exact absurd (acyclic trail htrail) hreturns
    · exact ⟨trail, htrail, hstatics, hpolicy⟩
  · rintro ⟨trail, htrail, hstatics, hpolicy⟩
    cases h : routers.mounts root under with
    | ok placed => exact absurd hpolicy ((of_mounts_ok h htrail).2 hstatics)
    | error e =>
      obtain ⟨trail', htrail', hreturns | ⟨⟨full, rfl⟩, -⟩⟩ := exists_of_mounts_error h
      · exact absurd (acyclic trail' htrail') hreturns
      · exact ⟨full, rfl⟩
  · cases h : routers.mounts root under with
    | ok placed => exact .inl ⟨placed, rfl⟩
    | error e =>
      obtain ⟨trail, htrail, hreturns | ⟨⟨full, rfl⟩, -⟩⟩ := exists_of_mounts_error h
      · exact absurd (acyclic trail htrail) hreturns
      · exact .inr ⟨full, rfl⟩
  · cases h : routers.flatten rules root under [] with
    | ok routes => exact .inl ⟨routes, rfl⟩
    | error e =>
      rcases exists_of_flatten_error h with ⟨trail, htrail, hreturns⟩ | ⟨text, rfl⟩
      · exact absurd (acyclic trail htrail) hreturns
      · exact .inr ⟨text, rfl⟩
  · intro hcyclic app
    cases hform : (checkPrefix under : Except (IncludeError ρ) Unit) with
    | error e =>
      refine ⟨e, ?_⟩
      unfold AppRoutes.include
      rw [hform, run_bind_error (run_lift_error e app)]
    | ok _ =>
      cases h : routers.mounts root under with
      | error e => exact ⟨e, AppRoutes.include_of_refused hform h⟩
      | ok placed =>
        exfalso
        apply hcyclic
        intro trail htrail
        exact (of_mounts_ok h htrail).1

end Graph

/-- A route of `Router(tags=["a", "a"])`. -/
def repeatedTags : Routers Unit Unit Unit := fun _ =>
  { urlPrefix := "/x"
    auth := .unset
    rateLimit := .unset
    tags := ["a", "a"]
    handlers := .empty
    declared := [⟨"GET", "", (), false, false, none, true, false, .unset, .unset, none⟩]
    middleware := []
    children := []
    statics := [] }

theorem tags_are_repeated : ¬ ∀ (rules : BuildRules Unit) (routers : Routers Unit Unit Unit) (root : Unit)
    (under : String) (routes : List (RouteInfo Unit Unit)), routers.flatten rules root under [] = .ok routes →
      ∀ route ∈ routes, route.tags.Nodup := by
  intro h
  let rules : BuildRules Unit := ⟨fun _ _ => none, fun _ => none, id⟩
  have hflat : ∃ routes, repeatedTags.flatten rules () "" [] = .ok routes ∧
      ∃ route ∈ routes, route.tags = ["a", "a"] := by
    have hedges : (routeWalker rules repeatedTags).edges () = [] := rfl
    unfold Routers.flatten
    rw [Walker.walk, dif_neg List.not_mem_nil, hedges, Walker.walkAll]
    exact ⟨_, rfl, _, List.mem_cons_self .., rfl⟩
  obtain ⟨routes, hroutes, route, hroute, htags⟩ := hflat
  have hnodup := h rules repeatedTags () "" routes hroutes route hroute
  rw [htags] at hnodup
  exact absurd hnodup (by decide)

end Oxbrook
