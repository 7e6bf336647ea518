import Mathlib.Data.Nat.Notation
import Oxbrook.Foundation.Attempts

/-!
# Dependencies

`bind` of `_depends.py`: the dependencies of a handler are resolved, the handler is called with their values, and the
generators among them are finished in reverse.  A dependency may declare dependencies of its own, so that resolving
is a recursion over a graph, with a cache for each request and a guard against graphs that are too deep.

What a call does, how a generator goes on and whether a step raises is up to the application.  It may depend on
everything that has happened in the request, which is what the log of a `Scope` holds.
-/

namespace Oxbrook

open Attempt

variable {ι ν ε ρ : Type}

/-! ## Callables and generators -/

/-- `Depends`. -/
structure Marker (ι : Type) where
  dependency : ι
  useCache : Bool
  deriving DecidableEq

inductive GeneratorKind
  | sync
  | async
  deriving DecidableEq

/-- A generator that has yielded, by the number of those before it. -/
structure Generator (ι : Type) where
  id : ℕ
  fn : ι
  kind : GeneratorKind
  deriving DecidableEq

/-- The first step of a generator. -/
inductive FirstStep (ν ε : Type)
  | yields (v : ν)
  | raises (e : ε)
  | returns

/-- What comes of a call: a value, at once or awaited, an exception, or a generator. -/
inductive Produced (ν ε : Type)
  | value (v : ν)
  | raised (e : ε)
  | generator (kind : GeneratorKind) (first : FirstStep ν ε)

/-- How a generator goes on after its `yield`.  One that yields again is closed, which may raise. -/
inductive Continuation (ε : Type)
  | stops
  | raises (e : ε)
  | yields (closing : Option ε)

/-- The exceptions of `_depends.py` itself. -/
inductive DependsError (ι : Type)
  | tooDeep (marker : Marker ι)
  | withoutYielding (fn : ι)
  | yieldedTwice (fn : ι)

/-! ## The log of a request -/

/-- Who raises. -/
inductive RaisedBy
  | setup
  | handler
  | encoding
  | teardown (g : ℕ)

inductive DependsEvent (ι ε ρ : Type)
  /-- A dependency is called, for a marker with or without `use_cache`. -/
  | ran (fn : ι) (cached : Bool)
  | yielded (g : ℕ)
  | returned (result : ρ)
  | raised (by_ : RaisedBy) (e : ε)
  | resumed (g : ℕ) (exc : Option ε)
  | closed (g : ℕ)

namespace DependsEvent

def cachedRun? : DependsEvent ι ε ρ → Option ι
  | ran fn true => some fn
  | _ => none

def yield? : DependsEvent ι ε ρ → Option ℕ
  | yielded g => some g
  | _ => none

def resumption? : DependsEvent ι ε ρ → Option ℕ
  | resumed g _ => some g
  | _ => none

def exception? : DependsEvent ι ε ρ → Option ε
  | raised _ e => some e
  | _ => none

end DependsEvent

/-- What happened in a request, in order. -/
abbrev DependsLog (ι ε ρ : Type) := List (DependsEvent ι ε ρ)

namespace DependsLog

def cachedRuns (log : DependsLog ι ε ρ) : List ι := log.filterMap DependsEvent.cachedRun?

def yields (log : DependsLog ι ε ρ) : List ℕ := log.filterMap DependsEvent.yield?

def resumptions (log : DependsLog ι ε ρ) : List ℕ := log.filterMap DependsEvent.resumption?

/-- The exception that is propagating. -/
def lastRaised (log : DependsLog ι ε ρ) : Option ε := (log.filterMap DependsEvent.exception?).getLast?

end DependsLog

/-! ## The application -/

/-- A route with dependencies.  `rank` says that the graph has no cycle. -/
structure Route (ι ν ε ρ : Type) where
  declared : ι → List (Marker ι)
  dependencies : List (Marker ι)
  call : DependsLog ι ε ρ → ι → List ν → Produced ν ε
  resume : DependsLog ι ε ρ → Generator ι → Option ε → Continuation ε
  handler : DependsLog ι ε ρ → List ν → Except ε ρ
  encodes : ρ → Except ε Unit
  /-- The handler is one of a WebSocket. -/
  socket : Bool
  error : DependsError ι → ε
  rank : ι → ℕ
  descends : ∀ fn, ∀ marker ∈ declared fn, rank marker.dependency < rank fn

/-- The state of a request: its cache, its `AsyncExitStack` with the top first, whether a dependency has teardown, and
the log. -/
structure Scope (ι ν ε ρ : Type) where
  cache : List (ι × ν)
  stack : List (Generator ι)
  teardown : Bool
  log : DependsLog ι ε ρ

namespace Scope

def new : Scope ι ν ε ρ := ⟨[], [], false, []⟩

def note (event : DependsEvent ι ε ρ) (s : Scope ι ν ε ρ) : Scope ι ν ε ρ := { s with log := s.log ++ [event] }

/-- The cache is filled, for a marker that uses it. -/
def store (marker : Marker ι) (value : ν) (s : Scope ι ν ε ρ) : Scope ι ν ε ρ :=
  if marker.useCache then { s with cache := (marker.dependency, value) :: s.cache } else s

/-- A generator has yielded, and its exit is pushed. -/
def push (fn : ι) (kind : GeneratorKind) (s : Scope ι ν ε ρ) : Scope ι ν ε ρ :=
  { s with
    stack := ⟨s.stack.length, fn, kind⟩ :: s.stack
    teardown := true
    log := s.log ++ [.yielded s.stack.length] }

end Scope

abbrev Resolving (ι ν ε ρ : Type) := EStateM ε (Scope ι ν ε ρ)

namespace Route

def note (event : DependsEvent ι ε ρ) : Resolving ι ν ε ρ Unit := modify (Scope.note event)

def fail {β : Type} (source : RaisedBy) (e : ε) : Resolving ι ν ε ρ β := do
  note (.raised source e)
  throw e

variable (r : Route ι ν ε ρ)

/-! ## Resolving -/

/-- A generator runs up to its `yield`. -/
def begin (fn : ι) (kind : GeneratorKind) : FirstStep ν ε → Resolving ι ν ε ρ ν
  | .yields v => do
    modify (Scope.push fn kind)
    return v
  | .raises e => fail .setup e
  | .returns => fail .setup (r.error (.withoutYielding fn))

/-- A dependency is called. -/
def produce (marker : Marker ι) (kwargs : List ν) : Resolving ι ν ε ρ ν := do
  note (.ran marker.dependency marker.useCache)
  let s ← get
  match r.call s.log marker.dependency kwargs with
  | .value v => return v
  | .raised e => fail .setup e
  | .generator kind first => r.begin marker.dependency kind first

def resolveEach (resolve : Marker ι → Resolving ι ν ε ρ ν) : List (Marker ι) → Resolving ι ν ε ρ (List ν)
  | [] => return []
  | marker :: rest => do
    let value ← resolve marker
    let others ← resolveEach resolve rest
    return value :: others

variable [DecidableEq ι] [DecidableEq ε]

def cached (marker : Marker ι) (s : Scope ι ν ε ρ) : Option ν :=
  if marker.useCache then s.cache.lookup marker.dependency else none

/-- `_resolve`, with the number of levels that are left. -/
def resolve : ℕ → Marker ι → Resolving ι ν ε ρ ν
  | 0, marker => fail .setup (r.error (.tooDeep marker))
  | levels + 1, marker => do
    let s ← get
    match cached marker s with
    | some value => return value
    | none => do
      let kwargs ← resolveEach (resolve levels) (r.declared marker.dependency)
      let value ← r.produce marker kwargs
      modify (Scope.store marker value)
      return value

/-- A depth of more than 20 is refused. -/
def maxLevels : ℕ := 21

/-- The check of `_encodes`, where there is a teardown. -/
def checkResult (result : ρ) : Resolving ι ν ε ρ ρ := do
  note (.returned result)
  let s ← get
  if s.teardown && !r.socket then
    match r.encodes result with
    | .ok _ => return result
    | .error e => fail .encoding e
  else return result

/-- The body of `wrapped`. -/
def body : Resolving ι ν ε ρ ρ := do
  let params ← resolveEach (r.resolve maxLevels) r.dependencies
  let s ← get
  match r.handler s.log params with
  | .ok result => r.checkResult result
  | .error e => fail .handler e

/-! ## Finishing -/

/-- `_async_exit` and `_sync_exit`, which differ in how they drive the generator only.  An exception that is raised
again is not a new one, and one that was swallowed stands. -/
def finish (g : Generator ι) (exc : Option ε) : Resolving ι ν ε ρ Unit := do
  note (.resumed g.id exc)
  let s ← get
  match r.resume s.log g exc with
  | .stops => return ()
  | .raises e => if exc = some e then return () else fail (.teardown g.id) e
  | .yields closing =>
    note (.closed g.id)
    fail (.teardown g.id) (closing.getD (r.error (.yieldedTwice g.fn)))

/-- `AsyncExitStack.__aexit__`. -/
def unwind : List (Generator ι) → Option ε → Scope ι ν ε ρ → Option ε × Scope ι ν ε ρ
  | [], exc, s => (exc, s)
  | g :: rest, exc, s =>
    match (r.finish g exc).run s with
    | .ok _ s' => unwind rest exc s'
    | .error e s' => unwind rest (some e) s'

/-- `wrapped`. -/
def wrapped : Except ε ρ × Scope ι ν ε ρ :=
  match r.body.run .new with
  | .ok result s =>
    match r.unwind s.stack none s with
    | (none, s') => (.ok result, s')
    | (some e, s') => (.error e, s')
  | .error e s =>
    match r.unwind s.stack (some e) s with
    | (exc, s') => (.error (exc.getD e), s')

end Route

end Oxbrook
