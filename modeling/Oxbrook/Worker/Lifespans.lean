import Mathlib.Data.List.Count
import Mathlib.Data.List.Dedup
import Oxbrook.Foundation.Runs

/-!
# The lifespans of a server

`ServerHandle.serve` and `Lifecycle` of `_lifecycle.py`, with what `Server::serve` and
`Worker::start` do about the workers in between.  The thread that calls `serve` enters the process
lifespan, starts the workers, waits for what each reports, serves, stops and joins them, and leaves
the process lifespan.  Each worker is a thread of its own: it makes its loop, enters the worker
lifespan, sets up its drain callback, reports, runs its loop, and tears down.

What the application and the system answer is part of the actions, so a run is one choice of all
outcomes together with one interleaving of the threads.  The log has one entry for each
`__aenter__` that returned and one for each `__aexit__` that was awaited; whether that one raised
makes no difference to what is done next.  A teardown that ends is waited for: `join` gives up at a
deadline only on one that hangs.
-/

namespace Oxbrook

namespace Lifecycle

open StepMachine

variable {κ : Type*}

/-! ## Lifespans -/

/-- The lifespans of one server: the process's, and one for each worker. -/
inductive Lifespan
  | process
  | worker (i : ℕ)
  deriving DecidableEq

/-- `__aenter__` has returned, or `__aexit__` has been awaited. -/
inductive Event
  | entered (lifespan : Lifespan)
  | left (lifespan : Lifespan)
  deriving DecidableEq

/-- What a lifespan yields: a mapping, of which only the keys matter here, or nothing, or what
`_as_mapping` raises for, which is any other value and a mapping that cannot be copied. -/
inductive Yielded (κ : Type*)
  | mapping (keys : List κ)
  | nothing
  | other

/-- What entering a lifespan comes to: `_manager` finds nothing it could enter, or `__aenter__`
raises, or it returns. -/
inductive Entering (κ : Type*)
  | unusable
  | raises
  | yields (value : Yielded κ)

/-- `_as_mapping`; `none` is its exception. -/
def asMapping : Yielded κ → Option (List κ)
  | .mapping keys => some keys
  | .nothing => some []
  | .other => none

/-- Which lifespans the app has, and `worker_count`. -/
structure Hooks where
  process : Bool
  worker : Bool
  workers : ℕ

/-! ## A worker thread -/

/-- Where a worker thread stands.  `checking` and `clashing` are inside `start_worker`, with the
manager entered; from `wiring` on the flag says whether the context has a manager. -/
inductive WorkerPhase (κ : Type*)
  | opening
  | entering
  | checking (value : Yielded κ)
  | clashing
  | wiring (manager : Bool)
  | running (manager : Bool)
  | leaving (manager : Bool)
  | ended

/-- A worker thread: where it stands, whether it has reported that it started or that it failed, and
whether its loop was told to stop. -/
structure WorkerThread (κ : Type*) where
  phase : WorkerPhase κ
  reported : Option Bool
  told : Bool

/-- A step of a worker thread. -/
inductive WorkerAction (κ : Type*)
  -- `make_worker_loop`
  | openLoop (ok : Bool)
  | enter (outcome : Entering κ)
  -- whether the clashing keys, if there are any, can be sorted
  | check (sorted : Bool)
  | leaveClash
  -- making the drain callback and watching the wake pair
  | wire (ok : Bool)
  -- `run_forever` returns, because the loop was told to stop or because something raised
  | endLoop (raised : Bool)
  | leave

/-- The thread has nothing more to do but to report that it failed. -/
def WorkerThread.fail (t : WorkerThread κ) : WorkerThread κ :=
  { t with phase := .ended, reported := some false }

/-- A step of the thread of worker `i`, for an app that has a worker lifespan or has none and whose
state has the keys `base`; with what it adds to the log. -/
def workerStep [DecidableEq κ] (hook : Bool) (base : List κ) (i : ℕ) (t : WorkerThread κ) :
    WorkerAction κ → Option (WorkerThread κ × List Event)
  | .openLoop ok =>
    match t.phase with
    | .opening => some (if ok then { t with phase := .entering } else t.fail, [])
    | _ => none
  | .enter outcome =>
    match t.phase with
    | .entering =>
      if hook = false then some ({ t with phase := .wiring false }, [])
      else
        match outcome with
        | .unusable | .raises => some (t.fail, [])
        | .yields value => some ({ t with phase := .checking value }, [.entered (.worker i)])
    | _ => none
  | .check sorted =>
    match t.phase with
    | .checking value =>
      match asMapping value with
      | none => some (t.fail, [])
      | some keys =>
        let clash := keys.dedup.filter fun k => k ∈ base
        if clash = [] then some ({ t with phase := .wiring true }, [])
        else if sorted then some ({ t with phase := .clashing }, [])
        else if 2 ≤ clash.length then some (t.fail, [])
        else none
    | _ => none
  | .leaveClash =>
    match t.phase with
    | .clashing => some (t.fail, [.left (.worker i)])
    | _ => none
  | .wire ok =>
    match t.phase with
    | .wiring manager =>
      some (if ok then { t with phase := .running manager, reported := some true }
        else { t with phase := .leaving manager }, [])
    | _ => none
  | .endLoop raised =>
    match t.phase with
    | .running manager =>
      if t.told ∨ raised then some ({ t with phase := .leaving manager }, []) else none
    | _ => none
  | .leave =>
    match t.phase with
    | .leaving manager =>
      some ({ t with phase := .ended, reported := t.reported.orElse fun _ => some false },
        if manager then [.left (.worker i)] else [])
    | _ => none

/-! ## The thread that serves -/

/-- Where `serve` stands.  `started` workers have been started; `next` is the one that is waited
for, told to stop or joined next. -/
inductive ServePhase (κ : Type*)
  | entering
  | checking (value : Yielded κ)
  -- in `Server::serve`, before any worker
  | building
  | spawning (started : ℕ)
  | finishing (started next : ℕ) (failed : Bool)
  -- the workers run, and the addresses are about to be parsed
  | addressing (started : ℕ)
  | serving (started : ℕ)
  | stopping (started next : ℕ)
  | joining (started next : ℕ)
  -- `stop_process`
  | leaving
  | returned

/-- What starting a worker comes to: its thread runs, or `wake::pair` failed, or the system refused
the thread, which panics. -/
inductive Spawned
  | started
  | noWake
  | noThread

/-- The serving thread with what the lifecycle keeps of the process lifespan, the workers, and the
log. -/
structure ServeState (κ : Type*) where
  main : ServePhase κ
  -- `_process_manager` is set
  manager : Bool
  -- the keys of `app.state`
  base : List κ
  worker : ℕ → Option (WorkerThread κ)
  log : List Event

/-- A step of the serving thread or of a worker's thread. -/
inductive ServeAction (κ : Type*)
  | enterProcess (outcome : Entering κ)
  | checkProcess
  -- everything `Server::serve` sets up before it starts a worker
  | build (ok : Bool)
  | spawn (outcome : Spawned)
  | allSpawned
  | finish
  | address (ok : Bool)
  -- `serve_loop` and the drain end, whatever the result
  | served
  | stop
  | join
  -- whether closing the app's agent sessions and its threadpool goes through
  | leaveProcess (closed : Bool)
  | worker (i : ℕ) (a : WorkerAction κ)

/-- The worker is told to stop, if it reported that it started. -/
def tell (w : Option (WorkerThread κ)) : Option (WorkerThread κ) :=
  w.map fun t => if t.reported = some true then { t with told := true } else t

namespace ServeState

/-- `serve` has been called. -/
def new : ServeState κ where
  main := .entering
  manager := false
  base := []
  worker := fun _ => none
  log := []

variable [DecidableEq κ]

/-- The step function. -/
def step (hooks : Hooks) (s : ServeState κ) : ServeAction κ → Option (ServeState κ)
  | .enterProcess outcome =>
    match s.main with
    | .entering =>
      if hooks.process = false then some { s with main := .building }
      else
        match outcome with
        | .unusable | .raises => some { s with main := .returned }
        | .yields value =>
          some { s with main := .checking value, log := s.log ++ [.entered .process] }
    | _ => none
  | .checkProcess =>
    match s.main with
    | .checking value =>
      match asMapping value with
      | none => some { s with main := .returned }
      | some keys => some { s with main := .building, manager := true, base := keys }
    | _ => none
  | .build ok =>
    match s.main with
    | .building => some { s with main := if ok then .spawning 0 else .leaving }
    | _ => none
  | .spawn outcome =>
    match s.main with
    | .spawning started =>
      if started < hooks.workers then
        match outcome with
        | .started =>
          some { s with
            main := .spawning (started + 1)
            worker := Function.update s.worker started
              (some { phase := .opening, reported := none, told := false }) }
        | .noWake => some { s with main := .finishing started 0 true }
        | .noThread => some { s with main := .leaving }
      else none
    | _ => none
  | .allSpawned =>
    match s.main with
    | .spawning started =>
      if started = hooks.workers then some { s with main := .finishing started 0 false } else none
    | _ => none
  | .finish =>
    match s.main with
    | .finishing started next failed =>
      if next < started then
        match s.worker next with
        | some ⟨_, some true, _⟩ => some { s with main := .finishing started (next + 1) failed }
        | some ⟨.ended, some false, _⟩ => some { s with main := .finishing started (next + 1) true }
        | _ => none
      else some { s with main := if failed then .stopping started 0 else .addressing started }
    | _ => none
  | .address ok =>
    match s.main with
    | .addressing started => some { s with main := if ok then .serving started else .leaving }
    | _ => none
  | .served =>
    match s.main with
    | .serving started => some { s with main := .stopping started 0 }
    | _ => none
  | .stop =>
    match s.main with
    | .stopping started next =>
      if next < started then
        some { s with
          main := .stopping started (next + 1)
          worker := Function.update s.worker next (tell (s.worker next)) }
      else some { s with main := .joining started 0 }
    | _ => none
  | .join =>
    match s.main with
    | .joining started next =>
      if next < started then
        match s.worker next with
        | some ⟨.ended, _, _⟩ => some { s with main := .joining started (next + 1) }
        | _ => none
      else some { s with main := .leaving }
    | _ => none
  | .leaveProcess closed =>
    match s.main with
    | .leaving =>
      if closed then
        some { s with
          main := .returned
          manager := false
          log := s.log ++ if s.manager then [.left .process] else [] }
      else some { s with main := .returned, manager := false }
    | _ => none
  | .worker i a =>
    (s.worker i).bind fun t => (workerStep hooks.worker s.base i t a).map fun r =>
      { s with worker := Function.update s.worker i (some r.1), log := s.log ++ r.2 }

end ServeState

/-! ## What a worker holds -/

/-- The thread holds an entered manager it is still going to leave. -/
def WorkerPhase.holds : WorkerPhase κ → Bool
  | .checking _ | .clashing => true
  | .wiring manager | .running manager | .leaving manager => manager
  | .opening | .entering | .ended => false

/-- The thread, if there is one, has not come to entering its lifespan. -/
def Fresh (w : Option (WorkerThread κ)) : Prop :=
  ∀ t, w = some t → t.phase = .opening ∨ t.phase = .entering

/-- Managers held, as a number. -/
def held : Option (WorkerThread κ) → ℕ
  | some t => t.phase.holds.toNat
  | none => 0

/-- A worker whose lifespan was entered `entered` times and left `left` times.  What it holds was
entered and not left; what was entered may have been dropped. -/
structure Fits (hook : Bool) (w : Option (WorkerThread κ)) (entered left : ℕ) : Prop where
  once : entered ≤ 1
  balance : left + held w ≤ entered
  fresh : Fresh w → entered = 0
  hookless : hook = false → entered = 0

/-- The step of a worker that drops the manager it has entered: what it yielded is refused, or has
keys of the app's state that cannot be sorted. -/
def WorkerThread.drops [DecidableEq κ] (t : WorkerThread κ) (base : List κ) : WorkerAction κ → Bool
  | .check sorted =>
    match t.phase with
    | .checking value =>
      match asMapping value with
      | none => true
      | some keys => !sorted && keys.any fun k => k ∈ base
    | _ => false
  | _ => false

section Workers

variable [DecidableEq κ] {hook : Bool} {base : List κ} {i : ℕ} {t t' : WorkerThread κ}
  {a : WorkerAction κ} {events : List Event} {entered left : ℕ}

/-- What a step of a worker's thread can do: go on holding what it held, or enter its lifespan, or
leave it, or drop it. -/
inductive WorkerStep (hook : Bool) (base : List κ) (i : ℕ) (t : WorkerThread κ)
    (a : WorkerAction κ) :
    WorkerThread κ → List Event → Prop
  | goes {t' : WorkerThread κ} (hholds : t'.phase.holds = t.phase.holds)
      (hfresh : Fresh (some t') → Fresh (some t)) (hlive : t.phase ≠ .ended) :
    WorkerStep hook base i t a t' []
  | enters {t' : WorkerThread κ} (hhook : hook = true) (hfresh : Fresh (some t))
      (hholds : t'.phase.holds = true) (hentered : ¬ Fresh (some t')) :
    WorkerStep hook base i t a t' [.entered (.worker i)]
  | leaves {t' : WorkerThread κ} (hholds : t.phase.holds = true) (hended : t'.phase = .ended) :
    WorkerStep hook base i t a t' [.left (.worker i)]
  | drops {t' : WorkerThread κ} (hdrops : t.drops base a = true) (hholds : t.phase.holds = true)
      (hended : t'.phase = .ended) :
    WorkerStep hook base i t a t' []

/-- Every step does one of these. -/
lemma workerStep_cases (h : workerStep hook base i t a = some (t', events)) :
    WorkerStep hook base i t a t' events := by
  cases a with
  | openLoop ok =>
    simp only [workerStep] at h
    split at h
    case h_2 => cases h
    case h_1 hphase =>
      cases h
      apply WorkerStep.goes
      · split <;> simp [hphase, WorkerPhase.holds, WorkerThread.fail]
      · intro _ t ht
        cases ht
        exact Or.inl hphase
      · simp [hphase]
  | enter outcome =>
    simp only [workerStep] at h
    split at h
    case h_2 => cases h
    case h_1 hphase =>
      have fresh : Fresh (some t) := by
        intro t ht
        cases ht
        exact Or.inr hphase
      split at h
      · cases h
        exact .goes (by simp [hphase, WorkerPhase.holds]) (fun _ => fresh) (by simp [hphase])
      · rename_i hhook
        have failed : WorkerStep hook base i t (.enter outcome) t.fail [] :=
          .goes (by simp [hphase, WorkerPhase.holds, WorkerThread.fail]) (fun _ => fresh)
            (by simp [hphase])
        split at h <;> cases h
        case h_1 => exact failed
        case h_2 => exact failed
        case h_3 value =>
          refine .enters (by simpa using hhook) fresh rfl ?_
          intro h
          simpa using h _ rfl
  | check sorted =>
    simp only [workerStep] at h
    split at h
    case h_2 => cases h
    case h_1 value hphase =>
      have holds : t.phase.holds = true := by simp [hphase, WorkerPhase.holds]
      have notFresh : ∀ {t' : WorkerThread κ}, t'.phase = .wiring true ∨ t'.phase = .clashing →
          Fresh (some t') → Fresh (some t) := by
        intro t' ht' h
        rcases h t' rfl with h | h <;> simp [h] at ht'
      split at h
      case h_1 hother =>
        cases h
        exact .drops (by simp [WorkerThread.drops, hphase, hother]) holds rfl
      case h_2 keys hkeys =>
        split at h
        · cases h
          exact .goes holds.symm (notFresh (Or.inl rfl)) (by simp [hphase])
        · rename_i hclash
          split at h
          · cases h
            exact .goes holds.symm (notFresh (Or.inr rfl)) (by simp [hphase])
          · rename_i hsorted
            split at h <;> cases h
            have clashes : ∃ k ∈ keys, k ∈ base := by
              simpa [List.filter_eq_nil_iff] using hclash
            have drops : t.drops base (.check sorted) = true := by
              simpa [WorkerThread.drops, hphase, hkeys, hsorted] using clashes
            exact .drops drops holds rfl
  | leaveClash =>
    simp only [workerStep] at h
    split at h <;> cases h
    case h_1 hphase => exact .leaves (by simp [hphase, WorkerPhase.holds]) rfl
  | wire ok =>
    simp only [workerStep] at h
    split at h
    case h_2 => cases h
    case h_1 manager hphase =>
      cases h
      apply WorkerStep.goes
      · split <;> simp [hphase, WorkerPhase.holds]
      · intro h
        have early := h _ rfl
        split at early <;> simp at early
      · simp [hphase]
  | endLoop raised =>
    simp only [workerStep] at h
    split at h
    case h_2 => cases h
    case h_1 manager hphase =>
      obtain ⟨-, h⟩ := Option.ite_none_right_eq_some.mp h
      cases h
      apply WorkerStep.goes
      · simp [hphase, WorkerPhase.holds]
      · intro h
        simpa using h _ rfl
      · simp [hphase]
  | leave =>
    simp only [workerStep] at h
    split at h
    case h_2 => cases h
    case h_1 manager hphase =>
      cases h
      cases manager with
      | true => exact .leaves (by simp [hphase, WorkerPhase.holds]) rfl
      | false =>
        apply WorkerStep.goes
        · simp [hphase, WorkerPhase.holds]
        · intro h
          simpa using h _ rfl
        · simp [hphase]

omit [DecidableEq κ] in
/-- A thread that is fresh holds nothing. -/
lemma Fresh.held_eq (h : Fresh (some t)) : held (some t) = 0 := by
  rcases h t rfl with h | h <;> simp [held, h, WorkerPhase.holds]

omit [DecidableEq κ] in
/-- A thread that is over has come past entering. -/
lemma not_fresh_of_ended (h : t.phase = .ended) : ¬ Fresh (some t) := by
  intro fresh
  rcases fresh t rfl with h' | h' <;> simp [h] at h'

omit [DecidableEq κ] in
/-- A thread that is over holds nothing. -/
lemma held_of_ended (h : t.phase = .ended) : held (some t) = 0 := by
  simp [held, h, WorkerPhase.holds]

/-- Every step of a worker keeps the account of its lifespan. -/
lemma Fits.step (h : Fits hook (some t) entered left) (hs : WorkerStep hook base i t a t' events) :
    Fits hook (some t') (entered + events.count (.entered (.worker i)))
      (left + events.count (.left (.worker i))) := by
  cases hs with
  | goes hholds hfresh hlive =>
    have same : held (some t') = held (some t) := by simp [held, hholds]
    exact ⟨h.once, by simpa [same] using h.balance, fun fresh => h.fresh (hfresh fresh), h.hookless⟩
  | enters hhook hfresh hholds hentered =>
    have none := h.fresh hfresh
    have balance := h.balance
    subst none
    have unleft : left = 0 := by omega
    subst unleft
    constructor
    · simp
    · simp [held, hholds]
    · exact fun fresh => absurd fresh hentered
    · simp [hhook]
  | leaves hholds hended =>
    have balance := h.balance
    simp only [held, hholds, Bool.toNat_true] at balance
    constructor
    · simpa using h.once
    · simpa [held_of_ended hended] using balance
    · exact fun fresh => absurd fresh (not_fresh_of_ended hended)
    · simpa using h.hookless
  | drops hdrops hholds hended =>
    have balance := h.balance
    constructor
    · simpa using h.once
    · simp only [held_of_ended hended, List.count_nil, Nat.add_zero]
      omega
    · exact fun fresh => absurd fresh (not_fresh_of_ended hended)
    · simpa using h.hookless

/-- A step of a worker that drops nothing leaves as much as it enters and no longer holds. -/
lemma kept_step (h : entered = left + held (some t))
    (hs : WorkerStep hook base i t a t' events) (hdrops : t.drops base a = false) :
    entered + events.count (.entered (.worker i)) =
      left + events.count (.left (.worker i)) + held (some t') := by
  cases hs with
  | goes hholds hfresh hlive => simpa [held, hholds] using h
  | enters hhook hfresh hholds hentered =>
    have before := hfresh.held_eq
    have after : held (some t') = 1 := by simp [held, hholds]
    rw [before] at h
    simp [h, after]
  | leaves hholds hended =>
    have before : held (some t) = 1 := by simp [held, hholds]
    rw [before] at h
    simp [h, held_of_ended hended]
  | drops drops => simp [drops] at hdrops

end Workers

/-! ## What a step of the serving thread does -/

section Steps

variable [DecidableEq κ] {hooks : Hooks} {s s' : ServeState κ} {a : ServeAction κ}

/-- How many workers have been started, as long as that decides what is joined. -/
def ServePhase.started : ServePhase κ → Option ℕ
  | .entering | .checking _ | .building => some 0
  | .spawning started | .finishing started _ _ | .addressing started | .serving started
  | .stopping started _ | .joining started _ => some started
  | .leaving | .returned => none

/-- The process lifespan, if there is one, has been entered and recorded, and not left. -/
def ServePhase.inside : ServePhase κ → Bool
  | .entering | .checking _ | .returned => false
  | _ => true

/-- What a step can do, case by case. -/
inductive Stepped (hooks : Hooks) (s : ServeState κ) : ServeAction κ → ServeState κ → Prop
  | hookless {outcome} (h : s.main = .entering) (hhook : hooks.process = false) :
    Stepped hooks s (.enterProcess outcome) { s with main := .building }
  | refused {outcome} (h : s.main = .entering) :
    Stepped hooks s (.enterProcess outcome) { s with main := .returned }
  | entered {value} (h : s.main = .entering) :
    Stepped hooks s (.enterProcess (.yields value))
      { s with main := .checking value, log := s.log ++ [.entered .process] }
  | dropped {value} (h : s.main = .checking value) (hother : asMapping value = none) :
    Stepped hooks s .checkProcess { s with main := .returned }
  | checked {value keys} (h : s.main = .checking value) (hkeys : asMapping value = some keys) :
    Stepped hooks s .checkProcess { s with main := .building, manager := true, base := keys }
  | built {ok} (h : s.main = .building) :
    Stepped hooks s (.build ok) { s with main := if ok then .spawning 0 else .leaving }
  | spawned {started} (h : s.main = .spawning started) :
    Stepped hooks s (.spawn .started)
      { s with
        main := .spawning (started + 1)
        worker := Function.update s.worker started
          (some { phase := .opening, reported := none, told := false }) }
  | noWake {started} (h : s.main = .spawning started) :
    Stepped hooks s (.spawn .noWake) { s with main := .finishing started 0 true }
  | noThread {started} (h : s.main = .spawning started) :
    Stepped hooks s (.spawn .noThread) { s with main := .leaving }
  | moves {a main' started} (h : s.main.started = some started) (h' : main'.started = some started)
      (hin : s.main.inside = true) (hin' : main'.inside = true)
      (joins : ∀ started next, main' = .joining started next → next = 0) :
    Stepped hooks s a { s with main := main' }
  | address {started ok} (h : s.main = .addressing started) :
    Stepped hooks s (.address ok) { s with main := if ok then .serving started else .leaving }
  | told {started next} (h : s.main = .stopping started next) (hnext : next < started) :
    Stepped hooks s .stop
      { s with
        main := .stopping started (next + 1)
        worker := Function.update s.worker next (tell (s.worker next)) }
  | joined {started next t} (h : s.main = .joining started next) (hnext : next < started)
      (ht : s.worker next = some t) (hended : t.phase = .ended) :
    Stepped hooks s .join { s with main := .joining started (next + 1) }
  | allJoined {started next} (h : s.main = .joining started next) (hnext : started ≤ next) :
    Stepped hooks s .join { s with main := .leaving }
  | left (h : s.main = .leaving) :
    Stepped hooks s (.leaveProcess true)
      { s with
        main := .returned
        manager := false
        log := s.log ++ if s.manager then [.left .process] else [] }
  | unleft (h : s.main = .leaving) :
    Stepped hooks s (.leaveProcess false) { s with main := .returned, manager := false }
  | worker {i t t' b events} (ht : s.worker i = some t)
      (hb : WorkerStep hooks.worker s.base i t b t' events) :
    Stepped hooks s (.worker i b)
      { s with worker := Function.update s.worker i (some t'), log := s.log ++ events }

/-- Every step does one of these. -/
theorem stepped (hs : s.step hooks a = some s') : Stepped hooks s a s' := by
  cases a with
  | enterProcess outcome =>
    simp only [ServeState.step] at hs
    split at hs
    case h_2 => cases hs
    case h_1 h =>
      split at hs
      · rename_i hhook
        cases hs
        exact .hookless h hhook
      · split at hs <;> cases hs
        case h_1 => exact .refused h
        case h_2 => exact .refused h
        case h_3 => exact .entered h
  | checkProcess =>
    simp only [ServeState.step] at hs
    split at hs
    case h_2 => cases hs
    case h_1 value h =>
      split at hs <;> cases hs
      case h_1 hother => exact .dropped h hother
      case h_2 keys hkeys => exact .checked h hkeys
  | build ok =>
    simp only [ServeState.step] at hs
    split at hs <;> cases hs
    case h_1 h => exact .built h
  | spawn outcome =>
    simp only [ServeState.step] at hs
    split at hs
    case h_2 => cases hs
    case h_1 started h =>
      obtain ⟨-, hs⟩ := Option.ite_none_right_eq_some.mp hs
      split at hs <;> cases hs
      · exact .spawned h
      · exact .noWake h
      · exact .noThread h
  | allSpawned =>
    simp only [ServeState.step] at hs
    split at hs
    case h_2 => cases hs
    case h_1 started h =>
      obtain ⟨-, rfl⟩ := of_guard hs
      exact .moves (by rw [h]; rfl) rfl (by rw [h]; rfl) rfl (by simp)
  | finish =>
    simp only [ServeState.step] at hs
    split at hs
    case h_2 => cases hs
    case h_1 started next failed h =>
      have hstarted : s.main.started = some started := by rw [h]; rfl
      have hin : s.main.inside = true := by rw [h]; rfl
      split at hs
      · split at hs <;> cases hs
        · exact .moves hstarted rfl hin rfl (by simp)
        · exact .moves hstarted rfl hin rfl (by simp)
      · cases hs
        cases failed with
        | true => exact .moves hstarted rfl hin rfl (by simp)
        | false => exact .moves hstarted rfl hin rfl (by simp)
  | address ok =>
    simp only [ServeState.step] at hs
    split at hs <;> cases hs
    case h_1 started h => exact .address h
  | served =>
    simp only [ServeState.step] at hs
    split at hs <;> cases hs
    case h_1 started h =>
      exact .moves (by rw [h]; rfl) rfl (by rw [h]; rfl) rfl (by simp)
  | stop =>
    simp only [ServeState.step] at hs
    split at hs
    case h_2 => cases hs
    case h_1 started next h =>
      split at hs <;> cases hs
      · rename_i hnext
        exact .told h hnext
      · exact .moves (by rw [h]; rfl) rfl (by rw [h]; rfl) rfl (by simp)
  | join =>
    simp only [ServeState.step] at hs
    split at hs
    case h_2 => cases hs
    case h_1 started next h =>
      split at hs
      · rename_i hnext
        split at hs <;> cases hs
        case h_1 ht => exact .joined h hnext ht rfl
      · rename_i hnext
        cases hs
        exact .allJoined h (by omega)
  | leaveProcess closed =>
    simp only [ServeState.step] at hs
    split at hs
    case h_2 => cases hs
    case h_1 h =>
      cases closed with
      | true =>
        cases hs
        exact .left h
      | false =>
        cases hs
        exact .unleft h
  | worker i b =>
    obtain ⟨t, ht, hs⟩ := Option.bind_eq_some_iff.mp hs
    obtain ⟨⟨t', events⟩, hb, rfl⟩ := Option.map_eq_some_iff.mp hs
    exact .worker ht (workerStep_cases hb)

end Steps

/-! ## What holds in every run -/

section Account

/-- The account of the process lifespan while the serving thread stands at `main`. -/
def ProcessFits (main : ServePhase κ) (manager : Bool) (entered left : ℕ) : Prop :=
  match main with
  | .entering => entered = 0 ∧ left = 0 ∧ manager = false
  | .checking _ => entered = 1 ∧ left = 0 ∧ manager = false
  | .returned => left ≤ entered ∧ entered ≤ 1
  | _ => entered = manager.toNat ∧ left = 0

/-- The invariant: the account of each lifespan is in order, and no worker is beyond those that were
started. -/
structure ServeInv (hooks : Hooks) (s : ServeState κ) : Prop where
  process : ProcessFits s.main s.manager (s.log.count (.entered .process))
    (s.log.count (.left .process))
  workers : ∀ i, Fits hooks.worker (s.worker i) (s.log.count (.entered (.worker i)))
    (s.log.count (.left (.worker i)))
  bounded : ∀ started, s.main.started = some started → ∀ i, started ≤ i → s.worker i = none

variable {hooks : Hooks} {s s' : ServeState κ} {a : ServeAction κ}

/-- Telling a worker to stop does not change what it holds. -/
lemma held_tell (w : Option (WorkerThread κ)) : held (tell w) = held w := by
  cases w with
  | none => rfl
  | some t =>
    simp only [tell, Option.map_some, held]
    split <;> rfl

/-- Telling a worker to stop does not move it. -/
lemma fresh_of_tell {w : Option (WorkerThread κ)} (h : Fresh (tell w)) : Fresh w := by
  rintro t rfl
  have early := h _ rfl
  dsimp only at early
  split at early <;> exact early

/-- The account of a worker that is told to stop. -/
lemma Fits.told {hook : Bool} {w : Option (WorkerThread κ)} {entered left : ℕ}
    (h : Fits hook w entered left) : Fits hook (tell w) entered left :=
  ⟨h.once, (held_tell w).symm ▸ h.balance, fun fresh => h.fresh (fresh_of_tell fresh), h.hookless⟩

/-- The account of a worker that has not been started. -/
lemma Fits.spawned {hook : Bool} {entered left : ℕ} {t : WorkerThread κ}
    (h : Fits hook (none : Option (WorkerThread κ)) entered left) (ht : t.phase = .opening) :
    Fits hook (some t) entered left := by
  have none : entered = 0 := h.fresh (by rintro _ ⟨⟩)
  have balance := h.balance
  subst none
  refine ⟨by simp, ?_, fun _ => rfl, fun _ => rfl⟩
  simp only [held, ht, WorkerPhase.holds, Bool.toNat_false]
  omega

/-- The account of the process while its lifespan is entered and not left. -/
lemma processFits_iff {main : ServePhase κ} {manager : Bool} {entered left : ℕ}
    (h : main.inside = true) :
    ProcessFits main manager entered left ↔ entered = manager.toNat ∧ left = 0 := by
  cases main <;> first | rfl | cases h

/-- Nothing is entered when `serve` is called. -/
lemma serveInv_new : ServeInv hooks (.new : ServeState κ) where
  process := by simp [ProcessFits, ServeState.new]
  workers i := by
    refine ⟨by simp [ServeState.new], by simp [ServeState.new, held], fun _ => rfl, fun _ => rfl⟩
  bounded := by simp [ServeState.new]

variable [DecidableEq κ]

/-- A step of one worker logs nothing of the others. -/
lemma count_other {i j : ℕ} {t t' : WorkerThread κ} {b : WorkerAction κ} {events : List Event}
    {hook : Bool} {base : List κ} (h : WorkerStep hook base i t b t' events) (hij : j ≠ i) :
    events.count (.entered (.worker j)) = 0 ∧ events.count (.left (.worker j)) = 0 := by
  cases h <;> simp [hij.symm]

/-- A step of a worker logs nothing of the process. -/
lemma count_process {i : ℕ} {t t' : WorkerThread κ} {b : WorkerAction κ} {events : List Event}
    {hook : Bool} {base : List κ} (h : WorkerStep hook base i t b t' events) :
    events.count (.entered .process) = 0 ∧ events.count (.left .process) = 0 := by
  cases h <;> simp

/-- Every step keeps the account of the process. -/
lemma ServeInv.process_step (h : ServeInv hooks s) (hs : Stepped hooks s a s') :
    ProcessFits s'.main s'.manager (s'.log.count (.entered .process))
      (s'.log.count (.left .process)) := by
  have before := h.process
  cases hs with
  | hookless hmain | refused hmain =>
    rw [hmain] at before
    obtain ⟨entered, left, manager⟩ := before
    simp [ProcessFits, entered, left, manager]
  | entered hmain =>
    rw [hmain] at before
    obtain ⟨entered, left, manager⟩ := before
    simp [ProcessFits, entered, left, manager]
  | dropped hmain | checked hmain =>
    rw [hmain] at before
    obtain ⟨entered, left, manager⟩ := before
    simp [ProcessFits, entered, left]
  | @built ok hmain =>
    rw [hmain] at before
    cases ok <;> exact before
  | @address started ok hmain =>
    rw [hmain] at before
    cases ok <;> exact before
  | spawned hmain | noWake hmain | noThread hmain | told hmain | joined hmain | allJoined hmain =>
    rw [hmain] at before
    exact before
  | moves hstarted hstarted' hin hin' =>
    rw [processFits_iff hin] at before
    exact (processFits_iff hin').mpr before
  | left hmain =>
    rw [hmain] at before
    obtain ⟨entered, left⟩ := (processFits_iff rfl).mp before
    cases hm : s.manager <;> simp [ProcessFits, entered, left, hm]
  | unleft hmain =>
    rw [hmain] at before
    obtain ⟨entered, left⟩ := (processFits_iff rfl).mp before
    have once := Bool.toNat_le s.manager
    rw [← entered] at once
    exact ⟨left ▸ Nat.zero_le _, once⟩
  | worker ht hb =>
    obtain ⟨entered, left⟩ := count_process hb
    simpa [entered, left] using before

/-- Every step keeps the account of each worker. -/
lemma ServeInv.workers_step (h : ServeInv hooks s) (hs : Stepped hooks s a s') (i : ℕ) :
    Fits hooks.worker (s'.worker i) (s'.log.count (.entered (.worker i)))
      (s'.log.count (.left (.worker i))) := by
  have before := h.workers i
  cases hs with
  | hookless | refused | dropped | checked | built | noWake | noThread | moves | address | joined
  | allJoined | unleft => exact before
  | entered => simpa using before
  | left => cases hm : s.manager <;> simpa [hm] using before
  | @spawned started hmain =>
    by_cases same : i = started
    · subst same
      have unstarted := h.bounded i (by rw [hmain]; rfl) i (Nat.le_refl i)
      rw [unstarted] at before
      simpa using before.spawned rfl
    · simpa [Function.update_of_ne same] using before
  | @told started next hmain hnext =>
    by_cases same : i = next
    · subst same
      simpa using before.told
    · simpa [Function.update_of_ne same] using before
  | @worker j t t' b events ht hb =>
    by_cases same : i = j
    · subst same
      rw [ht] at before
      simpa using before.step hb
    · obtain ⟨entered, left⟩ := count_other hb same
      simpa [Function.update_of_ne same, entered, left] using before

/-- No step reaches beyond the workers that were started. -/
lemma ServeInv.bounded_step (h : ServeInv hooks s) (hs : Stepped hooks s a s') :
    ∀ started, s'.main.started = some started → ∀ i, started ≤ i → s'.worker i = none := by
  intro started hstarted i hi
  have before : ∀ started, s.main.started = some started → started ≤ i → s.worker i = none :=
    fun started hs hle => h.bounded started hs i hle
  cases hs with
  | hookless hmain | refused hmain | entered hmain | dropped hmain | checked hmain =>
    exact before 0 (by rw [hmain]; rfl) (Nat.zero_le i)
  | @built ok hmain => exact before 0 (by rw [hmain]; rfl) (Nat.zero_le i)
  | @address started' ok hmain =>
    cases ok with
    | true =>
      obtain rfl := Option.some.inj hstarted
      exact before _ (by rw [hmain]; rfl) hi
    | false => cases hstarted
  | noWake hmain | joined hmain =>
    obtain rfl := Option.some.inj hstarted
    exact before _ (by rw [hmain]; rfl) hi
  | noThread | allJoined | left | unleft => cases hstarted
  | moves hmain hmain' =>
    obtain rfl := Option.some.inj (hmain'.symm.trans hstarted)
    exact before _ hmain hi
  | @spawned started' hmain =>
    obtain rfl := Option.some.inj hstarted
    have other : i ≠ started' := by omega
    simp only [Function.update_of_ne other]
    exact before _ (by rw [hmain]; rfl) (by omega)
  | @told started' next hmain hnext =>
    obtain rfl := Option.some.inj hstarted
    have other : i ≠ next := by omega
    simp only [Function.update_of_ne other]
    exact before _ (by rw [hmain]; rfl) hi
  | @worker j t t' b events ht hb =>
    have unstarted := before started hstarted hi
    have other : i ≠ j := by
      rintro rfl
      simp [ht] at unstarted
    simp only [Function.update_of_ne other]
    exact unstarted

/-- Every step keeps the invariant. -/
lemma ServeInv.step (h : ServeInv hooks s) (hs : Stepped hooks s a s') : ServeInv hooks s' :=
  ⟨h.process_step hs, h.workers_step hs, h.bounded_step hs⟩

end Account

/-! ## Runs in which nothing is dropped -/

section Sound

variable {hooks : Hooks} {s s' : ServeState κ} {a : ServeAction κ}

/-- A lifespan is left after the process's. -/
def Late (e e' : Event) : Prop := e = .left .process ∧ ∃ i, e' = .left (.worker i)

/-- Each lifespan that was entered has been left once, and no worker's after the process's. -/
def AllLeft (log : List Event) : Prop :=
  (∀ l, .entered l ∈ log → log.count (.left l) = 1) ∧ log.Pairwise fun e e' => ¬ Late e e'

/-- The step drops a manager that was entered: what it yielded is refused, the keys that clash
cannot be sorted, or closing the app's sessions raises before the manager's turn. -/
def ServeState.drops [DecidableEq κ] (s : ServeState κ) : ServeAction κ → Bool
  | .checkProcess =>
    match s.main with
    | .checking value => (asMapping value).isNone
    | _ => false
  | .leaveProcess closed => !closed && s.manager
  | .worker i b => (s.worker i).any fun t => t.drops s.base b
  | _ => false

/-- The step takes `serve` past workers that run or start, and the app has a worker lifespan. -/
def ServeState.strands (hooks : Hooks) (s : ServeState κ) : ServeAction κ → Bool
  | .address ok => !ok && hooks.worker
  | .spawn .noThread =>
    match s.main with
    | .spawning started => hooks.worker && started ≠ 0
    | _ => false
  | _ => false

/-- The step neither drops a manager nor strands a worker. -/
abbrev Sound [DecidableEq κ] (hooks : Hooks) (s : ServeState κ) (a : ServeAction κ) : Prop :=
  s.drops a = false ∧ s.strands hooks a = false

/-- A worker that will log nothing more. -/
def Settled (hook : Bool) (w : Option (WorkerThread κ)) : Prop :=
  hook = false ∨ ∀ t, w = some t → t.phase = .ended

/-- What sound runs keep besides: everything entered was left or is held, the serving thread goes on
to the process lifespan when the workers have settled, and the log is in order. -/
structure SoundInv (hooks : Hooks) (s : ServeState κ) : Prop where
  inv : ServeInv hooks s
  kept : ∀ i, s.log.count (.entered (.worker i)) =
    s.log.count (.left (.worker i)) + held (s.worker i)
  process : s.main = .returned → s.log.count (.entered .process) = s.log.count (.left .process)
  joined : ∀ started next, s.main = .joining started next → ∀ i < next,
    Settled hooks.worker (s.worker i)
  settled : s.main = .leaving ∨ s.main = .returned → ∀ i, Settled hooks.worker (s.worker i)
  ordered : s.log.Pairwise fun e e' => ¬ Late e e'

/-- A settled worker that is told to stop is settled. -/
lemma Settled.told {hook : Bool} {w : Option (WorkerThread κ)} (h : Settled hook w) :
    Settled hook (tell w) := by
  rcases h with hhook | hended
  · exact Or.inl hhook
  · refine Or.inr ?_
    intro t ht
    obtain ⟨t₀, rfl, rfl⟩ := Option.map_eq_some_iff.mp ht
    split
    · exact hended t₀ rfl
    · exact hended t₀ rfl

/-- What was entered and never left is missing. -/
lemma not_allLeft {log : List Event} {l : Lifespan} (entered : .entered l ∈ log)
    (left : log.count (.left l) = 0) : ¬ AllLeft log := by
  rintro ⟨once, -⟩
  have one := once l entered
  omega

/-- A worker that was not started is settled. -/
lemma settled_of_none {hook : Bool} {w : Option (WorkerThread κ)} (h : w = none) :
    Settled hook w := by
  refine Or.inr ?_
  rintro t rfl
  cases h

/-- Once the process lifespan has been left, `serve` has returned. -/
lemma returned_of_left (h : ServeInv hooks s) (hleft : Event.left .process ∈ s.log) :
    s.main = .returned := by
  have some : 0 < s.log.count (.left .process) := List.count_pos_iff.mpr hleft
  have fits := h.process
  cases hmain : s.main with
  | returned => rfl
  | entering | checking value | building | spawning | finishing | addressing | serving | stopping
  | joining | leaving =>
    rw [hmain] at fits
    simp only [ProcessFits] at fits
    omega

/-- A log in order stays in order if no worker's exit is added after the process's. -/
lemma ordered_append {log events : List Event} (h : log.Pairwise fun e e' => ¬ Late e e')
    (hevents : events.length ≤ 1)
    (hleft : ∀ i, .left (.worker i) ∈ events → .left .process ∉ log) :
    (log ++ events).Pairwise fun e e' => ¬ Late e e' := by
  refine List.pairwise_append.mpr ⟨h, ?_, ?_⟩
  · match events, hevents with
    | [], _ => exact List.Pairwise.nil
    | [e], _ => exact List.pairwise_singleton _ e
  · rintro e he e' he' ⟨rfl, i, rfl⟩
    exact hleft i he' he

/-- Nothing is dropped when `serve` is called. -/
lemma soundInv_new : SoundInv hooks (.new : ServeState κ) where
  inv := serveInv_new
  kept _ := rfl
  process _ := rfl
  joined := by simp [ServeState.new]
  settled := by simp [ServeState.new]
  ordered := List.Pairwise.nil

/-- When `serve` has returned and the workers have settled, everything that was entered has been
left. -/
lemma SoundInv.allLeft (h : SoundInv hooks s) (hreturned : s.main = .returned) : AllLeft s.log := by
  refine ⟨?_, h.ordered⟩
  intro l hl
  have pos : 0 < s.log.count (.entered l) := List.count_pos_iff.mpr hl
  cases l with
  | process =>
    have account := h.inv.process
    rw [hreturned] at account
    have same := h.process hreturned
    have once := account.2
    omega
  | worker i =>
    have fits := h.inv.workers i
    have kept := h.kept i
    have none : held (s.worker i) = 0 := by
      rcases h.settled (Or.inr hreturned) i with hook | hended
      · have unentered := fits.hookless hook
        omega
      · cases hw : s.worker i with
        | none => rfl
        | some t => exact held_of_ended (hended t hw)
    have once := fits.once
    omega

variable [DecidableEq κ]

/-- A settled worker takes no step that enters or leaves. -/
lemma Settled.events_eq {hook : Bool} {t t' : WorkerThread κ} {b : WorkerAction κ} {i e l : ℕ}
    {events : List Event} {base : List κ} (h : Settled hook (some t)) (fits : Fits hook (some t) e l)
    (hb : WorkerStep hook base i t b t' events) : events = [] := by
  have holds : t.phase.holds = false := by
    rcases h with hhook | hended
    · have none := fits.hookless hhook
      have balance := fits.balance
      cases hh : t.phase.holds with
      | false => rfl
      | true =>
        simp only [held, hh, Bool.toNat_true] at balance
        omega
    · simp [hended t rfl, WorkerPhase.holds]
  cases hb with
  | goes => rfl
  | drops => rfl
  | enters hhook hfresh =>
    rcases h with hhook' | hended
    · simp [hhook] at hhook'
    · exact absurd hfresh (not_fresh_of_ended (hended t rfl))
  | leaves hholds => simp [holds] at hholds

/-- A settled worker stays settled. -/
lemma Settled.step {hook : Bool} {t t' : WorkerThread κ} {b : WorkerAction κ} {i : ℕ}
    {events : List Event} {base : List κ} (h : Settled hook (some t))
    (hb : WorkerStep hook base i t b t' events) :
    Settled hook (some t') := by
  rcases h with hhook | hended
  · exact Or.inl hhook
  · have ended := hended t rfl
    cases hb with
    | goes hholds hfresh hlive => exact absurd ended hlive
    | enters hhook hfresh => exact absurd hfresh (not_fresh_of_ended ended)
    | leaves hholds hended' | drops hdrops hholds hended' =>
      refine Or.inr ?_
      rintro _ ⟨⟩
      exact hended'

/-- Everything held by nobody who could hold it was left. -/
lemma SoundInv.kept_step (h : SoundInv hooks s) (hs : Stepped hooks s a s') (sound : Sound hooks s a)
    (i : ℕ) : s'.log.count (.entered (.worker i)) =
      s'.log.count (.left (.worker i)) + held (s'.worker i) := by
  have before := h.kept i
  cases hs with
  | hookless | refused | dropped | checked | built | noWake | noThread | moves | address | joined
  | allJoined | unleft => exact before
  | entered => simpa using before
  | left => cases hm : s.manager <;> simpa [hm] using before
  | @spawned started hmain =>
    by_cases same : i = started
    · subst same
      have unstarted := h.inv.bounded i (by rw [hmain]; rfl) i (Nat.le_refl i)
      rw [unstarted] at before
      simpa [held, WorkerPhase.holds] using before
    · simpa [Function.update_of_ne same] using before
  | @told started next hmain hnext =>
    by_cases same : i = next
    · subst same
      simpa [held_tell] using before
    · simpa [Function.update_of_ne same] using before
  | @worker j t t' b events ht hb =>
    by_cases same : i = j
    · subst same
      rw [ht] at before
      have undropped : t.drops s.base b = false := by
        simpa [ServeState.drops, ht] using sound.1
      simpa using Lifecycle.kept_step before hb undropped
    · obtain ⟨entered, left⟩ := count_other hb same
      simpa [Function.update_of_ne same, entered, left] using before

/-- The process lifespan has been left when `serve` returns. -/
lemma SoundInv.process_step (h : SoundInv hooks s) (hs : Stepped hooks s a s')
    (sound : Sound hooks s a) (hreturned : s'.main = .returned) :
    s'.log.count (.entered .process) = s'.log.count (.left .process) := by
  have before := h.inv.process
  cases hs with
  | hookless | entered | checked | spawned | noWake | noThread | told | joined | allJoined =>
    cases hreturned
  | @built ok | @address _ ok =>
    cases ok <;> cases hreturned
  | moves hstarted hstarted' =>
    obtain rfl := hreturned
    cases hstarted'
  | refused hmain =>
    rw [hmain] at before
    exact before.1.trans before.2.1.symm
  | dropped hmain hother =>
    have undropped := sound.1
    simp [ServeState.drops, hmain, hother] at undropped
  | left hmain =>
    rw [hmain] at before
    obtain ⟨entered, left⟩ := (processFits_iff rfl).mp before
    cases hm : s.manager <;> simp [entered, left, hm]
  | unleft hmain =>
    rw [hmain] at before
    obtain ⟨entered, left⟩ := (processFits_iff rfl).mp before
    cases hm : s.manager with
    | true =>
      have undropped := sound.1
      simp [ServeState.drops, hm] at undropped
    | false => simp [entered, left, hm]
  | worker ht hb =>
    obtain ⟨entered, left⟩ := count_process hb
    simpa [entered, left] using h.process hreturned

/-- A worker that was settled is settled after any step of a thread. -/
lemma settled_after {i : ℕ} (h : Settled hooks.worker (s.worker i)) (hs : Stepped hooks s a s')
    (hspawn : ∀ started, s.main ≠ .spawning started) : Settled hooks.worker (s'.worker i) := by
  cases hs with
  | hookless | refused | entered | dropped | checked | built | noWake | noThread | moves | address
  | joined | allJoined | left | unleft => exact h
  | spawned hmain => exact absurd hmain (hspawn _)
  | @told started next hmain hnext =>
    by_cases same : i = next
    · subst same
      simpa using h.told
    · simpa [Function.update_of_ne same] using h
  | @worker j t t' b events ht hb =>
    by_cases same : i = j
    · subst same
      rw [ht] at h
      simpa using h.step hb
    · simpa [Function.update_of_ne same] using h

/-- The workers have settled when the serving thread comes to the process lifespan. -/
lemma SoundInv.settled_step (h : SoundInv hooks s) (hs : Stepped hooks s a s')
    (sound : Sound hooks s a) (hmain' : s'.main = .leaving ∨ s'.main = .returned) (i : ℕ) :
    Settled hooks.worker (s'.worker i) := by
  have unstarted : s.main.started = some 0 → s.worker i = none :=
    fun hstarted => h.inv.bounded 0 hstarted i (Nat.zero_le i)
  cases hs with
  | hookless | entered | checked | spawned | noWake | told | joined => simp at hmain'
  | refused hmain | dropped hmain => exact settled_of_none (unstarted (by rw [hmain]; rfl))
  | built hmain => exact settled_of_none (unstarted (by rw [hmain]; rfl))
  | @noThread started hmain =>
    by_cases first : started = 0
    · subst first
      exact settled_of_none (unstarted (by rw [hmain]; rfl))
    · refine Or.inl ?_
      simpa [ServeState.strands, hmain, first] using sound.2
  | moves hstarted hstarted' =>
    rcases hmain' with rfl | rfl <;> cases hstarted'
  | @address started ok hmain =>
    cases ok with
    | true => simp at hmain'
    | false => exact Or.inl (by simpa [ServeState.strands] using sound.2)
  | @allJoined started next hmain hnext =>
    by_cases joined : i < next
    · exact h.joined started next hmain i joined
    · exact settled_of_none (h.inv.bounded started (by rw [hmain]; rfl) i (by omega))
  | left hmain | unleft hmain => exact h.settled (Or.inl hmain) i
  | worker ht hb =>
    have spawning : ∀ started, s.main ≠ .spawning started := by
      rintro started hs
      simp [hs] at hmain'
    exact settled_after (h.settled hmain' i) (.worker ht hb) spawning

/-- The workers that were joined have settled. -/
lemma SoundInv.joined_step (h : SoundInv hooks s) (hs : Stepped hooks s a s') :
    ∀ started next, s'.main = .joining started next → ∀ i < next,
      Settled hooks.worker (s'.worker i) := by
  intro started next hmain' i hi
  cases hs with
  | hookless | refused | entered | dropped | checked | spawned | noWake | noThread | told
  | allJoined | left | unleft => cases hmain'
  | @built ok | @address _ ok => cases ok <;> cases hmain'
  | moves _ _ _ _ joins =>
    have zero := joins started next hmain'
    omega
  | @joined started' next' t hmain hnext ht hended =>
    obtain ⟨rfl, rfl⟩ : started' = started ∧ next' + 1 = next := by simpa using hmain'
    by_cases last : i = next'
    · subst last
      refine Or.inr ?_
      intro t' ht'
      obtain rfl := Option.some.inj (ht.symm.trans ht')
      exact hended
    · exact h.joined _ _ hmain i (by omega)
  | worker ht hb =>
    have joining : ∀ started, s.main ≠ .spawning started := by
      rintro started' hs
      simp [hs] at hmain'
    exact settled_after (h.joined started next hmain' i hi) (.worker ht hb) joining

/-- No worker's lifespan is left after the process's. -/
lemma SoundInv.ordered_step (h : SoundInv hooks s) (hs : Stepped hooks s a s') :
    s'.log.Pairwise fun e e' => ¬ Late e e' := by
  have before := h.ordered
  cases hs with
  | hookless | refused | dropped | checked | built | spawned | noWake | noThread | moves | address
  | told | joined | allJoined | unleft => exact before
  | entered => exact ordered_append before (by simp) (by simp)
  | left =>
    apply ordered_append before
    · split <;> simp
    · intro i hi
      split at hi <;> simp at hi
  | @worker j t t' b events ht hb =>
    apply ordered_append before
    · cases hb <;> simp
    · -- the process lifespan is left after every worker has settled
      intro i hi hleft
      have settled := h.settled (Or.inr (returned_of_left h.inv hleft)) j
      have fits := h.inv.workers j
      rw [ht] at settled fits
      rw [settled.events_eq fits hb] at hi
      simp at hi

/-- A sound step keeps the invariant of sound runs. -/
lemma SoundInv.step (h : SoundInv hooks s) (hs : Stepped hooks s a s') (sound : Sound hooks s a) :
    SoundInv hooks s' where
  inv := h.inv.step hs
  kept := h.kept_step hs sound
  process := h.process_step hs sound
  joined := h.joined_step hs
  settled := h.settled_step hs sound
  ordered := h.ordered_step hs

/-! ## What was dropped is never left -/

/-- The lifespan was entered and never left, and no step can leave it any more. -/
def Lost (s : ServeState κ) : Lifespan → Prop
  | .process => .entered .process ∈ s.log ∧ s.log.count (.left .process) = 0 ∧ s.main = .returned
  | .worker i => .entered (.worker i) ∈ s.log ∧ s.log.count (.left (.worker i)) = 0 ∧
      ∃ t, s.worker i = some t ∧ t.phase = .ended

/-- A lifespan with a positive count was entered. -/
lemma mem_of_count {log : List Event} {e : Event} (h : log.count e = 1) : e ∈ log :=
  List.count_pos_iff.mp (by omega)

/-- The step of a worker that drops its manager ends its thread and logs nothing. -/
lemma ended_of_drops {hook : Bool} {base : List κ} {i : ℕ} {t t' : WorkerThread κ}
    {b : WorkerAction κ} {events : List Event} (drops : t.drops base b = true)
    (hb : workerStep hook base i t b = some (t', events)) :
    t.phase.holds = true ∧ t'.phase = .ended ∧ events = [] := by
  cases b with
  | check sorted =>
    simp only [WorkerThread.drops] at drops
    split at drops
    case h_2 => cases drops
    case h_1 value hphase =>
      simp only [workerStep, hphase] at hb
      refine ⟨by simp [hphase, WorkerPhase.holds], ?_⟩
      split at drops
      case h_1 hother =>
        simp only [hother] at hb
        cases hb
        exact ⟨rfl, rfl⟩
      case h_2 keys hkeys =>
        obtain ⟨hsorted, clashes⟩ := (Bool.and_eq_true _ _).mp drops
        have clash : keys.dedup.filter (fun k => k ∈ base) ≠ [] := by
          simpa [List.filter_eq_nil_iff] using clashes
        have unsorted : ¬ sorted = true := by simpa using hsorted
        simp only [hkeys, if_neg clash, if_neg unsorted] at hb
        split at hb <;> cases hb
        exact ⟨rfl, rfl⟩
  | openLoop | enter | leaveClash | wire | endLoop | leave => cases drops

/-- What a step drops is lost. -/
lemma lost_of_drops (h : ServeInv hooks s) (hs : s.step hooks a = some s')
    (drops : s.drops a = true) : ∃ l, Lost s' l := by
  have process := h.process
  cases a with
  | checkProcess =>
    simp only [ServeState.drops] at drops
    split at drops
    case h_2 => cases drops
    case h_1 value hmain =>
      have hother : asMapping value = none := Option.isNone_iff_eq_none.mp drops
      simp only [ServeState.step, hmain, hother] at hs
      cases hs
      rw [hmain] at process
      exact ⟨.process, mem_of_count process.1, process.2.1, rfl⟩
  | leaveProcess closed =>
    obtain ⟨hclosed, hmanager⟩ := (Bool.and_eq_true _ _).mp drops
    obtain rfl : closed = false := by simpa using hclosed
    simp only [ServeState.step] at hs
    split at hs <;> cases hs
    rename_i hmain
    rw [hmain, hmanager] at process
    obtain ⟨entered, left⟩ := (processFits_iff rfl).mp process
    exact ⟨.process, mem_of_count entered, left, rfl⟩
  | worker i b =>
    obtain ⟨t, ht, hdrops⟩ := (Option.any_eq_true _ _).mp drops
    obtain ⟨t₀, ht₀, hs⟩ := Option.bind_eq_some_iff.mp hs
    obtain rfl := Option.some.inj (ht.symm.trans ht₀)
    obtain ⟨⟨t', events⟩, hb, rfl⟩ := Option.map_eq_some_iff.mp hs
    obtain ⟨holds, ended, rfl⟩ := ended_of_drops hdrops hb
    have fits := h.workers i
    rw [ht] at fits
    have balance := fits.balance
    have once := fits.once
    simp only [held, holds, Bool.toNat_true] at balance
    refine ⟨.worker i, ?_, ?_, t', by simp, ended⟩
    · simp only [List.append_nil]
      exact mem_of_count (by omega)
    · simp only [List.append_nil]
      omega
  | enterProcess | build | spawn | allSpawned | finish | address | served | stop | join =>
    cases drops

/-- What is lost stays lost. -/
lemma Lost.step {l : Lifespan} (h : Lost s l) (inv : ServeInv hooks s) (hs : Stepped hooks s a s') :
    Lost s' l := by
  cases l with
  | process =>
    obtain ⟨entered, left, hmain⟩ := h
    cases hs with
    | hookless h | refused h | entered h | dropped h | checked h | built h | spawned h | noWake h
    | noThread h | address h | told h | joined h | allJoined h | left h | unleft h =>
      simp [hmain] at h
    | moves hstarted => simp [hmain, ServePhase.started] at hstarted
    | worker ht hb =>
      refine ⟨List.mem_append_left _ entered, ?_, hmain⟩
      simp [left, (count_process hb).2]
  | worker i =>
    obtain ⟨entered, left, t, ht, hended⟩ := h
    cases hs with
    | hookless | refused | dropped | checked | built | noWake | noThread | moves | address | joined
    | allJoined | unleft => exact ⟨entered, left, t, ht, hended⟩
    | entered => exact ⟨List.mem_append_left _ entered, by simp [left], t, ht, hended⟩
    | left =>
      refine ⟨List.mem_append_left _ entered, ?_, t, ht, hended⟩
      cases hm : s.manager <;> simp [left]
    | @spawned started hmain =>
      have other : i ≠ started := by
        rintro rfl
        have unstarted := inv.bounded i (by rw [hmain]; rfl) i (Nat.le_refl i)
        simp [ht] at unstarted
      exact ⟨entered, left, t, by simpa [Function.update_of_ne other] using ht, hended⟩
    | @told started next hmain hnext =>
      by_cases same : i = next
      · subst same
        have ended : Settled true (tell (s.worker i)) := by
          rw [ht]
          refine Settled.told (Or.inr ?_)
          rintro _ ⟨⟩
          exact hended
        obtain ⟨t', ht'⟩ : ∃ t', tell (s.worker i) = some t' := by simp [ht, tell]
        refine ⟨entered, left, t', by simpa using ht', ?_⟩
        exact (ended.resolve_left (by simp)) t' ht'
      · exact ⟨entered, left, t, by simpa [Function.update_of_ne same] using ht, hended⟩
    | @worker j t₀ t' b events ht₀ hb =>
      by_cases same : i = j
      · subst same
        obtain rfl := Option.some.inj (ht.symm.trans ht₀)
        cases hb with
        | goes hholds hfresh hlive => exact absurd hended hlive
        | enters hhook hfresh => exact absurd hfresh (not_fresh_of_ended hended)
        | leaves hholds => simp [hended, WorkerPhase.holds] at hholds
        | drops hdrops hholds => simp [hended, WorkerPhase.holds] at hholds
      · refine ⟨List.mem_append_left _ entered, ?_, t, ?_, hended⟩
        · simp [left, (count_other hb same).2]
        · simpa [Function.update_of_ne same] using ht

end Sound

/-! ## Every lifespan is left -/

/-- **When every lifespan is left.**  In every run, of any number of workers, any outcomes and any
interleaving, in which no step drops an entered manager and `serve` does not go past workers that
run or start: when `serve` has returned or raised, each lifespan that was entered has been left
exactly once, and no worker's after the process's.  A manager that a step drops is never left. -/
theorem lifespans_are_left [DecidableEq κ] (hooks : Hooks) :
    (∀ s : ServeState κ, Reaches (ServeState.step hooks) (Sound hooks) .new s →
      s.main = .returned → AllLeft s.log) ∧
    (∀ (s s' s'' : ServeState κ) (a : ServeAction κ), Reachable (ServeState.step hooks) .new s →
      s.drops a = true → s.step hooks a = some s' → Reachable (ServeState.step hooks) s' s'' →
      ¬ AllLeft s''.log) := by
  constructor
  · intro s run hreturned
    have sound : SoundInv hooks s := by
      apply run.invariant soundInv_new
      intro t a t' ht ok taken
      exact ht.step (stepped taken) ok
    exact sound.allLeft hreturned
  · intro s s' s'' a reached drops hs rest
    have inv : ServeInv hooks s :=
      reached.invariant serveInv_new fun _ _ _ ht taken => ht.step (stepped taken)
    obtain ⟨l, lost⟩ := lost_of_drops inv hs drops
    have kept : ServeInv hooks s'' ∧ Lost s'' l := by
      refine rest.invariant (I := fun t => ServeInv hooks t ∧ Lost t l)
        ⟨inv.step (stepped hs), lost⟩ ?_
      rintro t b t' ⟨ht, hlost⟩ taken
      exact ⟨ht.step (stepped taken), hlost.step ht (stepped taken)⟩
    cases l with
    | process => exact not_allLeft kept.2.1 kept.2.2.1
    | worker i => exact not_allLeft kept.2.1 kept.2.2.1

/-- The thread of worker `i`, from its start, with what its lifespan yields. -/
def starts (i : ℕ) (value : Yielded ℕ) : List (ServeAction ℕ) :=
  [.worker i (.openLoop true), .worker i (.enter (.yields value)), .worker i (.check true)]

/-- A server with one worker starts, serves and stops. -/
theorem one_worker_is_left :
    ∃ s : ServeState ℕ, s.main = .returned ∧
      s.log = [.entered .process, .entered (.worker 0), .left (.worker 0), .left .process] ∧
      AllLeft s.log := by
  have run : Reaches (ServeState.step ⟨true, true, 1⟩) (Sound ⟨true, true, 1⟩) .new
      (_ : ServeState ℕ) :=
    Reaches.of_exec ([.enterProcess (.yields (.mapping [1])), .checkProcess, .build true,
      .spawn .started, .allSpawned] ++ starts 0 (.mapping [2]) ++ [.worker 0 (.wire true), .finish,
      .finish, .address true, .served, .stop, .stop, .worker 0 (.endLoop false), .worker 0 .leave,
      .join, .join, .leaveProcess true]) rfl
  exact ⟨_, rfl, rfl, (lifespans_are_left ⟨true, true, 1⟩).1 _ run rfl⟩

/-- Two ways to miss one: of two workers the first yields a list, which is refused with its manager
entered and not yet recorded; and with every worker running the address cannot be parsed, so `serve`
raises without stopping them. -/
theorem refused_and_stranded :
    (∃ s : ServeState ℕ, Reachable (ServeState.step ⟨true, true, 2⟩) .new s ∧ s.main = .returned ∧
      s.log = [.entered .process, .entered (.worker 0), .entered (.worker 1), .left (.worker 1),
        .left .process] ∧ ¬ AllLeft s.log) ∧
    (∃ s : ServeState ℕ, Reachable (ServeState.step ⟨true, true, 1⟩) .new s ∧ s.main = .returned ∧
      s.log = [.entered .process, .entered (.worker 0), .left .process] ∧ ¬ AllLeft s.log) := by
  constructor
  · have run : Reachable (ServeState.step ⟨true, true, 2⟩) .new (_ : ServeState ℕ) :=
      Reachable.of_exec ([.enterProcess (.yields .nothing), .checkProcess, .build true,
        .spawn .started, .spawn .started, .allSpawned] ++ starts 0 .other ++ starts 1 .nothing ++
        [.worker 1 (.wire true), .finish, .finish, .finish, .stop, .stop, .stop,
        .worker 1 (.endLoop false), .worker 1 .leave, .join, .join, .join, .leaveProcess true]) rfl
    exact ⟨_, run, rfl, rfl, not_allLeft (l := .worker 0) (by decide) (by decide)⟩
  · have run : Reachable (ServeState.step ⟨true, true, 1⟩) .new (_ : ServeState ℕ) :=
      Reachable.of_exec ([.enterProcess (.yields .nothing), .checkProcess, .build true,
        .spawn .started, .allSpawned] ++ starts 0 .nothing ++ [.worker 0 (.wire true), .finish,
        .finish, .address false, .leaveProcess true]) rfl
    exact ⟨_, run, rfl, rfl, not_allLeft (l := .worker 0) (by decide) (by decide)⟩

end Lifecycle

end Oxbrook
