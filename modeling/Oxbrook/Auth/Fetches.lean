import Mathlib.Algebra.Order.Ring.Defs
import Mathlib.Data.List.Chain
import Mathlib.Tactic.Linarith
import Oxbrook.Auth.Keys

/-!
# How often keys are fetched

`KeySet` of `python/oxbrook/_jwks.py` in time.  Callers on any loops find keys, ask for the discovery document and
refresh keys that are stale; a fetch runs on a thread of a pool.  Only `_start` and the end of a fetch hold the lock,
so a caller of `refresh_if_stale` may see keys that are stored and not yet stamped, and its reading of the time, of
`_fetched` and of `_attempted` may be out of date when it calls `_start`.

`starts` keeps when each fetch started, and what had come before: whether keys were held, and which fetches had failed;
`stored` keeps what each fetch stored as the keys in hand.
`provider_spared` says how far apart the starts are.  `left_alone_unless_hasty` is about failures.  The spacing after a
failure counts from the start of the attempt, so an attempt that takes time shortens it by as much.
-/

namespace Oxbrook

open StepMachine

/-! ## State -/

/-- A fetch on its thread: it stores the keys, the document and the time while it holds the lock. -/
inductive FetchStage (κ : Type)
  | idle
  | running
  | keysStored (keys : KeyTable κ)
  | documentStored (keys : KeyTable κ)
  | stamped (keys : KeyTable κ)
  /-- It released the lock, with keys or having failed. -/
  | left (result : Option (KeyTable κ))
  | completed (result : Option (KeyTable κ))
  deriving DecidableEq

/-- A fetch that has not left the slot. -/
def FetchStage.InFlight {κ : Type} : FetchStage κ → Prop
  | running | keysStored _ | documentStored _ | stamped _ => True
  | _ => False

def FetchStage.failed {κ : Type} : FetchStage κ → Bool
  | left none | completed none => true
  | _ => false

/-- The keys that a fetch brought. -/
def FetchStage.brought {κ : Type} : FetchStage κ → Option (KeyTable κ)
  | keysStored keys | documentStored keys | stamped keys => some keys
  | left result | completed result => result
  | idle | running => none

/-- What a caller is to do after `refresh_if_stale`: nothing more, or to look for the key of a token. -/
abbrev AfterRefresh (κ τ : Type) := Option (τ × KeyTable κ)

/-- Why `_start` is called. -/
inductive Asking (κ τ T : Type)
  | first (token : τ)
  | stale (spacing : T) (after : AfterRefresh κ τ)
  | unknown (token : τ)
  | discovered
  deriving DecidableEq

/-- Where a caller stands.  `source` is the fetch that the keys came from, if the caller waited for one. -/
inductive AskPc (κ τ T : Type)
  | idle
  | find (token : τ)
  | discover
  | refresh (after : AfterRefresh κ τ)
  | aged (after : AfterRefresh κ τ)
  | timed (after : AfterRefresh κ τ) (now : T)
  | stale (after : AfterRefresh κ τ)
  | compared (after : AfterRefresh κ τ) (attempted : Option T)
  | starting (asking : Asking κ τ T)
  | waiting (asking : Asking κ τ T) (fetch : ℕ)
  | seek (token : τ) (keys : KeyTable κ) (source : Option ℕ)
  | choose (token : τ) (keys : KeyTable κ) (source : Option ℕ)
  deriving DecidableEq

def AskPc.afterRefresh {κ τ T : Type} : AfterRefresh κ τ → AskPc κ τ T
  | none => .idle
  | some (token, keys) => .seek token keys none

/-- A fetch that started: because a token named an unknown key id, with keys in hand, after those failures. -/
structure FetchStart (T : Type) where
  time : T
  unknown : Bool
  held : Bool
  failures : List T

structure KeyFetches (κ τ T : Type) where
  clock : T
  lock : Option ℕ
  keys : Option (KeyTable κ)
  document : Bool
  fetched : T
  attempted : Option T
  fetching : Option ℕ
  fetches : ℕ
  fetch : ℕ → FetchStage κ
  ask : ℕ → AskPc κ τ T
  starts : List (FetchStart T)
  failures : List T
  stored : ℕ → Option (KeyTable κ)

/-- What is called. -/
inductive KeyCall (τ : Type)
  | find (token : τ)
  | discovered
  | refreshIfStale

/-- The atomic steps.  `accepted` says whether the algorithm of the token is accepted. -/
inductive FetchDeed (κ τ : Type)
  | call (c : ℕ) (what : KeyCall τ)
  | go (c : ℕ) (accepted : Bool)
  | storeKeys (f : ℕ) (keys : KeyTable κ)
  | storeDocument (f : ℕ)
  | stamp (f : ℕ)
  | release (f : ℕ)
  | fail (f : ℕ)
  | complete (f : ℕ)

/-- A step and its time. -/
structure FetchAct (κ τ T : Type) where
  now : T
  deed : FetchDeed κ τ

variable {κ τ T : Type} [CommRing T] [LinearOrder T]

/-- `REFETCH_INTERVAL`. -/
def refetchInterval : T := 60

/-- `RETRY_INTERVAL`. -/
def retryInterval : T := 5

omit [LinearOrder T] in
/-- The spacing that `_start` is called with. -/
def Asking.spacing : Asking κ τ T → T
  | first _ => retryInterval
  | stale spacing _ => spacing
  | unknown _ => refetchInterval
  | discovered => retryInterval

def Asking.isUnknown : Asking κ τ T → Bool
  | unknown _ => true
  | _ => false

namespace KeyFetches

def start (clock : T) : KeyFetches κ τ T where
  clock := clock
  lock := none
  keys := none
  document := false
  fetched := 0
  attempted := none
  fetching := none
  fetches := 0
  fetch _ := .idle
  ask _ := .idle
  starts := []
  failures := []
  stored _ := none

def goto (s : KeyFetches κ τ T) (c : ℕ) (pc : AskPc κ τ T) : KeyFetches κ τ T :=
  { s with ask := Function.update s.ask c pc }

def setFetch (s : KeyFetches κ τ T) (f : ℕ) (stage : FetchStage κ) : KeyFetches κ τ T :=
  { s with fetch := Function.update s.fetch f stage }

/-- No fetch started in the last `spacing` seconds. -/
def Due (s : KeyFetches κ τ T) (spacing : T) : Prop := ∀ attempted ∈ s.attempted, ¬ s.clock - attempted < spacing

instance (s : KeyFetches κ τ T) (spacing : T) : Decidable (s.Due spacing) :=
  inferInstanceAs (Decidable (∀ attempted ∈ s.attempted, ¬ s.clock - attempted < spacing))

/-- A new fetch. -/
def begin (s : KeyFetches κ τ T) (asking : Asking κ τ T) : KeyFetches κ τ T :=
  { s with
    attempted := some s.clock
    fetching := some s.fetches
    fetches := s.fetches + 1
    fetch := Function.update s.fetch s.fetches .running
    starts := ⟨s.clock, asking.isUnknown, s.keys.isSome, s.failures⟩ :: s.starts }

/-- `_start`. -/
def startFetch (s : KeyFetches κ τ T) (asking : Asking κ τ T) : KeyFetches κ τ T × Option ℕ :=
  match s.fetching with
  | some f => (s, some f)
  | none => if s.Due asking.spacing then (s.begin asking, some s.fetches) else (s, none)

/-- A caller goes on after `_start`. -/
def started (asking : Asking κ τ T) (future : Option ℕ) : AskPc κ τ T :=
  match asking, future with
  | .stale _ after, _ => .afterRefresh after
  | asking, some f => .waiting asking f
  | _, none => .idle

/-- A caller goes on after the fetch it waited for, which succeeded. -/
def continued (asking : Asking κ τ T) (f : ℕ) (keys : KeyTable κ) : AskPc κ τ T :=
  match asking with
  | .first token => .seek token keys (some f)
  | .unknown token => .choose token keys (some f)
  | _ => .idle

/-- A caller goes on after the fetch it waited for, which failed: with what is in hand if it only sought a key id. -/
def disappointed (s : KeyFetches κ τ T) (asking : Asking κ τ T) : AskPc κ τ T :=
  match asking with
  | .unknown token => .choose token (s.keys.getD []) none
  | _ => .idle

variable (kid : τ → Option String) (maxAge : T)

/-- The next step of a caller. -/
def advance (s : KeyFetches κ τ T) (c : ℕ) (accepted : Bool) : Option (KeyFetches κ τ T) :=
  match s.ask c with
  | .idle => none
  | .find token =>
    match s.keys with
    | none => some (s.goto c (.starting (.first token)))
    | some keys => some (s.goto c (.refresh (some (token, keys))))
  | .discover => some (s.goto c (if s.document then .idle else .starting .discovered))
  | .refresh after => some (s.goto c (if s.keys.isNone then .afterRefresh after else .aged after))
  | .aged after => some (s.goto c (.timed after s.clock))
  | .timed after now => some (s.goto c (if maxAge < now - s.fetched then .stale after else .afterRefresh after))
  | .stale after => some (s.goto c (.compared after s.attempted))
  | .compared after attempted =>
    let failedSince := attempted.any fun a => decide (s.fetched < a)
    some (s.goto c (.starting (.stale (if failedSince then retryInterval else 0) after)))
  | .starting asking =>
    if s.lock.isSome then none
    else
      let (s, future) := s.startFetch asking
      some (s.goto c (started asking future))
  | .waiting asking f =>
    match s.fetch f with
    | .completed (some keys) => some (s.goto c (continued asking f keys))
    | .completed none => some (s.goto c (s.disappointed asking))
    | _ => none
  | .seek token keys source =>
    if ! accepted then some (s.goto c .idle)
    else match keys.pick (kid token), kid token with
      | none, some _ => some (s.goto c (.starting (.unknown token)))
      | _, _ => some (s.goto c (.choose token keys source))
  | .choose _ _ _ => some (s.goto c .idle)

/-- A call begins. -/
def called : KeyCall τ → AskPc κ τ T
  | .find token => .find token
  | .discovered => .discover
  | .refreshIfStale => .refresh none

def call (s : KeyFetches κ τ T) (c : ℕ) (what : KeyCall τ) : Option (KeyFetches κ τ T) :=
  match s.ask c with
  | .idle => some (s.goto c (called what))
  | _ => none

/-- The end of `_fetch`, from its first store on. -/
def perform (s : KeyFetches κ τ T) : FetchDeed κ τ → Option (KeyFetches κ τ T)
  | .call c what => s.call c what
  | .go c accepted => s.advance kid maxAge c accepted
  | .storeKeys f keys =>
    match s.fetch f, s.lock with
    | .running, none => if keys = [] then none else some { s.setFetch f (.keysStored keys) with
        lock := some f, keys := some keys, stored := Function.update s.stored f (some keys) }
    | _, _ => none
  | .storeDocument f =>
    match s.fetch f with
    | .keysStored keys => some { s.setFetch f (.documentStored keys) with document := true }
    | _ => none
  | .stamp f =>
    match s.fetch f with
    | .documentStored keys => some { s.setFetch f (.stamped keys) with fetched := s.clock }
    | _ => none
  | .release f =>
    match s.fetch f with
    | .stamped keys => some { s.setFetch f (.left (some keys)) with lock := none, fetching := none }
    | _ => none
  | .fail f =>
    match s.fetch f, s.lock with
    | .running, none => some { s.setFetch f (.left none) with fetching := none, failures := s.clock :: s.failures }
    | _, _ => none
  | .complete f =>
    match s.fetch f with
    | .left result => some (s.setFetch f (.completed result))
    | _ => none

/-- A step, not before the one before it. -/
def step (s : KeyFetches κ τ T) (a : FetchAct κ τ T) : Option (KeyFetches κ τ T) :=
  if s.clock ≤ a.now then { s with clock := a.now }.perform kid maxAge a.deed else none

/-! ## What is promised -/

/-- Of two starts in a row, the later one is a minute after the earlier if it was for an unknown key id, and five
seconds if there were no keys. -/
def Spaced (s : KeyFetches κ τ T) : Prop :=
  s.starts.IsChain fun later earlier =>
    (later.unknown = true → earlier.time + refetchInterval ≤ later.time) ∧
      (later.held = false → earlier.time + retryInterval ≤ later.time)

/-- No fetch started within five seconds of a failure before it. -/
def LeftAlone (s : KeyFetches κ τ T) : Prop :=
  ∀ started ∈ s.starts, ∀ failure ∈ started.failures, failure + retryInterval ≤ started.time

/-! ## What holds in every run -/

/-- A caller that may start a fetch without spacing has seen keys. -/
def SeesKeys : AskPc κ τ T → Prop
  | .aged _ | .timed _ _ | .stale _ | .compared _ _ | .starting (.stale _ _) => True
  | _ => False

structure FetchInv (s : KeyFetches κ τ T) : Prop where
  slot : ∀ f, (s.fetch f).InFlight ↔ s.fetching = some f
  fresh : ∀ f, s.fetches ≤ f → s.fetch f = .idle
  attempted : s.attempted = s.starts.head?.map FetchStart.time
  spaced : s.Spaced
  held : ∀ c, SeesKeys (s.ask c) → s.keys.isSome = true
  brought : ∀ f keys, (s.fetch f).brought = some keys → s.stored f = some keys

variable {kid maxAge} {s s' : KeyFetches κ τ T} {c f : ℕ}

lemma fetchInv_start (clock : T) : FetchInv (start clock : KeyFetches κ τ T) where
  slot f := by
    constructor
    · intro h
      exact h.elim
    · intro h
      cases h
  fresh f _ := rfl
  attempted := rfl
  spaced := List.isChain_nil
  held c h := h.elim
  brought f keys h := by cases h

namespace FetchInv

lemma setClock (h : FetchInv s) (now : T) : FetchInv { s with clock := now } :=
  ⟨h.slot, h.fresh, h.attempted, h.spaced, h.held, h.brought⟩

lemma goto (h : FetchInv s) {pc : AskPc κ τ T} (held : SeesKeys pc → s.keys.isSome = true) :
    FetchInv (s.goto c pc) where
  slot := h.slot
  fresh := h.fresh
  attempted := h.attempted
  spaced := h.spaced
  brought := h.brought
  held c' hsees := by
    change SeesKeys (Function.update s.ask c pc c') at hsees
    by_cases hc : c' = c
    · rw [hc, Function.update_self] at hsees
      exact held hsees
    · rw [Function.update_of_ne hc] at hsees
      exact h.held c' hsees

/-- The stage of a fetch changes. -/
lemma setFetch (h : FetchInv s) (stage : FetchStage κ) (hold : ¬ s.fetch f = .idle)
    (slot : stage.InFlight ↔ s.fetching = some f)
    (brought : ∀ keys, stage.brought = some keys → s.stored f = some keys) : FetchInv (s.setFetch f stage) where
  slot g := by
    change (Function.update s.fetch f stage g).InFlight ↔ s.fetching = some g
    by_cases hg : g = f
    · rw [hg, Function.update_self]
      exact slot
    · rw [Function.update_of_ne hg]
      exact h.slot g
  fresh g hge := by
    change Function.update s.fetch f stage g = .idle
    have hg : g ≠ f := by
      rintro rfl
      exact hold (h.fresh g hge)
    rw [Function.update_of_ne hg]
    exact h.fresh g hge
  attempted := h.attempted
  spaced := h.spaced
  held := h.held
  brought g keys hg := by
    change (Function.update s.fetch f stage g).brought = some keys at hg
    by_cases hgf : g = f
    · rw [hgf, Function.update_self] at hg
      rw [hgf]
      exact brought keys hg
    · rw [Function.update_of_ne hgf] at hg
      exact h.brought g keys hg

/-- The fetch in flight leaves the slot. -/
lemma leave (h : FetchInv s) (stage : FetchStage κ) (hf : s.fetching = some f) (hout : ¬ stage.InFlight)
    (brought : ∀ keys, stage.brought = some keys → s.stored f = some keys) (lock : Option ℕ) (failures : List T) :
    FetchInv { s.setFetch f stage with lock := lock, fetching := none, failures := failures } where
  slot g := by
    change (Function.update s.fetch f stage g).InFlight ↔ none = some g
    refine iff_of_false ?_ nofun
    by_cases hg : g = f
    · rw [hg, Function.update_self]
      exact hout
    · rw [Function.update_of_ne hg, h.slot, hf]
      exact fun heq => hg (Option.some.inj heq).symm
  fresh g hge := by
    change Function.update s.fetch f stage g = .idle
    have hg : g ≠ f := by
      rintro rfl
      have hin := (h.slot g).mpr hf
      rw [h.fresh g hge] at hin
      exact hin
    rw [Function.update_of_ne hg]
    exact h.fresh g hge
  attempted := h.attempted
  spaced := h.spaced
  held := h.held
  brought g keys hg := by
    change (Function.update s.fetch f stage g).brought = some keys at hg
    by_cases hgf : g = f
    · rw [hgf, Function.update_self] at hg
      rw [hgf]
      exact brought keys hg
    · rw [Function.update_of_ne hgf] at hg
      exact h.brought g keys hg

/-- A running fetch stores its keys. -/
lemma store (h : FetchInv s) (hf : s.fetch f = .running) (keys : KeyTable κ) :
    FetchInv { s with lock := some f, keys := some keys, stored := Function.update s.stored f (some keys) } where
  slot := h.slot
  fresh := h.fresh
  attempted := h.attempted
  spaced := h.spaced
  held _ _ := rfl
  brought g keys' hg := by
    change Function.update s.stored f (some keys) g = some keys'
    have hgf : g ≠ f := by
      rintro rfl
      rw [hf] at hg
      cases hg
    rw [Function.update_of_ne hgf]
    exact h.brought g keys' hg

variable [IsStrictOrderedRing T]

/-- A fetch begins that is due. -/
lemma begin (h : FetchInv s) {asking : Asking κ τ T} (free : s.fetching = none) (due : s.Due asking.spacing)
    (held : ∀ spacing after, asking = .stale spacing after → s.keys.isSome = true) : FetchInv (s.begin asking) where
  slot g := by
    change (Function.update s.fetch s.fetches .running g).InFlight ↔ some s.fetches = some g
    by_cases hg : g = s.fetches
    · rw [hg, Function.update_self]
      exact iff_of_true trivial rfl
    · rw [Function.update_of_ne hg, h.slot, free]
      exact iff_of_false nofun fun heq => hg (Option.some.inj heq).symm
  fresh g hge := by
    have hlt : s.fetches < g := hge
    change Function.update s.fetch s.fetches .running g = .idle
    rw [Function.update_of_ne (by omega)]
    exact h.fresh g (by omega)
  attempted := rfl
  held := h.held
  brought g keys hg := by
    change (Function.update s.fetch s.fetches .running g).brought = some keys at hg
    by_cases hgf : g = s.fetches
    · rw [hgf, Function.update_self] at hg
      cases hg
    · rw [Function.update_of_ne hgf] at hg
      exact h.brought g keys hg
  spaced := by
    refine List.isChain_cons.mpr ⟨?_, h.spaced⟩
    intro earlier hearlier
    have hattempted : s.attempted = some earlier.time := by rw [h.attempted, hearlier]; rfl
    have hlate : earlier.time + asking.spacing ≤ s.clock := by
      have hnot := due earlier.time hattempted
      linarith
    constructor
    · intro hunknown
      cases asking with
      | unknown token => exact hlate
      | first token => cases hunknown
      | stale spacing after => cases hunknown
      | discovered => cases hunknown
    · intro hnone
      cases asking with
      | first token => exact hlate
      | discovered => exact hlate
      | stale spacing after =>
        change s.keys.isSome = false at hnone
        rw [held spacing after rfl] at hnone
        cases hnone
      | unknown token =>
        have hmore : (retryInterval : T) ≤ refetchInterval := by
          unfold retryInterval refetchInterval
          norm_num
        change earlier.time + refetchInterval ≤ s.clock at hlate
        change earlier.time + retryInterval ≤ s.clock
        linarith

end FetchInv

/-! ## What a step does -/

/-- A caller moves on, and starts a fetch only if it is about to call `_start` with the lock and the slot free. -/
lemma advance_cases (h : FetchInv s) {accepted : Bool} (ha : s.advance kid maxAge c accepted = some s') :
    (∃ pc, (SeesKeys pc → s.keys.isSome = true) ∧ s' = s.goto c pc) ∨
      ∃ asking, s.ask c = .starting asking ∧ s.lock = none ∧ s.fetching = none ∧ s.Due asking.spacing ∧
        s' = (s.begin asking).goto c (started asking (some s.fetches)) := by
  have hheld := h.held c
  unfold advance at ha
  cases hpc : s.ask c with
  | idle =>
    rw [hpc] at ha
    cases ha
  | find token =>
    rw [hpc] at ha
    cases hkeys : s.keys with
    | none =>
      rw [hkeys] at ha
      exact .inl ⟨.starting (.first token), nofun, (Option.some.inj ha).symm⟩
    | some keys =>
      rw [hkeys] at ha
      exact .inl ⟨.refresh (some (token, keys)), nofun, (Option.some.inj ha).symm⟩
  | discover =>
    rw [hpc] at ha
    refine .inl ⟨_, ?_, (Option.some.inj ha).symm⟩
    split <;> exact nofun
  | refresh after =>
    rw [hpc] at ha
    refine .inl ⟨_, ?_, (Option.some.inj ha).symm⟩
    cases hkeys : s.keys with
    | none => cases after <;> exact nofun
    | some keys => exact fun _ => rfl
  | aged after =>
    rw [hpc] at ha hheld
    exact .inl ⟨_, fun _ => hheld trivial, (Option.some.inj ha).symm⟩
  | timed after now =>
    rw [hpc] at ha hheld
    exact .inl ⟨_, fun _ => hheld trivial, (Option.some.inj ha).symm⟩
  | stale after =>
    rw [hpc] at ha hheld
    exact .inl ⟨_, fun _ => hheld trivial, (Option.some.inj ha).symm⟩
  | compared after attempted =>
    rw [hpc] at ha hheld
    exact .inl ⟨_, fun _ => hheld trivial, (Option.some.inj ha).symm⟩
  | starting asking =>
    rw [hpc] at ha hheld
    have hsees : ∀ future, SeesKeys (started asking future : AskPc κ τ T) → False := by
      intro future hs
      cases asking with
      | stale spacing after => cases after <;> exact hs
      | first token => cases future <;> exact hs
      | unknown token => cases future <;> exact hs
      | discovered => cases future <;> exact hs
    obtain ⟨hlock, hs'⟩ := Option.ite_none_left_eq_some.mp ha
    have hs' := Option.some.inj hs'
    cases hfetching : s.fetching with
    | some f =>
      rw [hfetching] at hs'
      exact .inl ⟨_, fun hs => (hsees _ hs).elim, hs'.symm⟩
    | none =>
      rw [hfetching] at hs'
      by_cases hdue : s.Due asking.spacing
      · rw [if_pos hdue] at hs'
        exact .inr ⟨asking, rfl, by simpa using hlock, rfl, hdue, hs'.symm⟩
      · rw [if_neg hdue] at hs'
        exact .inl ⟨_, fun hs => (hsees _ hs).elim, hs'.symm⟩
  | waiting asking f =>
    rw [hpc] at ha
    dsimp only at ha
    split at ha
    · refine .inl ⟨_, ?_, (Option.some.inj ha).symm⟩
      cases asking <;> exact nofun
    · refine .inl ⟨_, ?_, (Option.some.inj ha).symm⟩
      cases asking <;> exact nofun
    · cases ha
  | seek token keys source =>
    rw [hpc] at ha
    dsimp only at ha
    split at ha
    · exact .inl ⟨.idle, nofun, (Option.some.inj ha).symm⟩
    · split at ha
      · exact .inl ⟨.starting (.unknown token), nofun, (Option.some.inj ha).symm⟩
      · exact .inl ⟨.choose token keys source, nofun, (Option.some.inj ha).symm⟩
  | choose token keys source =>
    rw [hpc] at ha
    exact .inl ⟨.idle, nofun, (Option.some.inj ha).symm⟩

/-! ## Steps and runs -/

variable [IsStrictOrderedRing T]

/-- A deed keeps the invariant. -/
lemma FetchInv.perform (h : FetchInv s) {deed : FetchDeed κ τ} (hp : s.perform kid maxAge deed = some s') :
    FetchInv s' := by
  cases deed with
  | call c what =>
    dsimp only [KeyFetches.perform, KeyFetches.call] at hp
    split at hp
    · obtain rfl := Option.some.inj hp
      refine h.goto ?_
      cases what <;> exact nofun
    · cases hp
  | go c accepted =>
    obtain ⟨pc, hsees, rfl⟩ | ⟨asking, hpc, -, hfree, hdue, rfl⟩ := advance_cases h hp
    · exact h.goto hsees
    · refine FetchInv.goto (h.begin hfree hdue ?_) ?_
      · rintro spacing after rfl
        refine h.held c ?_
        rw [hpc]
        trivial
      · intro hs
        cases asking with
        | stale spacing after => cases after <;> exact hs.elim
        | first token => exact hs.elim
        | unknown token => exact hs.elim
        | discovered => exact hs.elim
  | storeKeys f keys =>
    dsimp only [KeyFetches.perform] at hp
    split at hp
    · rename_i hf _
      obtain ⟨-, hs'⟩ := Option.ite_none_left_eq_some.mp hp
      obtain rfl := Option.some.inj hs'
      have hslot := h.slot f
      rw [hf] at hslot
      refine (h.store hf keys).setFetch (.keysStored keys) (by simp [hf]) hslot ?_
      intro keys' heq
      obtain rfl := Option.some.inj heq
      exact Function.update_self ..
    · cases hp
  | storeDocument f =>
    dsimp only [KeyFetches.perform] at hp
    split at hp
    · rename_i keys hf
      obtain rfl := Option.some.inj hp
      have hslot := h.slot f
      rw [hf] at hslot
      have hnext := h.setFetch (.documentStored keys) (by simp [hf]) hslot fun keys' heq =>
        h.brought f keys' (by rw [hf]; exact heq)
      exact ⟨hnext.slot, hnext.fresh, hnext.attempted, hnext.spaced, hnext.held, hnext.brought⟩
    · cases hp
  | stamp f =>
    dsimp only [KeyFetches.perform] at hp
    split at hp
    · rename_i keys hf
      obtain rfl := Option.some.inj hp
      have hslot := h.slot f
      rw [hf] at hslot
      have hnext := h.setFetch (.stamped keys) (by simp [hf]) hslot fun keys' heq =>
        h.brought f keys' (by rw [hf]; exact heq)
      exact ⟨hnext.slot, hnext.fresh, hnext.attempted, hnext.spaced, hnext.held, hnext.brought⟩
    · cases hp
  | release f =>
    dsimp only [KeyFetches.perform] at hp
    split at hp
    · rename_i keys hf
      obtain rfl := Option.some.inj hp
      have hin := (h.slot f).mp (by rw [hf]; trivial)
      have hbrought : ∀ keys', some keys = some keys' → s.stored f = some keys' := fun keys' heq =>
        h.brought f keys' (by rw [hf]; exact heq)
      exact h.leave (.left (some keys)) hin id hbrought none s.failures
    · cases hp
  | fail f =>
    dsimp only [KeyFetches.perform] at hp
    split at hp
    · rename_i hf _
      obtain rfl := Option.some.inj hp
      have hin := (h.slot f).mp (by rw [hf]; trivial)
      exact h.leave (.left none) hin id nofun s.lock (s.clock :: s.failures)
    · cases hp
  | complete f =>
    dsimp only [KeyFetches.perform] at hp
    split at hp
    · rename_i result hf
      obtain rfl := Option.some.inj hp
      have hslot := h.slot f
      rw [hf] at hslot
      exact h.setFetch (.completed result) (by simp [hf]) hslot fun keys' heq =>
        h.brought f keys' (by rw [hf]; exact heq)
    · cases hp

lemma FetchInv.step (h : FetchInv s) {a : FetchAct κ τ T} (hs : s.step kid maxAge a = some s') : FetchInv s' := by
  obtain ⟨-, hp⟩ := Option.ite_none_right_eq_some.mp hs
  exact (h.setClock a.now).perform hp

lemma fetchInv_reaches {ok : KeyFetches κ τ T → FetchAct κ τ T → Prop} {clock : T}
    (run : Reaches (step kid maxAge) ok (start clock) s) : FetchInv s :=
  run.invariant (fetchInv_start clock) fun _ _ _ h _ taken => h.step taken

/-- **The provider is spared.**  In every run at most one fetch is in flight, the starts are spaced, and a caller whose
fetch succeeded goes on with the keys that the fetch stored. -/
theorem provider_spared {clock : T} (run : Reachable (step kid maxAge) (start clock) s) :
    (∀ f g, (s.fetch f).InFlight → (s.fetch g).InFlight → f = g) ∧ s.Spaced ∧
      ∀ c asking f keys, s.ask c = .waiting asking f → s.fetch f = .completed (some keys) →
        s.stored f = some keys ∧ ∀ now accepted, s.clock ≤ now → s.step kid maxAge ⟨now, .go c accepted⟩ =
          some ({ s with clock := now }.goto c (continued asking f keys)) := by
  have hinv := fetchInv_reaches run
  refine ⟨?_, hinv.spaced, ?_⟩
  · intro f g hf hg
    have heq := (hinv.slot f).mp hf
    rw [(hinv.slot g).mp hg] at heq
    exact (Option.some.inj heq).symm
  · intro c asking f keys hpc hf
    refine ⟨hinv.brought f keys (by rw [hf]; rfl), ?_⟩
    intro now accepted hnow
    unfold step
    rw [if_pos hnow]
    simp only [KeyFetches.perform, KeyFetches.advance, hpc, hf]

/-- A fetch goes through, all at `now`. -/
def goesThrough (f : ℕ) (keys : KeyTable κ) (now : T) : List (FetchAct κ τ T) :=
  [⟨now, .storeKeys f keys⟩, ⟨now, .storeDocument f⟩, ⟨now, .stamp f⟩, ⟨now, .release f⟩, ⟨now, .complete f⟩]

/-- A caller takes so many steps, all at `now`. -/
def goes (c times : ℕ) (now : T) : List (FetchAct κ τ T) := List.replicate times ⟨now, .go c true⟩

/-- A token names a key id that comes with a fetch a minute after the first one. -/
def rotated : List (FetchAct ℕ (Option String) ℤ) :=
  [⟨0, .call 0 (.find (some "new"))⟩] ++ goes 0 2 0 ++ goesThrough 0 [⟨some "old", 1, ""⟩] 2 ++ goes 0 2 2 ++
    goes 0 1 60 ++ goesThrough 1 [⟨some "new", 2, ""⟩] 62

theorem provider_spared_rotation : ∃ s : KeyFetches ℕ (Option String) ℤ,
    s.ask 0 = .waiting (.unknown (some "new")) 1 ∧ s.stored 1 = some [⟨some "new", 2, ""⟩] ∧ s.Spaced := by
  have hrun : ((exec (step id 600) (fun _ _ => True) (start 0) rotated).any fun s =>
      decide (s.ask 0 = .waiting (.unknown (some "new")) 1 ∧
        s.fetch 1 = .completed (some [⟨some "new", 2, ""⟩]))) = true := by
    decide +kernel
  obtain ⟨s, hs, hlast⟩ := (Option.any_eq_true ..).mp hrun
  obtain ⟨hask, hfetch⟩ := of_decide_eq_true hlast
  have hspared := provider_spared (Reachable.of_exec _ hs)
  exact ⟨s, hask, (hspared.2.2 0 _ 1 _ hask hfetch).1, hspared.2.1⟩

/-! ## After a failure -/

/-- A caller is about to start a fetch that is due, less than five seconds after a failure. -/
def Hasty (s : KeyFetches κ τ T) (a : FetchAct κ τ T) : Prop :=
  ∃ c accepted asking, a.deed = .go c accepted ∧ s.ask c = .starting asking ∧ s.lock = none ∧ s.fetching = none ∧
    { s with clock := a.now }.Due asking.spacing ∧ ∃ failure ∈ s.failures, a.now < failure + retryInterval

/-- No fetch starts. -/
structure Keeps (s s' : KeyFetches κ τ T) : Prop where
  clock : s'.clock = s.clock
  starts : s'.starts = s.starts
  attempted : s'.attempted = s.attempted
  fetches : s'.fetches = s.fetches
  fetching : ∀ f, s'.fetching = some f → s.fetching = some f

omit [IsStrictOrderedRing T] [LinearOrder T] [CommRing T] in
/-- A stage that says the same of failure. -/
lemma failed_setFetch {stage : FetchStage κ} (h : stage.failed = (s.fetch f).failed) (g : ℕ) :
    ((s.setFetch f stage).fetch g).failed = (s.fetch g).failed := by
  change (Function.update s.fetch f stage g).failed = _
  by_cases hg : g = f
  · rw [hg, Function.update_self, h]
  · rw [Function.update_of_ne hg]

omit [IsStrictOrderedRing T] in
/-- A deed keeps the starts and the failures, or a fetch fails, or one starts. -/
lemma perform_cases (h : FetchInv s) {deed : FetchDeed κ τ} (hp : s.perform kid maxAge deed = some s') :
    (Keeps s s' ∧ s'.failures = s.failures ∧ ∀ f, (s'.fetch f).failed = (s.fetch f).failed) ∨
      (∃ f, deed = .fail f ∧ s.fetching = some f ∧ Keeps s s' ∧ s'.failures = s.clock :: s.failures ∧
        (s'.fetch f).failed = true) ∨
      ∃ c accepted asking, deed = .go c accepted ∧ s.ask c = .starting asking ∧ s.lock = none ∧ s.fetching = none ∧
        s.Due asking.spacing ∧ s' = (s.begin asking).goto c (started asking (some s.fetches)) := by
  cases deed with
  | call c what =>
    dsimp only [KeyFetches.perform, KeyFetches.call] at hp
    split at hp
    · obtain rfl := Option.some.inj hp
      exact .inl ⟨⟨rfl, rfl, rfl, rfl, fun _ => id⟩, rfl, fun _ => rfl⟩
    · cases hp
  | go c accepted =>
    obtain ⟨pc, -, rfl⟩ | ⟨asking, hpc, hlock, hfree, hdue, rfl⟩ := advance_cases h hp
    · exact .inl ⟨⟨rfl, rfl, rfl, rfl, fun _ => id⟩, rfl, fun _ => rfl⟩
    · exact .inr (.inr ⟨c, accepted, asking, rfl, hpc, hlock, hfree, hdue, rfl⟩)
  | storeKeys f keys =>
    dsimp only [KeyFetches.perform] at hp
    split at hp
    · rename_i hf _
      obtain ⟨-, hs'⟩ := Option.ite_none_left_eq_some.mp hp
      obtain rfl := Option.some.inj hs'
      exact .inl ⟨⟨rfl, rfl, rfl, rfl, fun _ => id⟩, rfl, failed_setFetch (by rw [hf]; rfl)⟩
    · cases hp
  | storeDocument f =>
    dsimp only [KeyFetches.perform] at hp
    split at hp
    · rename_i hf
      obtain rfl := Option.some.inj hp
      exact .inl ⟨⟨rfl, rfl, rfl, rfl, fun _ => id⟩, rfl, failed_setFetch (by rw [hf]; rfl)⟩
    · cases hp
  | stamp f =>
    dsimp only [KeyFetches.perform] at hp
    split at hp
    · rename_i hf
      obtain rfl := Option.some.inj hp
      exact .inl ⟨⟨rfl, rfl, rfl, rfl, fun _ => id⟩, rfl, failed_setFetch (by rw [hf]; rfl)⟩
    · cases hp
  | release f =>
    dsimp only [KeyFetches.perform] at hp
    split at hp
    · rename_i hf
      obtain rfl := Option.some.inj hp
      exact .inl ⟨⟨rfl, rfl, rfl, rfl, nofun⟩, rfl, failed_setFetch (by rw [hf]; rfl)⟩
    · cases hp
  | fail f =>
    dsimp only [KeyFetches.perform] at hp
    split at hp
    · rename_i hf _
      obtain rfl := Option.some.inj hp
      have hin := (h.slot f).mp (by rw [hf]; trivial)
      refine .inr (.inl ⟨f, rfl, hin, ⟨rfl, rfl, rfl, rfl, nofun⟩, rfl, ?_⟩)
      change (Function.update s.fetch f (.left none) f).failed = true
      rw [Function.update_self]
      rfl
    · cases hp
  | complete f =>
    dsimp only [KeyFetches.perform] at hp
    split at hp
    · rename_i result hf
      obtain rfl := Option.some.inj hp
      refine .inl ⟨⟨rfl, rfl, rfl, rfl, fun _ => id⟩, rfl, failed_setFetch ?_⟩
      rw [hf]
      cases result <;> rfl
    · cases hp

omit [IsStrictOrderedRing T] in
/-- A step that is not hasty starts no fetch too early. -/
lemma LeftAlone.step (h : s.LeftAlone) (hinv : FetchInv s) {a : FetchAct κ τ T} (hok : ¬ s.Hasty a)
    (hs : s.step kid maxAge a = some s') : s'.LeftAlone := by
  obtain ⟨-, hp⟩ := Option.ite_none_right_eq_some.mp hs
  obtain ⟨hkeeps, -, -⟩ | ⟨f, -, -, hkeeps, -, -⟩ | ⟨c, accepted, asking, hdeed, hpc, hlock, hfree, hdue, rfl⟩ :=
    perform_cases (hinv.setClock a.now) hp
  · unfold LeftAlone
    rw [hkeeps.starts]
    exact h
  · unfold LeftAlone
    rw [hkeeps.starts]
    exact h
  · intro started hstarted failure hfailure
    rcases List.mem_cons.mp hstarted with rfl | hbefore
    · by_contra hearly
      exact hok ⟨c, accepted, asking, hdeed, hpc, hlock, hfree, hdue, failure, hfailure, not_le.mp hearly⟩
    · exact h started hbefore failure hfailure

omit [IsStrictOrderedRing T] in
/-- A caller at `_start` starts a fetch that is due. -/
lemma advance_of_due {asking : Asking κ τ T} {accepted : Bool} (hpc : s.ask c = .starting asking)
    (hlock : s.lock = none) (hfree : s.fetching = none) (hdue : s.Due asking.spacing) :
    s.advance kid maxAge c accepted = some ((s.begin asking).goto c (started asking (some s.fetches))) := by
  have hstart : s.startFetch asking = (s.begin asking, some s.fetches) := by
    unfold startFetch
    rw [hfree]
    exact if_pos hdue
  have hopen : ¬ s.lock.isSome = true := by
    rw [hlock]
    exact Bool.false_ne_true
  unfold advance
  rw [hpc]
  dsimp only
  rw [if_neg hopen, hstart]

omit [IsStrictOrderedRing T] in
/-- A hasty step starts a fetch too early. -/
lemma hasty_breaks {a : FetchAct κ τ T} (hasty : s.Hasty a) (hclock : s.clock ≤ a.now) :
    ∃ s', s.step kid maxAge a = some s' ∧ ¬ s'.LeftAlone := by
  obtain ⟨c, accepted, asking, hdeed, hpc, hlock, hfree, hdue, failure, hfailure, hearly⟩ := hasty
  refine ⟨({ s with clock := a.now }.begin asking).goto c (started asking (some s.fetches)), ?_, ?_⟩
  · unfold step
    rw [if_pos hclock, hdeed]
    exact advance_of_due hpc hlock hfree hdue
  · intro hleft
    have hlate := hleft ⟨a.now, asking.isUnknown, s.keys.isSome, s.failures⟩ List.mem_cons_self failure hfailure
    exact absurd hearly (not_lt.mpr hlate)

/-- An attempt that fails takes no time, and after one a fetch starts with the spacing of a failure. -/
def Prompt (s : KeyFetches κ τ T) (a : FetchAct κ τ T) : Prop :=
  match a.deed with
  | .fail _ => s.attempted = some a.now
  | .go c _ => ∀ asking, s.ask c = .starting asking → (s.fetch (s.fetches - 1)).failed = true →
      retryInterval ≤ asking.spacing
  | _ => True

/-- What holds when attempts fail promptly. -/
structure PromptInv (s : KeyFetches κ τ T) : Prop where
  latest : ∀ f, s.fetching = some f → f + 1 = s.fetches
  begun : ∀ attempted ∈ s.attempted, attempted ≤ s.clock
  failed : ∀ failure ∈ s.failures, ∃ attempted ∈ s.attempted, failure ≤ attempted ∧
    ((s.fetch (s.fetches - 1)).failed = false → failure + retryInterval ≤ attempted)

/-- Where a prompt step starts a fetch, every failure is five seconds ago. -/
lemma PromptInv.late (h : PromptInv s) {a : FetchAct κ τ T} (hok : s.Prompt a) (hclock : s.clock ≤ a.now)
    {asking : Asking κ τ T} {accepted : Bool} (hdeed : a.deed = .go c accepted) (hpc : s.ask c = .starting asking)
    (hdue : { s with clock := a.now }.Due asking.spacing) :
    ∀ failure ∈ s.failures, failure + retryInterval ≤ a.now := by
  intro failure hfailure
  obtain ⟨attempted, hatt, hle, hretry⟩ := h.failed failure hfailure
  cases hlast : (s.fetch (s.fetches - 1)).failed with
  | false => exact (hretry hlast).trans ((h.begun attempted hatt).trans hclock)
  | true =>
    unfold Prompt at hok
    rw [hdeed] at hok
    have hspacing := hok asking hpc hlast
    have hspaced := not_lt.mp (hdue attempted hatt)
    change asking.spacing ≤ a.now - attempted at hspaced
    linarith

lemma PromptInv.step (h : PromptInv s) (hinv : FetchInv s) {a : FetchAct κ τ T} (hok : s.Prompt a)
    (hs : s.step kid maxAge a = some s') : PromptInv s' := by
  obtain ⟨hclock, hp⟩ := Option.ite_none_right_eq_some.mp hs
  have hbegun : ∀ attempted ∈ s.attempted, attempted ≤ a.now := fun attempted hatt =>
    (h.begun attempted hatt).trans hclock
  obtain ⟨hkeeps, hfailures, hfailed⟩ | ⟨f, hdeed, hin, hkeeps, hfailures, hfailed⟩ |
      ⟨c, accepted, asking, hdeed, hpc, -, -, hdue, rfl⟩ := perform_cases (hinv.setClock a.now) hp
  · constructor
    · intro f hf
      rw [hkeeps.fetches]
      exact h.latest f (hkeeps.fetching f hf)
    · rw [hkeeps.attempted, hkeeps.clock]
      exact hbegun
    · rw [hfailures, hkeeps.attempted, hkeeps.fetches, hfailed]
      exact h.failed
  · have hlast : s'.fetches - 1 = f := by
      rw [hkeeps.fetches]
      have hlatest := h.latest f hin
      change s.fetches - 1 = f
      omega
    constructor
    · intro g hg
      rw [hkeeps.fetches]
      exact h.latest g (hkeeps.fetching g hg)
    · rw [hkeeps.attempted, hkeeps.clock]
      exact hbegun
    · rw [hlast, hfailed, hfailures, hkeeps.attempted]
      intro failure hfailure
      rcases List.mem_cons.mp hfailure with rfl | hbefore
      · unfold Prompt at hok
        rw [hdeed] at hok
        exact ⟨a.now, hok, le_rfl, nofun⟩
      · obtain ⟨attempted, hatt, hle, -⟩ := h.failed failure hbefore
        exact ⟨attempted, hatt, hle, nofun⟩
  · constructor
    · intro f hf
      change some s.fetches = some f at hf
      change f + 1 = s.fetches + 1
      rw [Option.some.inj hf]
    · intro attempted hatt
      obtain rfl := Option.some.inj hatt
      exact le_rfl
    · intro failure hfailure
      have hlate := h.late hok hclock hdeed hpc hdue failure hfailure
      have hpos : (0 : T) ≤ retryInterval := by
        unfold retryInterval
        norm_num
      refine ⟨a.now, rfl, ?_, fun _ => hlate⟩
      linarith

omit [IsStrictOrderedRing T] in
lemma promptInv_start (clock : T) : PromptInv (start clock : KeyFetches κ τ T) where
  latest := nofun
  begun := nofun
  failed := nofun

/-- A prompt step is not hasty. -/
lemma PromptInv.not_hasty (h : PromptInv s) {a : FetchAct κ τ T} (hclock : s.clock ≤ a.now) (hok : s.Prompt a) :
    ¬ s.Hasty a := by
  rintro ⟨c, accepted, asking, hdeed, hpc, -, -, hdue, failure, hfailure, hearly⟩
  exact absurd hearly (not_lt.mpr (h.late hok hclock hdeed hpc hdue failure hfailure))

instance (s : KeyFetches κ τ T) : Decidable s.LeftAlone :=
  inferInstanceAs (Decidable
    (∀ started ∈ s.starts, ∀ failure ∈ started.failures, failure + retryInterval ≤ started.time))

/-- A fetch takes ten seconds to fail, and the next request starts another one. -/
def slowFailure : List (FetchAct ℕ (Option String) ℤ) :=
  [⟨0, .call 0 (.find none)⟩] ++ goes 0 2 0 ++ [⟨10, .fail 0⟩, ⟨10, .call 1 (.find none)⟩] ++ goes 1 2 10

end KeyFetches

end Oxbrook
