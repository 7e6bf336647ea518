import Mathlib.Data.Multiset.Count
import Oxbrook.Foundation.Runs
import Oxbrook.Foundation.Tally

/-!
# In-flight slots and places on a connection

Two counts are kept while requests are served.  A worker's `inflight` is raised when its drain claims a
request and lowered when the request's `Responder` releases it.  The count of an HTTP/2 connection is
raised by `Reservation::take`, before the body is read, and the place then passes from hand to hand: from
the reservation to the queued request, from there to the responder, and it is given back by whichever of
them the request ends with.

Each `fetch_add`, `fetch_sub`, `swap` and load is a step, for any number of requests, connections and
workers.  Several calls on one responder may be under way at once; which of them releases is decided by
the swap of `released`.  Which worker takes a request and which of the queued ones a drain pops next is
left open, as the counts do not depend on it, and no call of a drain raises here: `Worker.Drain` is about
those that do.
-/

namespace Oxbrook

open StepMachine

variable {ι γ ω : Type*}

/-! ## One request -/

/-- Who holds the counts of a request. -/
inductive Custody (ω : Type*)
  | absent
  -- `take` found the connection full and has not undone its `fetch_add`
  | undoing
  | refused
  -- a `Reservation` holds the place
  | reserved
  -- it was dropped: the request was answered before it reached a worker
  | answered
  | handed
  -- no worker took it, and the place is not given back yet
  | shedding
  | shed
  | queued (w : ω)
  | popped (w : ω)
  -- its client left: the drain is about to give the place back
  | leaving
  | dropped
  | claimed (w : ω)
  -- its `Responder` exists
  | owned (w : ω)
  deriving DecidableEq

/-- Where a call on a responder stands: the sender is taken and `kept` not read; `kept` is to be read by
`finish_or_keep`; `release_once` is at its swap; it won the swap and gives the slot back, then the
place. -/
inductive ReleaseCall
  | delivering (full : Bool)
  | asking
  | swapping
  | slot
  | place
  deriving DecidableEq

/-- What Python does with a responder. -/
inductive ResponderEvent
  | deliver (full : Bool)
  -- `Request.after_response`
  | keep
  | finish
  | finishOrKeep
  | drop

/-- A request on its way: its connection, who holds its counts, its responder and the calls under way on
it, and how often each count was taken and given back for it. -/
structure Admitted (γ ω : Type*) where
  connection : Option γ
  custody : Custody ω
  taken : Bool
  kept : Bool
  released : Bool
  gone : Bool
  calls : Multiset ReleaseCall
  placesTaken : ℕ
  placesGiven : ℕ
  slotsTaken : ℕ
  slotsGiven : ℕ

namespace Admitted

/-- A request that has not arrived. -/
def new : Admitted γ ω := ⟨none, .absent, false, false, false, false, 0, 0, 0, 0, 0⟩

/-- A place was taken on the connection, if there is one. -/
def enter (r : Admitted γ ω) (connection : Option γ) (custody : Custody ω) : Admitted γ ω :=
  { r with
    connection := connection
    custody := custody
    placesTaken := r.placesTaken + if connection.isSome then 1 else 0 }

/-- The place was given back, if there is one. -/
def leave (r : Admitted γ ω) : Admitted γ ω :=
  { r with placesGiven := r.placesGiven + if r.connection.isSome then 1 else 0 }

/-- A call on the responder, up to its first access of a shared flag.  A reply that `check` refuses is one
that was not made. -/
def call (r : Admitted γ ω) : ResponderEvent → Admitted γ ω
  | .deliver full =>
    -- a second reply is an error of the handler
    if r.taken then r else { r with taken := true, calls := .delivering full ::ₘ r.calls }
  | .keep => { r with kept := true }
  | .finish => { r with calls := .swapping ::ₘ r.calls }
  | .finishOrKeep => { r with calls := .asking ::ₘ r.calls }
  | .drop => { r with gone := true, calls := .swapping ::ₘ r.calls }

/-- The next access of a call that reads a flag. -/
def read (r : Admitted γ ω) (call : ReleaseCall) : Admitted γ ω :=
  let rest := r.calls.erase call
  match call with
  | .delivering full => { r with calls := if full && !r.kept then .swapping ::ₘ rest else rest }
  | .asking => { r with calls := if r.kept then rest else .swapping ::ₘ rest }
  | .swapping => { r with released := true, calls := if r.released then rest else .slot ::ₘ rest }
  | .slot | .place => r

end Admitted

/-! ## The system -/

/-- `MAX_STREAMS`. -/
def maxStreams : ℕ := 200

/-- The requests, the counts of the connections and of the workers. -/
structure Ledger (ι γ ω : Type*) where
  req : ι → Admitted γ ω
  load : γ → ℤ
  inflight : ω → ℤ

/-- One atomic operation on behalf of a request. -/
inductive LedgerAction (ι γ ω : Type*)
  | take (i : ι) (connection : Option γ)
  | undo (i : ι)
  | giveUp (i : ι)
  | handOver (i : ι)
  -- the handshake of a socket, which reserves nothing
  | upgrade (i : ι)
  | enqueue (i : ι) (worker : Option ω)
  | shed (i : ι)
  | pop (i : ι)
  | test (i : ι) (abandoned : Bool)
  | leave (i : ι)
  | respond (i : ι)
  | call (i : ι) (event : ResponderEvent)
  | advance (i : ι) (call : ReleaseCall)

namespace Ledger

/-- Nothing has arrived. -/
def new : Ledger ι γ ω := ⟨fun _ => .new, fun _ => 0, fun _ => 0⟩

section Set

variable [DecidableEq ι]

/-- Change one request. -/
def set (s : Ledger ι γ ω) (i : ι) (r : Admitted γ ω) : Ledger ι γ ω :=
  { s with req := Function.update s.req i r }

variable (s : Ledger ι γ ω) (i : ι) (r : Admitted γ ω)

@[simp] lemma set_req : (s.set i r).req = Function.update s.req i r := rfl
@[simp] lemma set_load : (s.set i r).load = s.load := rfl
@[simp] lemma set_inflight : (s.set i r).inflight = s.inflight := rfl

end Set

section Load

variable [DecidableEq γ]

/-- `fetch_add` or `fetch_sub` on the count of a connection, where there is one. -/
def addLoad (s : Ledger ι γ ω) (connection : Option γ) (d : ℤ) : Ledger ι γ ω :=
  match connection with
  | none => s
  | some c => { s with load := Function.update s.load c (s.load c + d) }

variable (s : Ledger ι γ ω) (connection : Option γ) (d : ℤ)

@[simp] lemma addLoad_req : (s.addLoad connection d).req = s.req := by cases connection <;> rfl
@[simp] lemma addLoad_inflight : (s.addLoad connection d).inflight = s.inflight := by
  cases connection <;> rfl

lemma addLoad_load (c : γ) :
    (s.addLoad connection d).load c = s.load c + if connection = some c then d else 0 := by
  cases connection with
  | none => simp [addLoad]
  | some b =>
    by_cases hb : b = c
    · simp [addLoad, hb]
    · simp [addLoad, hb, Function.update_of_ne (Ne.symm hb)]

end Load

section Inflight

variable [DecidableEq ω]

/-- `claim` and `release` of a worker's queue. -/
def addInflight (s : Ledger ι γ ω) (w : ω) (d : ℤ) : Ledger ι γ ω :=
  { s with inflight := Function.update s.inflight w (s.inflight w + d) }

variable (s : Ledger ι γ ω) (v : ω) (d : ℤ)

@[simp] lemma addInflight_req : (s.addInflight v d).req = s.req := rfl
@[simp] lemma addInflight_load : (s.addInflight v d).load = s.load := rfl

lemma addInflight_inflight (w : ω) :
    (s.addInflight v d).inflight w = s.inflight w + if v = w then d else 0 := by
  by_cases hv : v = w
  · simp [addInflight, hv]
  · simp [addInflight, hv, Function.update_of_ne (Ne.symm hv)]

end Inflight

variable [DecidableEq ι] [DecidableEq γ] [DecidableEq ω]

/-- Give the place of a request back, and change who holds its counts. -/
def giveBack (s : Ledger ι γ ω) (i : ι) (r : Admitted γ ω) : Ledger ι γ ω :=
  (s.addLoad r.connection (-1)).set i r.leave

/-- `take` finds the connection at its limit. -/
def full (s : Ledger ι γ ω) : Option γ → Prop
  | none => False
  | some c => (maxStreams : ℤ) ≤ s.load c

instance (s : Ledger ι γ ω) (connection : Option γ) : Decidable (s.full connection) :=
  match connection with
  | none => inferInstanceAs (Decidable False)
  | some c => inferInstanceAs (Decidable ((maxStreams : ℤ) ≤ s.load c))

/-- The step function. -/
def step (s : Ledger ι γ ω) : LedgerAction ι γ ω → Option (Ledger ι γ ω)
  | .take i connection =>
    if (s.req i).custody = .absent then
      some ((s.addLoad connection 1).set i
        ((s.req i).enter connection (if s.full connection then .undoing else .reserved))) else none
  | .undo i =>
    if (s.req i).custody = .undoing then
      some (s.giveBack i { s.req i with custody := .refused }) else none
  | .giveUp i =>
    if (s.req i).custody = .reserved then
      some (s.giveBack i { s.req i with custody := .answered }) else none
  | .handOver i =>
    if (s.req i).custody = .reserved then
      some (s.set i { s.req i with custody := .handed }) else none
  | .upgrade i =>
    if (s.req i).custody = .absent then
      some (s.set i ((s.req i).enter none .handed)) else none
  | .enqueue i worker =>
    if (s.req i).custody = .handed then
      some (s.set i { s.req i with custody := worker.elim .shedding .queued }) else none
  | .shed i =>
    if (s.req i).custody = .shedding then
      some (s.giveBack i { s.req i with custody := .shed }) else none
  | .pop i =>
    match (s.req i).custody with
    | .queued w => some (s.set i { s.req i with custody := .popped w })
    | _ => none
  | .test i abandoned =>
    match (s.req i).custody with
    | .popped w =>
      if abandoned then some (s.set i { s.req i with custody := .leaving })
      else some ((s.addInflight w 1).set i
        { s.req i with custody := .claimed w, slotsTaken := (s.req i).slotsTaken + 1 })
    | _ => none
  | .leave i =>
    if (s.req i).custody = .leaving then
      some (s.giveBack i { s.req i with custody := .dropped }) else none
  | .respond i =>
    match (s.req i).custody with
    | .claimed w => some (s.set i { s.req i with custody := .owned w })
    | _ => none
  | .call i event =>
    match (s.req i).custody, event with
    -- the last reference is gone, so no other call is under way
    | .owned _, .drop =>
      if (s.req i).gone = false ∧ (s.req i).calls = 0 then some (s.set i ((s.req i).call .drop))
      else none
    | .owned _, event =>
      if (s.req i).gone = false then some (s.set i ((s.req i).call event)) else none
    | _, _ => none
  | .advance i call =>
    match (s.req i).custody with
    | .owned w =>
      if call ∈ (s.req i).calls then
        let rest := (s.req i).calls.erase call
        match call with
        | .slot =>
          some ((s.addInflight w (-1)).set i
            { s.req i with calls := .place ::ₘ rest, slotsGiven := (s.req i).slotsGiven + 1 })
        | .place => some (s.giveBack i { s.req i with calls := rest })
        | call => some (s.set i ((s.req i).read call))
      else none
    | _ => none

end Ledger

/-! ## What one request holds -/

namespace Admitted

/-- Places on its connection that are not given back, were it to have one. -/
def places (r : Admitted γ ω) : ℕ :=
  match r.custody with
  | .absent | .refused | .answered | .shed | .dropped => 0
  | .owned _ => if r.released then r.calls.count .slot + r.calls.count .place else 1
  | _ => 1

/-- In-flight slots that are not given back. -/
def slots (r : Admitted γ ω) : ℕ :=
  match r.custody with
  | .claimed _ => 1
  | .owned _ => if r.released then r.calls.count .slot else 1
  | _ => 0

/-- The worker that claimed the request. -/
def worker (r : Admitted γ ω) : Option ω :=
  match r.custody with
  | .claimed w | .owned w => some w
  | _ => none

/-- The books of one request are in order. -/
structure Fair (r : Admitted γ ω) : Prop where
  absent : r.custody = .absent → r.connection = none
  idle : (∀ w, r.custody ≠ .owned w) → r.calls = 0 ∧ r.released = false ∧ r.gone = false
  unreleased : r.released = false → r.calls.count .slot = 0 ∧ r.calls.count .place = 0
  single : r.calls.count .slot + r.calls.count .place ≤ 1
  dropped : r.gone = true → r.released = false → .swapping ∈ r.calls
  placesTaken : r.placesTaken = if r.connection.isSome then 1 else 0
  placesGiven : r.placesGiven + (if r.connection.isSome then r.places else 0) = r.placesTaken
  slotsTaken : r.slotsTaken = if r.worker.isSome then 1 else 0
  slotsGiven : r.slotsGiven + r.slots = r.slotsTaken

theorem fair_new : (new : Admitted γ ω).Fair := by
  constructor <;> simp [new, worker, slots]

variable {r : Admitted γ ω}

/-- The request passes on without a responder, and no count changes. -/
lemma Fair.pass (h : r.Fair) {custody : Custody ω} (present : custody ≠ .absent)
    (before : ∀ w, r.custody ≠ .owned w)
    (places : places { r with custody := custody } = r.places)
    (slots : slots { r with custody := custody } = r.slots)
    (worker : worker { r with custody := custody } = r.worker) :
    Fair { r with custody := custody } where
  absent hcustody := absurd hcustody present
  idle _ := h.idle before
  unreleased := h.unreleased
  single := h.single
  dropped := h.dropped
  placesTaken := h.placesTaken
  placesGiven := by rw [places]; exact h.placesGiven
  slotsTaken := by rw [worker]; exact h.slotsTaken
  slotsGiven := by rw [slots]; exact h.slotsGiven

/-- The request arrives. -/
lemma Fair.enter (h : r.Fair) (fresh : r.custody = .absent) (connection : Option γ)
    {custody : Custody ω} (present : custody = .undoing ∨ custody = .reserved ∨ custody = .handed) :
    (r.enter connection custody).Fair := by
  obtain ⟨hcalls, hreleased, hgone⟩ := h.idle (by simp [fresh])
  have hconnection := h.absent fresh
  have hplaces := h.placesTaken
  have hgiven := h.placesGiven
  have hslots := h.slotsTaken
  have hback := h.slotsGiven
  simp only [hconnection, Option.isSome_none, Bool.false_eq_true, if_false, worker, slots, fresh]
    at hplaces hgiven hslots hback
  obtain rfl | rfl | rfl := present
  all_goals
    constructor <;> simp [Admitted.enter, hcalls, hreleased, hgone, worker, slots, places] <;> omega

/-- The place is given back by the holder of a request that no responder owns. -/
lemma Fair.leave (h : r.Fair) {custody : Custody ω} (before : ∀ w, r.custody ≠ .owned w)
    (held : r.places = 1) (unclaimed : r.worker = none)
    (after : custody = .refused ∨ custody = .answered ∨ custody = .shed ∨ custody = .dropped) :
    (Admitted.leave { r with custody := custody }).Fair := by
  obtain ⟨hcalls, hreleased, hgone⟩ := h.idle before
  have hplaces := h.placesTaken
  have hgiven := h.placesGiven
  have hslots := h.slotsTaken
  have hback := h.slotsGiven
  simp only [held, unclaimed, Option.isSome_none, Bool.false_eq_true, if_false] at hgiven hslots
  obtain rfl | rfl | rfl | rfl := after
  all_goals
    constructor <;> simp [Admitted.leave, hcalls, hreleased, hgone, worker, slots, places] <;>
      grind

/-- The drain claims the request. -/
lemma Fair.claim (h : r.Fair) {w : ω} (popped : r.custody = .popped w) :
    Fair { r with custody := .claimed w, slotsTaken := r.slotsTaken + 1 } := by
  obtain ⟨hcalls, hreleased, hgone⟩ := h.idle (by simp [popped])
  have hslots := h.slotsTaken
  have hback := h.slotsGiven
  have hgiven := h.placesGiven
  simp only [popped, worker, slots, places, Option.isSome_none, Bool.false_eq_true, if_false]
    at hslots hback hgiven
  constructor <;> simp [hcalls, hreleased, hgone, worker, slots, places, h.placesTaken] <;>
    grind [h.placesTaken]

section Owned

variable {w : ω}

/-- A responder changes, and holds what it held. -/
lemma Fair.respond (h : r.Fair) (owned : r.custody = .owned w) {taken kept released gone : Bool}
    {calls : Multiset ReleaseCall}
    (unreleased : released = false → calls.count .slot = 0 ∧ calls.count .place = 0)
    (slot : (if released then calls.count .slot else 1) =
      if r.released then r.calls.count .slot else 1)
    (place : (if released then calls.count .place else 0) =
      if r.released then r.calls.count .place else 0)
    (dropped : gone = true → released = false → .swapping ∈ calls) :
    Fair { r with taken := taken, kept := kept, released := released, gone := gone, calls := calls } where
  absent := h.absent
  idle hcustody := absurd owned (hcustody w)
  unreleased := unreleased
  single := by
    have hsingle := h.single
    have hnone := h.unreleased
    grind
  dropped := dropped
  placesTaken := h.placesTaken
  placesGiven := by
    have hgiven := h.placesGiven
    simp only [places, owned] at hgiven ⊢
    grind
  slotsTaken := h.slotsTaken
  slotsGiven := by
    have hback := h.slotsGiven
    simp only [slots, owned] at hback ⊢
    rw [slot]
    exact hback

/-- A call on the responder begins. -/
lemma Fair.push (h : r.Fair) (owned : r.custody = .owned w) {taken gone : Bool} {call : ReleaseCall}
    (plain : call ≠ .slot ∧ call ≠ .place) (ends : gone = r.gone ∨ call = .swapping) :
    Fair { r with taken := taken, gone := gone, calls := call ::ₘ r.calls } := by
  have hslot : (call ::ₘ r.calls).count .slot = r.calls.count .slot :=
    Multiset.count_cons_of_ne plain.1.symm _
  have hplace : (call ::ₘ r.calls).count .place = r.calls.count .place :=
    Multiset.count_cons_of_ne plain.2.symm _
  refine h.respond owned ?_ (by rw [hslot]) (by rw [hplace]) ?_
  · rw [hslot, hplace]
    exact h.unreleased
  · intro hgone hreleased
    obtain hsame | rfl := ends
    · exact Multiset.mem_cons_of_mem (h.dropped (hsame.symm.trans hgone) hreleased)
    · exact Multiset.mem_cons_self _ _

lemma Fair.call (h : r.Fair) (owned : r.custody = .owned w) (event : ResponderEvent) :
    (r.call event).Fair := by
  cases event with
  | deliver full =>
    simp only [Admitted.call]
    split
    · exact h
    · exact h.push owned (by simp) (.inl rfl)
  | keep => exact h.respond owned h.unreleased rfl rfl h.dropped
  | finish => exact h.push owned (by simp) (.inl rfl)
  | finishOrKeep => exact h.push owned (by simp) (.inl rfl)
  | drop => exact h.push owned (by simp) (.inr rfl)

/-- A call that is not at the swap goes on, to the swap or to its end. -/
lemma Fair.proceed (h : r.Fair) (owned : r.custody = .owned w) (call : ReleaseCall)
    (plain : call ≠ .slot ∧ call ≠ .place ∧ call ≠ .swapping) {calls : Multiset ReleaseCall}
    (next : calls = r.calls.erase call ∨ calls = .swapping ::ₘ r.calls.erase call) :
    Fair { r with calls := calls } := by
  have hslot : calls.count .slot = r.calls.count .slot := by
    obtain rfl | rfl := next <;> simp [Multiset.count_erase_of_ne plain.1.symm]
  have hplace : calls.count .place = r.calls.count .place := by
    obtain rfl | rfl := next <;> simp [Multiset.count_erase_of_ne plain.2.1.symm]
  refine h.respond owned ?_ (by rw [hslot]) (by rw [hplace]) ?_
  · rw [hslot, hplace]
    exact h.unreleased
  · intro hgone hreleased
    have hmem := (Multiset.mem_erase_of_ne plain.2.2.symm).mpr (h.dropped hgone hreleased)
    obtain rfl | rfl := next
    · exact hmem
    · exact Multiset.mem_cons_of_mem hmem

/-- The swap gives the release to one call, and to no other. -/
lemma Fair.swap (h : r.Fair) (owned : r.custody = .owned w) :
    Fair { r with
      released := true
      calls := if r.released then r.calls.erase .swapping else .slot ::ₘ r.calls.erase .swapping } := by
  refine h.respond owned nofun ?_ ?_ nofun
  · cases hreleased : r.released with
    | true => simp [Multiset.count_erase_of_ne]
    | false => simpa [Multiset.count_erase_of_ne] using (h.unreleased hreleased).1
  · cases hreleased : r.released with
    | true => simp [Multiset.count_erase_of_ne]
    | false => simpa [Multiset.count_erase_of_ne] using (h.unreleased hreleased).2

lemma Fair.read (h : r.Fair) (owned : r.custody = .owned w) (call : ReleaseCall) :
    (r.read call).Fair := by
  cases call with
  | delivering full =>
    refine h.proceed owned (.delivering full) (by simp) ?_
    split
    · exact .inr rfl
    · exact .inl rfl
  | asking =>
    refine h.proceed owned .asking (by simp) ?_
    split
    · exact .inl rfl
    · exact .inr rfl
  | swapping => exact h.swap owned
  | slot => exact h
  | place => exact h

omit w in
/-- A call that gives a count back has won the swap. -/
lemma Fair.released_of_call (h : r.Fair) (mem : .slot ∈ r.calls ∨ .place ∈ r.calls) :
    r.released = true := by
  by_contra hfalse
  obtain ⟨hslot, hplace⟩ := h.unreleased (by simpa using hfalse)
  obtain hmem | hmem := mem
  · exact Multiset.count_eq_zero.mp hslot hmem
  · exact Multiset.count_eq_zero.mp hplace hmem

/-- The slot is given back, and the place is next. -/
lemma Fair.giveSlot (h : r.Fair) (owned : r.custody = .owned w) (mem : .slot ∈ r.calls) :
    Fair { r with
      calls := .place ::ₘ r.calls.erase .slot
      slotsGiven := r.slotsGiven + 1 } := by
  have hpos := Multiset.count_pos.mpr mem
  have hsingle := h.single
  have hreleased := h.released_of_call (.inl mem)
  have hslot : (ReleaseCall.place ::ₘ r.calls.erase .slot).count .slot = 0 := by
    rw [Multiset.count_cons_of_ne (by simp), Multiset.count_erase_self]
    omega
  have hplace : (ReleaseCall.place ::ₘ r.calls.erase .slot).count .place = 1 := by
    rw [Multiset.count_cons_self, Multiset.count_erase_of_ne (by simp)]
    omega
  have hgiven := h.placesGiven
  have hback := h.slotsGiven
  simp only [places, slots, owned, hreleased, if_true] at hgiven hback
  refine ⟨h.absent, fun hcustody => absurd owned (hcustody w), ?_, ?_, ?_, h.placesTaken, ?_,
    h.slotsTaken, ?_⟩
  · simp [hreleased]
  · simp only [hslot, hplace]
    omega
  · simp [hreleased]
  · simp only [places, owned, hreleased, if_true, hslot, hplace]
    rw [← hgiven]
    congr 2
    omega
  · simp only [slots, owned, hreleased, if_true, hslot]
    omega

/-- The place is given back, and the call is over. -/
lemma Fair.givePlace (h : r.Fair) (owned : r.custody = .owned w) (mem : .place ∈ r.calls) :
    (Admitted.leave { r with calls := r.calls.erase .place }).Fair := by
  have hpos := Multiset.count_pos.mpr mem
  have hsingle := h.single
  have hreleased := h.released_of_call (.inr mem)
  have hslot : (r.calls.erase .place).count .slot = r.calls.count .slot :=
    Multiset.count_erase_of_ne (by simp) _
  have hplace : (r.calls.erase .place).count .place = 0 := by
    rw [Multiset.count_erase_self]
    omega
  have hgiven := h.placesGiven
  have hback := h.slotsGiven
  simp only [places, slots, owned, hreleased, if_true] at hgiven hback
  refine ⟨h.absent, fun hcustody => absurd owned (hcustody w), ?_, ?_, ?_, h.placesTaken, ?_,
    h.slotsTaken, ?_⟩
  · simp [Admitted.leave, hreleased]
  · simp only [Admitted.leave, hslot, hplace]
    omega
  · simp [Admitted.leave, hreleased]
  · simp only [Admitted.leave, places, owned, hreleased, if_true, hslot, hplace]
    split at hgiven
    case isTrue hsome =>
      simp only [hsome, if_true]
      omega
    case isFalse hnone => simpa [hnone] using hgiven
  · simp only [Admitted.leave, slots, owned, hreleased, if_true, hslot]
    exact hback

end Owned

/-- Nothing is taken or given back. -/
structure SameBooks (r q : Admitted γ ω) : Prop where
  connection : q.connection = r.connection
  placesTaken : q.placesTaken = r.placesTaken
  placesGiven : q.placesGiven = r.placesGiven
  worker : q.worker = r.worker
  slotsTaken : q.slotsTaken = r.slotsTaken
  slotsGiven : q.slotsGiven = r.slotsGiven

lemma sameBooks_custody {custody : Custody ω}
    (worker : worker { r with custody := custody } = r.worker) :
    r.SameBooks { r with custody := custody } :=
  ⟨rfl, rfl, rfl, worker, rfl, rfl⟩

lemma sameBooks_call (event : ResponderEvent) : r.SameBooks (r.call event) := by
  cases event with
  | deliver full =>
    simp only [call]
    split <;> exact ⟨rfl, rfl, rfl, rfl, rfl, rfl⟩
  | keep | finish | finishOrKeep | drop => exact ⟨rfl, rfl, rfl, rfl, rfl, rfl⟩

lemma sameBooks_read (call : ReleaseCall) : r.SameBooks (r.read call) := by
  cases call <;> exact ⟨rfl, rfl, rfl, rfl, rfl, rfl⟩

end Admitted

/-- The place of the request on connection `c` is held by a reservation. -/
def Admitted.Reserving (r : Admitted γ ω) (c : γ) : Prop :=
  r.connection = some c ∧ r.custody = .reserved

/-- The `fetch_add` of its `take` is to be undone. -/
def Admitted.Undoing (r : Admitted γ ω) (c : γ) : Prop :=
  r.connection = some c ∧ r.custody = .undoing

/-- The request is queued or running for connection `c`, and its place there not given back. -/
def Admitted.InService (r : Admitted γ ω) (c : γ) : Prop :=
  r.connection = some c ∧
    match r.custody with
    | .handed | .shedding | .queued _ | .popped _ | .leaving | .claimed _ => True
    | .owned _ => r.released = false ∨ .slot ∈ r.calls ∨ .place ∈ r.calls
    | _ => False

/-- Worker `w` claimed the request, and its slot there is not released. -/
def Admitted.Unreleased (r : Admitted γ ω) (w : ω) : Prop :=
  r.custody = .claimed w ∨ r.custody = .owned w ∧ (r.released = false ∨ .slot ∈ r.calls)

/-- Nothing more happens to the request. -/
def Admitted.Over (r : Admitted γ ω) : Prop :=
  match r.custody with
  | .refused | .answered | .shed | .dropped => True
  | .owned _ => r.gone = true ∧ r.calls = 0
  | _ => False

/-! ## The counts -/

section Balance

variable [Fintype ι] [DecidableEq γ] [DecidableEq ω]

/-- What a request adds to the count of a connection. -/
def placeWeight (c : γ) (r : Admitted γ ω) : ℕ := if r.connection = some c then r.places else 0

/-- The part of it that is past `take`. -/
def pastWeight (c : γ) (r : Admitted γ ω) : ℕ :=
  if r.custody = .undoing then 0 else placeWeight c r

/-- What a request adds to the in-flight count of a worker. -/
def slotWeight (w : ω) (r : Admitted γ ω) : ℕ := if r.worker = some w then r.slots else 0

section Weights

variable {r q : Admitted γ ω} (h : r.Fair) (fair : q.Fair)
include h fair

omit [DecidableEq ω] in
lemma Admitted.Fair.placeWeight_eq (connection : q.connection = r.connection)
    (taken : q.placesTaken = r.placesTaken) (given : q.placesGiven = r.placesGiven) (c : γ) :
    placeWeight c q = placeWeight c r := by
  have hgiven := h.placesGiven
  have hgiven' := fair.placesGiven
  rw [connection, taken, given] at hgiven'
  unfold placeWeight
  rw [connection]
  split
  case isTrue hsome =>
    simp only [hsome, Option.isSome_some, if_true] at hgiven hgiven'
    omega
  case isFalse => rfl

omit [DecidableEq γ] in
lemma Admitted.Fair.slotWeight_eq (worker : q.worker = r.worker)
    (taken : q.slotsTaken = r.slotsTaken) (given : q.slotsGiven = r.slotsGiven) (w : ω) :
    slotWeight w q = slotWeight w r := by
  have hback := h.slotsGiven
  have hback' := fair.slotsGiven
  rw [taken, given] at hback'
  unfold slotWeight
  rw [worker]
  split
  · omega
  · rfl

end Weights

namespace Ledger

/-- The books of every request are in order, the counts are their sums, and no connection is over its
limit. -/
structure Balanced (s : Ledger ι γ ω) : Prop where
  fair : ∀ i, (s.req i).Fair
  load : ∀ c, s.load c = tally (fun _ => placeWeight c) s.req
  inflight : ∀ w, s.inflight w = tally (fun _ => slotWeight w) s.req
  limit : ∀ c, tally (fun _ => pastWeight c) s.req ≤ maxStreams

theorem balanced_new : (new : Ledger ι γ ω).Balanced where
  fair _ := Admitted.fair_new
  load c := by simp [tally, new, placeWeight, Admitted.new]
  inflight w := by simp [tally, new, slotWeight, Admitted.new, Admitted.worker]
  limit c := by simp [tally, new, pastWeight, placeWeight, Admitted.new]

variable [DecidableEq ι] {s t : Ledger ι γ ω}

lemma pastWeight_le (c : γ) (r : Admitted γ ω) : pastWeight c r ≤ placeWeight c r := by
  unfold pastWeight
  split
  · exact Nat.zero_le _
  · exact le_rfl

/-- A step on one request: the counts change by what it holds more or less, and a place past `take` is
new only where the count was below the limit. -/
lemma Balanced.move (h : s.Balanced) (i : ι) (r : Admitted γ ω)
    (req : t.req = Function.update s.req i r) (fair : r.Fair)
    (load : ∀ c, t.load c + placeWeight c (s.req i) = s.load c + placeWeight c r)
    (inflight : ∀ w, t.inflight w + slotWeight w (s.req i) = s.inflight w + slotWeight w r)
    (limit : ∀ c, pastWeight c r ≤ pastWeight c (s.req i) ∨
      s.load c < maxStreams ∧ pastWeight c r ≤ 1) : t.Balanced := by
  constructor
  · intro j
    rw [req]
    by_cases hj : j = i
    · rw [hj, Function.update_self]
      exact fair
    · rw [Function.update_of_ne hj]
      exact h.fair j
  · intro c
    have hsum := tally_update (fun _ => placeWeight c) s.req i r
    have hload := load c
    rw [h.load c] at hload
    rw [req]
    omega
  · intro w
    have hsum := tally_update (fun _ => slotWeight w) s.req i r
    have hinflight := inflight w
    rw [h.inflight w] at hinflight
    rw [req]
    omega
  · intro c
    have hsum := tally_update (fun _ => pastWeight c) s.req i r
    have hlimit := h.limit c
    rw [req]
    obtain hle | ⟨hbelow, hone⟩ := limit c
    · omega
    · have hpast : tally (fun _ => pastWeight c) s.req ≤ tally (fun _ => placeWeight c) s.req :=
        Finset.sum_le_sum fun j _ => pastWeight_le c (s.req j)
      rw [h.load c] at hbelow
      omega

/-- Requests with the same books hold the same. -/
lemma Balanced.same (h : s.Balanced) (i : ι) (r : Admitted γ ω) (fair : r.Fair)
    (same : (s.req i).SameBooks r) (past : (s.req i).custody ≠ .undoing) :
    (s.set i r).Balanced := by
  have hplace : ∀ c, placeWeight c r = placeWeight c (s.req i) := fun c =>
    (h.fair i).placeWeight_eq fair same.connection same.placesTaken same.placesGiven c
  have hslot : ∀ w, slotWeight w r = slotWeight w (s.req i) := fun w =>
    (h.fair i).slotWeight_eq fair same.worker same.slotsTaken same.slotsGiven w
  refine h.move i r rfl fair (fun c => by rw [hplace]; rfl) (fun w => by rw [hslot]; rfl) fun c => ?_
  have hpast : pastWeight c (s.req i) = placeWeight c (s.req i) := if_neg past
  rw [hpast, ← hplace]
  exact .inl (pastWeight_le c r)

omit [DecidableEq ι] [Fintype ι] [DecidableEq ω] in
/-- A request that has given its place back held one and holds none. -/
lemma placeWeight_leave {r q : Admitted γ ω} (h : r.Fair) (fair : q.leave.Fair)
    (same : r.SameBooks q) (c : γ) :
    placeWeight c q.leave = 0 ∧ placeWeight c r = if q.connection = some c then 1 else 0 := by
  have hgiven := h.placesGiven
  have htaken := h.placesTaken
  have hgiven' := fair.placesGiven
  have hconnection : q.leave.connection = q.connection := rfl
  have hleft : q.leave.placesGiven = q.placesGiven + if q.connection.isSome then 1 else 0 := rfl
  have hkept : q.leave.placesTaken = q.placesTaken := rfl
  rw [hconnection, hleft, hkept, same.connection, same.placesTaken, same.placesGiven] at hgiven'
  unfold placeWeight
  rw [hconnection, same.connection]
  split
  case isTrue hsome =>
    simp only [hsome, Option.isSome_some, if_true] at hgiven hgiven' htaken
    omega
  case isFalse => exact ⟨rfl, rfl⟩

/-- A place is given back. -/
lemma Balanced.giveBack (h : s.Balanced) (i : ι) (r : Admitted γ ω) (fair : r.leave.Fair)
    (same : (s.req i).SameBooks r) : (s.giveBack i r).Balanced := by
  have hplace := placeWeight_leave (h.fair i) fair same
  have hslot : ∀ w, slotWeight w r.leave = slotWeight w (s.req i) := fun w =>
    (h.fair i).slotWeight_eq fair same.worker same.slotsTaken same.slotsGiven w
  refine h.move i r.leave ?_ fair (fun c => ?_) (fun w => ?_) fun c => ?_
  · simp [Ledger.giveBack]
  · rw [(hplace c).1, (hplace c).2]
    simp only [Ledger.giveBack, set_load, addLoad_load]
    split <;> simp
  · rw [hslot]
    simp [Ledger.giveBack]
  · have hzero := pastWeight_le c r.leave
    rw [(hplace c).1] at hzero
    exact .inl (hzero.trans (Nat.zero_le _))

/-- `take` raises the count, and lets the request past only below the limit. -/
lemma Balanced.take (h : s.Balanced) (i : ι) (connection : Option γ)
    (fresh : (s.req i).custody = .absent) {custody : Custody ω}
    (outcome : custody = .undoing ∨ custody = .reserved ∧ ¬ s.full connection) :
    ((s.addLoad connection 1).set i ((s.req i).enter connection custody)).Balanced := by
  have hentered : custody = .undoing ∨ custody = .reserved := outcome.imp id And.left
  have hold : ∀ c, placeWeight c (s.req i) = 0 := fun c => by
    simp [placeWeight, Admitted.places, fresh]
  have hnew : ∀ c, placeWeight c ((s.req i).enter connection custody) =
      if connection = some c then 1 else 0 := by
    intro c
    obtain rfl | rfl := hentered <;> rfl
  have hslots : ∀ w, slotWeight w ((s.req i).enter connection custody) = 0 ∧
      slotWeight w (s.req i) = 0 := by
    obtain rfl | rfl := hentered <;>
      simp [slotWeight, Admitted.worker, Admitted.enter, fresh]
  have hfair : ((s.req i).enter connection custody).Fair :=
    (h.fair i).enter fresh connection (hentered.imp id .inl)
  refine h.move i _ (by simp) hfair (fun c => ?_) (fun w => ?_) fun c => ?_
  · rw [hold, hnew, set_load, addLoad_load]
    split <;> simp
  · rw [(hslots w).1, (hslots w).2]
    simp
  · obtain rfl | ⟨rfl, hroom⟩ := outcome
    · exact .inl (by simp [pastWeight, Admitted.enter])
    · have hle := pastWeight_le c ((s.req i).enter connection .reserved)
      rw [hnew] at hle
      by_cases hc : connection = some c
      · subst hc
        exact .inr ⟨not_le.mp hroom, by simpa using hle⟩
      · rw [if_neg hc] at hle
        exact .inl (hle.trans (Nat.zero_le _))

/-- The drain claims a request. -/
lemma Balanced.claim (h : s.Balanced) (i : ι) {w : ω} (popped : (s.req i).custody = .popped w) :
    ((s.addInflight w 1).set i
      { s.req i with custody := .claimed w, slotsTaken := (s.req i).slotsTaken + 1 }).Balanced := by
  refine h.move i _ (by simp) ((h.fair i).claim popped) (fun c => ?_) (fun v => ?_) fun c => ?_
  · simp [placeWeight, Admitted.places, popped]
  · rw [set_inflight, addInflight_inflight]
    simp only [slotWeight, Admitted.worker, Admitted.slots, popped, Option.some.injEq]
    split <;> simp
  · exact .inl (by simp [pastWeight, placeWeight, Admitted.places, popped])

/-- A responder gives its slot back. -/
lemma Balanced.giveSlot (h : s.Balanced) (i : ι) {w : ω} (owned : (s.req i).custody = .owned w)
    (mem : .slot ∈ (s.req i).calls) :
    ((s.addInflight w (-1)).set i
      { s.req i with
        calls := .place ::ₘ (s.req i).calls.erase .slot
        slotsGiven := (s.req i).slotsGiven + 1 }).Balanced := by
  have hfair := (h.fair i).giveSlot owned mem
  have hplace := (h.fair i).placeWeight_eq hfair rfl rfl rfl
  refine h.move i _ (by simp) hfair (fun c => ?_) (fun v => ?_) fun c => ?_
  · rw [hplace]
    rfl
  · have hback := (h.fair i).slotsGiven
    have hback' := hfair.slotsGiven
    rw [set_inflight, addInflight_inflight]
    simp only [slotWeight, Admitted.worker, owned, Option.some.injEq]
    split
    · simp only [owned] at hback'
      omega
    · simp
  · have hpast : pastWeight c (s.req i) = placeWeight c (s.req i) := if_neg (by simp [owned])
    rw [hpast, ← hplace]
    exact .inl (pastWeight_le c _)

/-- The holder of a request that no responder owns gives its place back. -/
lemma Balanced.release (h : s.Balanced) (i : ι) {before after : Custody ω}
    (custody : (s.req i).custody = before) (unowned : ∀ w, before ≠ .owned w)
    (held : (s.req i).places = 1) (unclaimed : (s.req i).worker = none)
    (final : after = .refused ∨ after = .answered ∨ after = .shed ∨ after = .dropped) :
    (s.giveBack i { s.req i with custody := after }).Balanced := by
  refine h.giveBack i _ ((h.fair i).leave (custody ▸ unowned) held unclaimed final) ?_
  refine Admitted.sameBooks_custody ?_
  rw [unclaimed]
  obtain rfl | rfl | rfl | rfl := final <;> rfl

/-- A request passes on, and no count changes. -/
lemma Balanced.pass (h : s.Balanced) (i : ι) {before after : Custody ω}
    (custody : (s.req i).custody = before) (unowned : ∀ w, before ≠ .owned w)
    (past : before ≠ .undoing) (present : after ≠ .absent)
    (places : Admitted.places { s.req i with custody := after } = (s.req i).places)
    (slots : Admitted.slots { s.req i with custody := after } = (s.req i).slots)
    (worker : Admitted.worker { s.req i with custody := after } = (s.req i).worker) :
    (s.set i { s.req i with custody := after }).Balanced :=
  h.same i _ ((h.fair i).pass present (custody ▸ unowned) places slots worker)
    (Admitted.sameBooks_custody worker) (custody ▸ past)

/-- Every step keeps the books. -/
theorem Balanced.step (h : s.Balanced) {a : LedgerAction ι γ ω} (taken : s.step a = some t) :
    t.Balanced := by
  cases a with
  | take i connection =>
    obtain ⟨hfresh, rfl⟩ := of_guard taken
    refine h.take i connection hfresh ?_
    split
    case isTrue => exact .inl rfl
    case isFalse hroom => exact .inr ⟨rfl, hroom⟩
  | undo i =>
    obtain ⟨hcustody, rfl⟩ := of_guard taken
    exact h.release i hcustody (by simp) (by simp [Admitted.places, hcustody])
      (by simp [Admitted.worker, hcustody]) (.inl rfl)
  | giveUp i =>
    obtain ⟨hcustody, rfl⟩ := of_guard taken
    exact h.release i hcustody (by simp) (by simp [Admitted.places, hcustody])
      (by simp [Admitted.worker, hcustody]) (.inr (.inl rfl))
  | handOver i =>
    obtain ⟨hcustody, rfl⟩ := of_guard taken
    exact h.pass i hcustody (by simp) (by simp) (by simp) (by simp [Admitted.places, hcustody])
      (by simp [Admitted.slots, hcustody]) (by simp [Admitted.worker, hcustody])
  | upgrade i =>
    obtain ⟨hcustody, rfl⟩ := of_guard taken
    have hsame : (s.req i).SameBooks ((s.req i).enter none .handed) :=
      ⟨((h.fair i).absent hcustody).symm, rfl, rfl, by simp [Admitted.enter, Admitted.worker, hcustody],
        rfl, rfl⟩
    exact h.same i _ ((h.fair i).enter hcustody none (.inr (.inr rfl))) hsame (by simp [hcustody])
  | enqueue i worker =>
    obtain ⟨hcustody, rfl⟩ := of_guard taken
    cases worker with
    | none =>
      exact h.pass i hcustody (by simp) (by simp) (by simp) (by simp [Admitted.places, hcustody])
        (by simp [Admitted.slots, hcustody]) (by simp [Admitted.worker, hcustody])
    | some w =>
      exact h.pass i hcustody (by simp) (by simp) (by simp) (by simp [Admitted.places, hcustody])
        (by simp [Admitted.slots, hcustody]) (by simp [Admitted.worker, hcustody])
  | shed i =>
    obtain ⟨hcustody, rfl⟩ := of_guard taken
    exact h.release i hcustody (by simp) (by simp [Admitted.places, hcustody])
      (by simp [Admitted.worker, hcustody]) (.inr (.inr (.inl rfl)))
  | pop i =>
    simp only [Ledger.step] at taken
    split at taken
    case h_1 w hcustody =>
      cases taken
      exact h.pass i hcustody (by simp) (by simp) (by simp) (by simp [Admitted.places, hcustody])
        (by simp [Admitted.slots, hcustody]) (by simp [Admitted.worker, hcustody])
    case h_2 => cases taken
  | test i abandoned =>
    simp only [Ledger.step] at taken
    split at taken
    case h_1 w hcustody =>
      split at taken
      · cases taken
        exact h.pass i hcustody (by simp) (by simp) (by simp) (by simp [Admitted.places, hcustody])
          (by simp [Admitted.slots, hcustody]) (by simp [Admitted.worker, hcustody])
      · cases taken
        exact h.claim i hcustody
    case h_2 => cases taken
  | leave i =>
    obtain ⟨hcustody, rfl⟩ := of_guard taken
    exact h.release i hcustody (by simp) (by simp [Admitted.places, hcustody])
      (by simp [Admitted.worker, hcustody]) (.inr (.inr (.inr rfl)))
  | respond i =>
    simp only [Ledger.step] at taken
    split at taken
    case h_1 w hcustody =>
      cases taken
      have hreleased := ((h.fair i).idle (by simp [hcustody])).2.1
      exact h.pass i hcustody (by simp) (by simp) (by simp)
        (by simp [Admitted.places, hcustody, hreleased])
        (by simp [Admitted.slots, hcustody, hreleased]) (by simp [Admitted.worker, hcustody])
    case h_2 => cases taken
  | call i event =>
    simp only [Ledger.step] at taken
    split at taken
    case h_1 w hcustody =>
      obtain ⟨-, rfl⟩ := of_guard taken
      exact h.same i _ ((h.fair i).call hcustody .drop) (Admitted.sameBooks_call _) (by simp [hcustody])
    case h_2 _ w hcustody _ =>
      obtain ⟨-, rfl⟩ := of_guard taken
      exact h.same i _ ((h.fair i).call hcustody _) (Admitted.sameBooks_call _) (by simp [hcustody])
    case h_3 => cases taken
  | advance i call =>
    simp only [Ledger.step] at taken
    split at taken
    case h_1 w hcustody =>
      obtain ⟨hmem, taken⟩ := Option.ite_none_right_eq_some.mp taken
      split at taken
      · cases taken
        exact h.giveSlot i hcustody hmem
      · cases taken
        exact h.giveBack i _ ((h.fair i).givePlace hcustody hmem) ⟨rfl, rfl, rfl, rfl, rfl, rfl⟩
      · cases taken
        exact h.same i _ ((h.fair i).read hcustody call) (Admitted.sameBooks_read _)
          (by simp [hcustody])
    case h_2 => cases taken

/-- So does every run. -/
theorem balanced_run (run : Reachable step new s) : s.Balanced :=
  Reachable.invariant run balanced_new fun _ _ _ h taken => h.step taken

end Ledger

end Balance

section Exact

variable [Fintype ι] [DecidableEq ι] [DecidableEq γ] [DecidableEq ω] {s : Ledger ι γ ω}
variable {r : Admitted γ ω}

namespace Admitted

omit [DecidableEq ω] in
/-- A request weighs one on the connection where it holds a place, and nothing elsewhere. -/
lemma Fair.placeWeight_cases (h : r.Fair) (c : γ) :
    (r.Reserving c ∨ r.InService c ∨ r.Undoing c) ∧ placeWeight c r = 1 ∨
      ¬ (r.Reserving c ∨ r.InService c ∨ r.Undoing c) ∧ placeWeight c r = 0 := by
  by_cases hc : r.connection = some c
  · unfold Reserving InService Undoing placeWeight places
    simp only [hc, if_true, true_and]
    cases hcustody : r.custody with
    | owned w =>
      have hsingle := h.single
      cases hreleased : r.released with
      | false => simp
      | true =>
        simp only [← Multiset.count_pos, reduceCtorEq, Bool.true_eq_false, if_true, false_or, or_false]
        omega
    | _ => simp
  · exact .inr ⟨by simp [Reserving, InService, Undoing, hc], if_neg hc⟩

/-- So it is for the places past `take`. -/
lemma Fair.pastWeight_cases (h : r.Fair) (c : γ) :
    (r.Reserving c ∨ r.InService c) ∧ pastWeight c r = 1 ∨
      ¬ (r.Reserving c ∨ r.InService c) ∧ pastWeight c r = 0 := by
  unfold pastWeight
  split
  case isTrue hundoing => exact .inr ⟨by simp [Reserving, InService, hundoing], rfl⟩
  case isFalse hpast =>
    have hcases := h.placeWeight_cases c
    simpa only [Undoing, hpast, and_false, or_false] using hcases

omit [DecidableEq γ] in
/-- And for the slots of a worker. -/
lemma Fair.slotWeight_cases (h : r.Fair) (w : ω) :
    r.Unreleased w ∧ slotWeight w r = 1 ∨ ¬ r.Unreleased w ∧ slotWeight w r = 0 := by
  unfold Unreleased slotWeight worker slots
  cases hcustody : r.custody with
  | claimed v => by_cases hv : v = w <;> simp [hv]
  | owned v =>
    have hsingle := h.single
    by_cases hv : v = w
    · cases hreleased : r.released with
      | false => simp [hv]
      | true =>
        simp only [← Multiset.count_pos, reduceCtorEq, Bool.true_eq_false, if_true, false_or, hv,
          true_and]
        omega
    · simp [hv]
  | _ => simp

omit [DecidableEq γ] [DecidableEq ω] in
/-- A request that is over holds nothing. -/
lemma Fair.over (h : r.Fair) (hover : r.Over) : r.places = 0 ∧ r.slots = 0 := by
  unfold Over at hover
  unfold places slots
  cases hcustody : r.custody with
  | owned w =>
    simp only [hcustody] at hover
    have hreleased : r.released = true := by
      by_contra hfalse
      have hmem := h.dropped hover.1 (by simpa using hfalse)
      simp [hover.2] at hmem
    simp [hreleased, hover.2]
  | _ => simp_all

end Admitted

/-- **The accounts are exact.**  In every interleaving, a worker's in-flight count is the number of
requests it claimed and that are not released, the count of a connection is the number of reservations
held, of requests queued or running for it and of `take`s about to undo their `fetch_add`; no request
takes a count more than once or gives back more than it took, and one that is over has given back what it
took; and at most `MAX_STREAMS` requests of a connection are past `take`. -/
theorem accounts_exact (run : Reachable Ledger.step Ledger.new s) :
    (∀ w, s.inflight w = {i | (s.req i).Unreleased w}.ncard ∧ 0 ≤ s.inflight w) ∧
    (∀ c, s.load c = {i | (s.req i).Reserving c}.ncard + {i | (s.req i).InService c}.ncard +
      {i | (s.req i).Undoing c}.ncard ∧ 0 ≤ s.load c) ∧
    (∀ i, (s.req i).placesTaken = (if (s.req i).connection.isSome then 1 else 0) ∧
      (s.req i).slotsTaken = (if (s.req i).worker.isSome then 1 else 0) ∧
      (s.req i).placesGiven ≤ (s.req i).placesTaken ∧ (s.req i).slotsGiven ≤ (s.req i).slotsTaken ∧
      ((s.req i).Over → (s.req i).placesGiven = (s.req i).placesTaken ∧
        (s.req i).slotsGiven = (s.req i).slotsTaken)) ∧
    (∀ c, {i | (s.req i).Reserving c ∨ (s.req i).InService c}.ncard ≤ maxStreams) := by
  have hbalanced := Ledger.balanced_run run
  refine ⟨fun w => ?_, fun c => ?_, fun i => ?_, fun c => ?_⟩
  · have hcount := tally_eq_ncard (w := fun _ => slotWeight w) _
      fun i => (hbalanced.fair i).slotWeight_cases w
    rw [hbalanced.inflight w, hcount]
    exact ⟨rfl, Int.natCast_nonneg _⟩
  · have hcount := tally_eq_ncard (w := fun _ => placeWeight c) _
      fun i => (hbalanced.fair i).placeWeight_cases c
    have hpast : Disjoint {i | (s.req i).Reserving c}
        ({i | (s.req i).InService c} ∪ {i | (s.req i).Undoing c}) := by
      refine Set.disjoint_left.mpr fun i hreserving hother => ?_
      obtain hservice | hundoing := hother
      · simpa [hreserving.2] using hservice.2
      · cases hreserving.2.symm.trans hundoing.2
    have hservice : Disjoint {i | (s.req i).InService c} {i | (s.req i).Undoing c} := by
      refine Set.disjoint_left.mpr fun i hservice hundoing => ?_
      simpa [hundoing.2] using hservice.2
    rw [Set.ofPred_or, Set.ofPred_or, Set.ncard_union_eq hpast, Set.ncard_union_eq hservice] at hcount
    rw [hbalanced.load c, hcount]
    push_cast
    omega
  · have hfair := hbalanced.fair i
    have hplaces := hfair.placesGiven
    have hslots := hfair.slotsGiven
    refine ⟨hfair.placesTaken, hfair.slotsTaken, by omega, by omega, fun hover => ?_⟩
    obtain ⟨hplace, hslot⟩ := hfair.over hover
    rw [hplace] at hplaces
    simp only [ite_self, Nat.add_zero] at hplaces
    exact ⟨hplaces, by omega⟩
  · have hcount := tally_eq_ncard (w := fun _ => pastWeight c) _
      fun i => (hbalanced.fair i).pastWeight_cases c
    rw [← hcount]
    exact hbalanced.limit c

end Exact

/-- Two requests of one connection: the first is answered by a stream that is finished and dropped, the
client of the second leaves while it is queued. -/
theorem accounts_exact_stream :
    ∃ s : Ledger (Fin 2) Unit Unit, Reachable Ledger.step Ledger.new s ∧
      (s.req 0).Over ∧ (s.req 1).Over ∧ s.load () = 0 ∧ s.inflight () = 0 ∧
      (s.req 0).placesGiven = 1 ∧ (s.req 0).slotsGiven = 1 ∧
      s.inflight () = {i | (s.req i).Unreleased ()}.ncard := by
  have run : Reachable Ledger.step Ledger.new (_ : Ledger (Fin 2) Unit Unit) :=
    Reachable.of_exec [.take 0 (some ()), .take 1 (some ()), .handOver 0, .handOver 1,
      .enqueue 0 (some ()), .enqueue 1 (some ()), .pop 0, .test 0 false, .respond 0,
      .call 0 (.deliver false), .advance 0 (.delivering false), .call 0 .finish, .pop 1, .test 1 true,
      .advance 0 .swapping, .advance 0 .slot, .leave 1, .advance 0 .place, .call 0 .drop,
      .advance 0 .swapping] rfl
  exact ⟨_, run, ⟨rfl, rfl⟩, trivial, rfl, rfl, rfl, rfl, ((accounts_exact run).1 ()).1⟩

end Oxbrook
