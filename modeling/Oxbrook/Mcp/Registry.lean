import Oxbrook.Foundation.Runs
import Oxbrook.Foundation.OrderedDict
import Mathlib.Data.Fintype.Basic

/-!
# Sessions and what they hold

`Sessions`, the registry of a process, and what is opened for a session: the subscriptions of the topics it follows,
their pumps, and the channel of its GET streams.  The operations are requests on any loop.  The lock of the registry is
held over the steps that the source holds it over; everything that happens to a session after it was fetched happens
without it, and each single operation on the session is an action of its own.

Sessions, subscriptions and channels are known by the order in which they were made.  A session that is not made yet
has no channel and no feeds.
-/

namespace Oxbrook

open StepMachine

variable {ι υ : Type}

/-! ## The state -/

/-- What a session is fetched for: `resources/subscribe`, `resources/unsubscribe`, the stream of a GET, or a request that
opens and closes nothing. -/
inductive Errand (υ : Type)
  | follow (uri : υ)
  | unfollow (uri : υ)
  | stream
  | other

/-- `Session.close`: before the lock of the session, past the copy of its channel and its feeds, or past both
assignments, with what is left to close. -/
inductive ClosePc
  | entering
  | copied (channel : Option ℕ) (feeds : List ℕ)
  | closing (channel : Option ℕ) (feeds : List ℕ)

/-- Where an operation is. -/
inductive RequestPc (υ : Type)
  | idle
  /-- In `sweep`, with the sessions to look at and those found expired. -/
  | sweeping (todo dead : List ℕ)
  /-- In `create`, past the sweep. -/
  | creating
  /-- In `Sessions.get`, with the verdict of `_expired`. -/
  | judging (x : ℕ) (errand : Errand υ) (expired : Bool)
  /-- With the session in hand: a subscribe is at its permission check, and a stream is not begun. -/
  | fetched (x : ℕ) (errand : Errand υ)
  /-- Past `uri in session.feeds`. -/
  | absent (x : ℕ) (uri : υ)
  /-- Past `topic.subscribe()`. -/
  | subscribed (x : ℕ) (uri : υ) (k : ℕ)
  /-- Past `session.feeds[uri] = feed`. -/
  | stored (x : ℕ) (k : ℕ)
  /-- Past `session.feeds.pop(uri, None)`. -/
  | popped (x : ℕ) (uri : υ) (k : ℕ)
  /-- Past `session.outbound()`. -/
  | opening (x c : ℕ)
  | streaming (x c : ℕ)
  /-- In `Session.close`, with the sessions to close after this one, and whether it goes on to `create`. -/
  | closing (x : ℕ) (pc : ClosePc) (rest : List ℕ) (creates : Bool)

structure RegistryState (ι υ : Type) where
  now : ℕ
  /-- `Sessions._by_id`, and whether its lock is held. -/
  live : List ℕ
  locked : Bool
  /-- How many sessions were made. -/
  made : ℕ
  touched : ℕ → ℕ
  channel : ℕ → Option ℕ
  feeds : ℕ → OrderedDict υ ℕ
  /-- The subscriptions that were opened for feeds, by session and uri, and those of them that are closed. -/
  subs : List (ℕ × υ)
  closed : List ℕ
  /-- The pumps that run, by session and subscription. -/
  pumps : List (ℕ × ℕ)
  /-- The channels that were made, by session, and those of them that are closed. -/
  channels : List ℕ
  ended : List ℕ
  /-- The streams that are subscribed to a channel. -/
  attached : ℕ → List ι
  ops : ι → RequestPc υ

/-- `step i` is the next operation of a request.  `refuse i` ends one that has a session in hand and does nothing with
it: the permission is refused, or the stream is never begun. -/
inductive RegistryAction (ι υ : Type)
  | tick (d : ℕ)
  | create (i : ι)
  | get (i : ι) (x : ℕ) (errand : Errand υ)
  | delete (i : ι) (x : ℕ)
  | refuse (i : ι)
  | step (i : ι)
  | endPump (x k : ℕ)

namespace RegistryState

/-! ## The steps -/

def new : RegistryState ι υ where
  now := 0
  live := []
  locked := false
  made := 0
  touched := fun _ => 0
  channel := fun _ => none
  feeds := fun _ => .empty
  subs := []
  closed := []
  pumps := []
  channels := []
  ended := []
  attached := fun _ => []
  ops := fun _ => .idle

/-- `Session.listening`. -/
def listening (s : RegistryState ι υ) (x : ℕ) : Bool :=
  match s.channel x with
  | none => false
  | some c => !(s.attached c).isEmpty

/-- `Sessions._expired`. -/
def expired (idle : ℕ) (s : RegistryState ι υ) (x : ℕ) : Bool :=
  !s.listening x && decide (idle < s.now - s.touched x)

/-- The sessions leave the registry, and its lock is released. -/
def unlist (s : RegistryState ι υ) (dead : List ℕ) : RegistryState ι υ :=
  { s with live := s.live.filter (· ∉ dead), locked := false }

/-- A new session enters the registry. -/
def enlist (s : RegistryState ι υ) : RegistryState ι υ :=
  { s with
    live := s.live ++ [s.made]
    made := s.made + 1
    touched := Function.update s.touched s.made s.now }

/-- The next session to close, or what follows. -/
def closeNext (creates : Bool) : List ℕ → RequestPc υ
  | x :: rest => .closing x .entering rest creates
  | [] => if creates then .creating else .idle

variable [DecidableEq ι] [DecidableEq υ]

/-- The request is at another place. -/
def goto (s : RegistryState ι υ) (i : ι) (pc : RequestPc υ) : RegistryState ι υ :=
  { s with ops := Function.update s.ops i pc }

/-- What a request does with the session that it has fetched. -/
def attend (s : RegistryState ι υ) (i : ι) (x : ℕ) : Errand υ → RegistryState ι υ
  | .follow uri => s.goto i (if uri ∈ (s.feeds x).keys then .idle else .absent x uri)
  | .unfollow uri =>
    match (s.feeds x).get uri with
    | none => s.goto i .idle
    | some k => { s with feeds := Function.update s.feeds x ((s.feeds x).erase uri) }.goto i (.popped x uri k)
  | .stream =>
    match s.channel x with
    | some c => s.goto i (.opening x c)
    | none =>
      { s with
        channel := Function.update s.channel x (some s.channels.length)
        channels := s.channels ++ [x] }.goto i (.opening x s.channels.length)
  | .other => s.goto i .idle

/-- `Session.close`. -/
def closeStep (s : RegistryState ι υ) (i : ι) (x : ℕ) (rest : List ℕ) (creates : Bool) : ClosePc → RegistryState ι υ
  | .entering =>
    { s with channel := Function.update s.channel x none }.goto i
      (.closing x (.copied (s.channel x) ((s.feeds x).items.map Prod.snd)) rest creates)
  | .copied channel feeds =>
    { s with feeds := Function.update s.feeds x .empty }.goto i (.closing x (.closing channel feeds) rest creates)
  | .closing channel (k :: feeds) =>
    { s with closed := s.closed ++ [k] }.goto i (.closing x (.closing channel feeds) rest creates)
  | .closing (some c) [] =>
    { s with ended := s.ended ++ [c], attached := Function.update s.attached c [] }.goto i (closeNext creates rest)
  | .closing none [] => s.goto i (closeNext creates rest)

/-- One operation of a request. -/
def advance (idle limit : ℕ) (s : RegistryState ι υ) (i : ι) : RequestPc υ → Option (RegistryState ι υ)
  | .idle => none
  | .sweeping (x :: todo) dead =>
    some (s.goto i (.sweeping todo (if s.expired idle x then dead ++ [x] else dead)))
  | .sweeping [] dead => some ((s.unlist dead).goto i (closeNext true dead))
  | .creating =>
    if s.locked = true then none
    else if limit ≤ s.live.length then some (s.goto i .idle)
    else some (s.enlist.goto i .idle)
  | .judging x _ true => some ((s.unlist [x]).goto i (closeNext false [x]))
  | .judging x errand false =>
    some ({ s with touched := Function.update s.touched x s.now, locked := false }.goto i (.fetched x errand))
  | .fetched x errand => some (s.attend i x errand)
  | .absent x uri => some ({ s with subs := s.subs ++ [(x, uri)] }.goto i (.subscribed x uri s.subs.length))
  | .subscribed x uri k =>
    some ({ s with feeds := Function.update s.feeds x ((s.feeds x).set uri k) }.goto i (.stored x k))
  | .stored x k => some ({ s with pumps := s.pumps ++ [(x, k)] }.goto i .idle)
  | .popped _ _ k => some ({ s with closed := s.closed ++ [k] }.goto i .idle)
  | .opening x c =>
    some ({ s with attached := Function.update s.attached c (s.attached c ++ [i]) }.goto i (.streaming x c))
  | .streaming _ c => some ({ s with attached := Function.update s.attached c ((s.attached c).erase i) }.goto i .idle)
  | .closing x pc rest creates => some (s.closeStep i x rest creates pc)

/-- `Sessions.create` begins with a sweep; `Sessions.get` and `Sessions.drop` find their session or answer 404. -/
def step (idle limit : ℕ) (s : RegistryState ι υ) : RegistryAction ι υ → Option (RegistryState ι υ)
  | .tick d => some { s with now := s.now + d }
  | .create i =>
    match s.ops i, s.locked with
    | .idle, false => some ({ s with locked := true }.goto i (.sweeping s.live []))
    | _, _ => none
  | .get i x errand =>
    match s.ops i, s.locked with
    | .idle, false =>
      if x ∈ s.live then some ({ s with locked := true }.goto i (.judging x errand (s.expired idle x))) else some s
    | _, _ => none
  | .delete i x =>
    match s.ops i, s.locked with
    | .idle, false => if x ∈ s.live then some ((s.unlist [x]).goto i (closeNext false [x])) else some s
    | _, _ => none
  | .refuse i =>
    match s.ops i with
    | .fetched _ _ => some (s.goto i .idle)
    | _ => none
  | .step i => s.advance idle limit i (s.ops i)
  | .endPump x k => if k ∈ s.closed then some { s with pumps := s.pumps.erase (x, k) } else none

end RegistryState

end Oxbrook
