import Mathlib.Data.Prod.Lex
import Mathlib.Order.Nat
import Oxbrook.Foundation.Runs
import Oxbrook.Streams.Subscription

/-!
# Durable topics

A durable topic shared by every process that follows its Redis stream, seen from one process: the
stream, to which this node's `emit` and the other nodes append, the local subscriptions `κ`, the
tail task of `_pump` that fans entries out to them, the emits `τ` under way in this process, and the
readers.  A step is one Redis command, one section run under a subscription's lock, or one access to
a field that two loops share: `_live`, and the `_after` the tail reads while the reader moves it.

Redis is what the commands promise: ids strictly increase, `XRANGE` with an exclusive start and
`XREAD` return the first entries after the given id in order, `XREVRANGE … COUNT 1` the newest, and
trimming removes the oldest.  Ids are a linear order whose least element is `0-0`.

A plain subscription does not see ids, but its items carry them here, with the path they came by,
so that it can be said what it is given.  An `emit` that waits for room may look for it at any
moment; whom a read wakes is the subject of another module.  Closing is not modelled: a closed
subscription has no reader left to speak about.
-/

namespace Oxbrook

open StepMachine

variable {ι α κ τ : Type*}

/-! ## The stream -/

/-- A stream id, as `_position` compares them: milliseconds, then a sequence number. -/
abbrev StreamId : Type := ℕ ×ₗ ℕ

/-- An entry of the stream: its id, its value, and whether this node published it. -/
structure Entry (ι α : Type*) where
  id : ι
  value : α
  own : Bool
  deriving DecidableEq

/-- The path by which an item reaches a reader. -/
inductive Feed
  | tail
  | emit
  | replay
  deriving DecidableEq

/-- An entry on its way to a reader. -/
structure Item (ι α : Type*) where
  entry : Entry ι α
  feed : Feed
  deriving DecidableEq

/-- `subscribe(since=…)` after `_since`: without it, with `"$"`, or with the id to replay after. -/
inductive Opened (ι : Type*)
  | plain
  | new
  | since (ident : ι)
  deriving DecidableEq

/-- Entries read per round trip while a resumed subscription catches up. -/
def replayPage : ℕ := 100

/-- Entries read per `XREAD` of the tail. -/
def followCount : ℕ := 64

/-! ## Subscriptions of a durable topic -/

/-- Where the reader of a subscription stands: at a point of `__anext__` where it owns its state,
awaiting a page of the history after it read `_live`, or with the page in hand. -/
inductive PagerPc (ι α : Type*)
  | idle
  | paging (live : Bool)
  | paged (live : Bool) (page : List (Entry ι α))

/-- A subscription with its reader.  The last fields only record what happens: how it was opened, the
length of the stream when `subscribe` returned, the items `_try_offer` was called with (but for those
the tail was refused, which it offers again), the items yielded, and the ids from which and up to
which the tail has offered everything. -/
structure DurableSubscription (ι α τ : Type*) extends Subscription (Item ι α) Unit τ where
  ids : Bool
  after : Option ι
  backlog : List (Entry ι α)
  replaying : Bool
  reader : PagerPc ι α
  loopClosed : Bool
  opened : Opened ι
  returned : Option ℕ
  offered : List (Item ι α)
  yielded : List (Item ι α)
  start : ι
  fed : ι

namespace DurableSubscription

/-- `Subscription(…, since)`. -/
def new (topic : String) (maxsize : ℕ) (maxsize_pos : 0 < maxsize) (policy : Policy)
    (opened : Opened ι) (start : ι) : DurableSubscription ι α τ where
  toSubscription := .new topic maxsize maxsize_pos policy
  ids := match opened with
    | .plain => false
    | .new => true
    | .since _ => true
  after := match opened with
    | .since ident => some ident
    | _ => none
  backlog := []
  replaying := match opened with
    | .since _ => true
    | _ => false
  reader := .idle
  loopClosed := false
  opened := opened
  returned := none
  offered := []
  yielded := []
  start := start
  fed := start

/-- The tail gives a subscription its own node's entries only if it was opened with `since`. -/
def takes (sub : DurableSubscription ι α τ) (entry : Entry ι α) : Bool :=
  sub.ids || !entry.own

/-- Whether the code after the section of `_put` raises: `TopicFull`, or the `RuntimeError` of
`call_soon_threadsafe` on the closed loop of a parked reader. -/
def raises (sub : DurableSubscription ι α τ) : PutResult Unit → Bool
  | .refused _ => true
  | .entered getter => getter.isSome && sub.loopClosed
  | _ => false

variable [LinearOrder ι]

/-- `_try_offer`, for a caller that read `_after` before. -/
def tryOffer (sub : DurableSubscription ι α τ) (item : Item ι α) (after : Option ι) :
    PutResult Unit × DurableSubscription ι α τ :=
  if after.any fun read => decide (item.entry.id ≤ read) then (.ignored, sub)
  else
    let (result, core) := sub.put item
    (result, { sub with toSubscription := core })

/-- The tail's `_try_offer` of an entry: a full `block` subscription counts it as dropped.  A refusal
is the one outcome after which the subscription still is owed the entry. -/
def feed (sub : DurableSubscription ι α τ) (entry : Entry ι α) (after : Option ι) :
    PutResult Unit × DurableSubscription ι α τ :=
  let offered := sub.offered ++ [⟨entry, .tail⟩]
  match sub.tryOffer ⟨entry, .tail⟩ after with
  | (.wouldBlock, sub) =>
    (.wouldBlock, { sub with dropped := sub.dropped + 1, offered := offered, fed := entry.id })
  | (.refused error, sub) => (.refused error, sub)
  | (result, sub) => (result, { sub with offered := offered, fed := entry.id })

/-- The `_try_offer` of `emit`. -/
def hand (sub : DurableSubscription ι α τ) (entry : Entry ι α) :
    PutResult Unit × DurableSubscription ι α τ :=
  let (result, core) := sub.put ⟨entry, .emit⟩
  (result, { sub with toSubscription := core, offered := sub.offered ++ [⟨entry, .emit⟩] })

/-- `_prune`. -/
def prune (sub : DurableSubscription ι α τ) : DurableSubscription ι α τ :=
  { sub with
    buffer := sub.buffer.filter fun item =>
      !sub.after.any fun read => decide (item.entry.id ≤ read) }

/-- An item is given to the caller of `__anext__`. -/
def yield (sub : DurableSubscription ι α τ) (item : Item ι α) : DurableSubscription ι α τ :=
  { sub with
    after := if sub.ids then some item.entry.id else sub.after
    yielded := sub.yielded ++ [item] }

/-- The next message of the replay that is in the backlog. -/
def replayNext (sub : DurableSubscription ι α τ) (entry : Entry ι α) (rest : List (Entry ι α)) :
    DurableSubscription ι α τ :=
  { sub with backlog := rest }.yield ⟨entry, .replay⟩

/-- What `_replayed` does with a page of the history. -/
def absorb (sub : DurableSubscription ι α τ) (live : Bool) (page : List (Entry ι α)) :
    DurableSubscription ι α τ :=
  if page.isEmpty then
    if live then { sub with replaying := false, reader := .idle }.prune
    else { sub with reader := .idle }
  else { sub with backlog := sub.backlog ++ page, reader := .idle }

/-- One pass through the loop of `__anext__`, up to the point where it returns the item, drops it as
already read, or awaits its getter. -/
def next (sub : DurableSubscription ι α τ) : DurableSubscription ι α τ :=
  match sub.nextTurn () with
  | (.ready item _, core) =>
    if sub.ids && sub.after.any (fun read => decide (item.entry.id ≤ read)) then
      { sub with toSubscription := core }
    else { sub with toSubscription := core }.yield item
  | (.stop, _) => sub
  | (.parked, core) => { sub with toSubscription := core }

/-- The reader, or the caller that read `_after` for it, has gone past the entry. -/
def Read (after : Option ι) (entry : Entry ι α) : Prop :=
  ∃ read, after = some read ∧ entry.id ≤ read

lemma any_iff_read {after : Option ι} {entry : Entry ι α} :
    (after.any fun read => decide (entry.id ≤ read)) = true ↔ Read after entry := by
  cases after <;> simp [Read]

/-- Everything the tail's offer of an entry can do. -/
theorem feed_cases (sub : DurableSubscription ι α τ) (entry : Entry ι α) (after : Option ι) :
    ∃ core fed offered, (sub.feed entry after).2 = { sub with
        toSubscription := core, offered := offered, fed := fed } ∧
      (((Read after entry ∨ sub.closed = true) ∧ core = sub.toSubscription ∧ fed = entry.id ∧
          offered = sub.offered ++ [⟨entry, .tail⟩] ∧ (sub.feed entry after).1 = .ignored) ∨
        (¬ Read after entry ∧ sub.closed = false ∧ sub.buffer.length < sub.maxsize ∧
          core = sub.enter ⟨entry, .tail⟩ ∧ fed = entry.id ∧
          offered = sub.offered ++ [⟨entry, .tail⟩] ∧
          (sub.feed entry after).1 = .entered sub.getter) ∨
        (¬ Read after entry ∧ sub.closed = false ∧ sub.maxsize ≤ sub.buffer.length ∧
          ((sub.policy = .dropOldest ∧
              core = { sub.toSubscription with
                buffer := sub.buffer.tail, dropped := sub.dropped + 1 }.enter ⟨entry, .tail⟩ ∧
              fed = entry.id ∧ offered = sub.offered ++ [⟨entry, .tail⟩] ∧
              (sub.feed entry after).1 = .entered sub.getter) ∨
            (core = { sub.toSubscription with dropped := sub.dropped + 1 } ∧ fed = entry.id ∧
              offered = sub.offered ++ [⟨entry, .tail⟩] ∧
              sub.raises (sub.feed entry after).1 = false) ∨
            (core = sub.toSubscription ∧ fed = sub.fed ∧ offered = sub.offered ∧
              (sub.feed entry after).1 = .refused ⟨sub.topic, sub.maxsize⟩)))) := by
  by_cases hread : Read after entry
  · have hany := any_iff_read.mpr hread
    refine ⟨sub.toSubscription, entry.id, _, ?_, .inl ⟨.inl hread, rfl, rfl, rfl, ?_⟩⟩ <;>
      simp [feed, tryOffer, hany]
  · have hany := mt any_iff_read.mp hread
    rcases sub.put_cases ⟨entry, .tail⟩ with ⟨hclosed, hp⟩ | ⟨hopen, hroom, hp⟩ |
      ⟨hopen, hfull, ⟨hpolicy, hp⟩ | ⟨hpolicy, hp⟩ | ⟨hpolicy, hp⟩ | ⟨hpolicy, hp⟩⟩
    · refine ⟨_, _, _, ?_, .inl ⟨.inr hclosed, rfl, rfl, rfl, ?_⟩⟩ <;> simp [feed, tryOffer, hany, hp]
    · refine ⟨_, _, _, ?_, .inr (.inl ⟨hread, hopen, hroom, rfl, rfl, rfl, ?_⟩)⟩ <;>
        simp [feed, tryOffer, hany, hp]
    · refine ⟨_, _, _, ?_, .inr (.inr ⟨hread, hopen, hfull, .inr (.inl ⟨rfl, rfl, rfl, ?_⟩)⟩)⟩ <;>
        simp [feed, tryOffer, hany, hp, raises]
    · refine ⟨_, _, _, ?_, .inr (.inr ⟨hread, hopen, hfull, .inl ⟨hpolicy, rfl, rfl, rfl, ?_⟩⟩)⟩ <;>
        simp [feed, tryOffer, hany, hp]
    · refine ⟨_, _, _, ?_, .inr (.inr ⟨hread, hopen, hfull, .inr (.inr ⟨rfl, rfl, rfl, ?_⟩)⟩)⟩ <;>
        simp [feed, tryOffer, hany, hp]
    · refine ⟨_, _, _, ?_, .inr (.inr ⟨hread, hopen, hfull, .inr (.inl ⟨rfl, rfl, rfl, ?_⟩)⟩)⟩ <;>
        simp [feed, tryOffer, hany, hp, raises]

/-- Everything one pass through the loop of `__anext__` can do. -/
theorem next_cases (sub : DurableSubscription ι α τ) :
    (∃ item buffer, sub.buffer = item :: buffer ∧ sub.ids = true ∧ Read sub.after item.entry ∧
      sub.next = { sub with buffer := buffer, putters := sub.putters.tail }) ∨
    (∃ item buffer, sub.buffer = item :: buffer ∧ (sub.ids = true → ¬ Read sub.after item.entry) ∧
      sub.next = { sub with
        buffer := buffer
        putters := sub.putters.tail
        after := if sub.ids then some item.entry.id else sub.after
        yielded := sub.yielded ++ [item] }) ∨
    (sub.buffer = [] ∧ ∃ getter, sub.next = { sub with getter := getter }) := by
  rcases sub.nextTurn_cases () with ⟨item, buffer, hbuffer, hp⟩ | ⟨hbuffer, -, hp⟩ |
    ⟨hbuffer, -, hp⟩
  · by_cases hread : sub.ids = true ∧ Read sub.after item.entry
    · refine .inl ⟨item, buffer, hbuffer, hread.1, hread.2, ?_⟩
      simp [next, hp, hread.1, any_iff_read.mpr hread.2]
    · refine .inr (.inl ⟨item, buffer, hbuffer, fun hids hr => hread ⟨hids, hr⟩, ?_⟩)
      have hany : (sub.ids && sub.after.any fun read => decide (item.entry.id ≤ read)) = false := by
        cases hids : sub.ids with
        | false => rfl
        | true =>
          have hnot := mt any_iff_read.mp fun hr => hread ⟨hids, hr⟩
          simpa using hnot
      simp [next, hp, hany, yield]
  · exact .inr (.inr ⟨hbuffer, sub.getter, by simp [next, hp]⟩)
  · exact .inr (.inr ⟨hbuffer, some (), by simp [next, hp]⟩)

end DurableSubscription

/-! ## The tail and the emits -/

/-- What the tail does once it has a position: reading the stream, handing `entry` to the
subscriptions `rest`, about to `_put` it to `k` having read its `_after`, or sleeping after an
exception. -/
inductive Stage (ι α κ : Type*)
  | reading
  | fanning (entry : Entry ι α) (rest : List κ)
  | loaded (entry : Entry ι α) (after : Option ι) (k : κ) (rest : List κ)
  | broken

/-- The tail task: not started, about to ask for the last id, having the answer, or running from a
position, with the entries `XREAD` returned and `follow` has not yielded yet. -/
inductive Tail (ι α κ : Type*)
  | absent
  | starting
  | asked (position : ι)
  | running (position : ι) (stage : Stage ι α κ) (batch : List (Entry ι α))

/-- `_ensure_tail`. -/
def Tail.ensure : Tail ι α κ → Tail ι α κ
  | absent => starting
  | tail => tail

/-- Where an `emit` stands: outside, with its entry appended, handing it to the subscriptions
`rest`, or waiting in `_offer` of `k`. -/
inductive EmitPc (ι α κ : Type*)
  | idle
  | published (entry : Entry ι α)
  | delivering (entry : Entry ι α) (rest : List κ)
  | blocked (entry : Entry ι α) (k : κ) (rest : List κ)

/-- A durable topic in one process.  `followed` records the entries the tail has fanned
out. -/
structure TopicState (ι α κ τ : Type*) where
  name : String
  log : List (Entry ι α)
  trimmed : ℕ
  subs : List κ
  sub : κ → DurableSubscription ι α τ
  tail : Tail ι α κ
  live : Bool
  emits : τ → EmitPc ι α κ
  followed : List (Entry ι α)

/-- One step.  `tail`, `emit` and `reader` go on from wherever the task stands; the `Fails` actions
are exceptions out of a Redis command (for the tail, also out of decoding an entry). -/
inductive TopicAction (ι α κ τ : Type*)
  | append (ident : ι) (value : α)
  | publish (t : τ) (ident : ι) (value : α)
  | trim (n : ℕ)
  | subscribe (k : κ) (opened : Opened ι) (maxsize : ℕ) (policy : Policy)
  | ensureTail (k : κ)
  | closeLoop (k : κ)
  | tail
  | tailFails
  | emit (t : τ)
  | reader (k : κ)
  | readerFails (k : κ)

namespace TopicState

/-- The entries the stream still holds. -/
def present (s : TopicState ι α κ τ) : List (Entry ι α) :=
  s.log.drop s.trimmed

variable [LinearOrder ι] [OrderBot ι] [DecidableEq κ] [DecidableEq τ]

/-- A topic nobody has used yet. -/
def new (name : String) : TopicState ι α κ τ where
  name := name
  log := []
  trimmed := 0
  subs := []
  sub := fun _ => .new name 1 Nat.one_pos .dropOldest .plain ⊥
  tail := .absent
  live := false
  emits := fun _ => .idle
  followed := []

/-- `last_id`. -/
def lastId (s : TopicState ι α κ τ) : ι :=
  match s.present.getLast? with
  | some entry => entry.id
  | none => ⊥

/-- The first `count` entries after `position`, as `XRANGE` and `XREAD` return them. -/
def entriesAfter (s : TopicState ι α κ τ) (position : ι) (count : ℕ) : List (Entry ι α) :=
  (s.present.filter fun entry => position < entry.id).take count

/-- An id that Redis may give to the next entry. -/
def mayAppend (s : TopicState ι α κ τ) (ident : ι) : Bool :=
  decide (⊥ < ident) && s.log.all fun entry => decide (entry.id < ident)

/-- Replace one subscription. -/
def setSub (s : TopicState ι α κ τ) (k : κ) (sub : DurableSubscription ι α τ) :
    TopicState ι α κ τ :=
  { s with sub := Function.update s.sub k sub }

/-- The id up to which a subscription registered now will have been offered everything the tail
owes it: the tail's position, or the entry it is already handing out. -/
def reached (s : TopicState ι α κ τ) : ι :=
  match s.tail with
  | .running _ (.fanning entry _) _ => entry.id
  | .running _ (.loaded entry _ _ _) _ => entry.id
  | .running position _ _ => position
  | _ => ⊥

/-- The tail offers `entry` to `k`, having read its `_after`. -/
def offerTail (s : TopicState ι α κ τ) (position : ι) (entry : Entry ι α) (after : Option ι) (k : κ)
    (rest : List κ) (batch : List (Entry ι α)) : TopicState ι α κ τ :=
  let fed := (s.sub k).feed entry after
  if (s.sub k).raises fed.1 then { s with tail := .running position .broken [] }.setSub k fed.2
  else { s with tail := .running position (.fanning entry rest) batch }.setSub k fed.2

/-- The tail goes on. -/
def tailStep (s : TopicState ι α κ τ) : Option (TopicState ι α κ τ) :=
  match s.tail with
  | .absent => none
  | .starting => some { s with tail := .asked s.lastId }
  | .asked position =>
    some { s with
      tail := .running position .reading []
      live := true
      sub := fun k => { s.sub k with start := position, fed := position } }
  | .running position .reading [] =>
    some { s with tail := .running position .reading (s.entriesAfter position followCount) }
  | .running position .reading (entry :: batch) =>
    some { s with tail := .running position (.fanning entry s.subs) batch }
  | .running _ (.fanning entry []) batch =>
    some { s with tail := .running entry.id .reading batch, followed := s.followed ++ [entry] }
  | .running position (.fanning entry (k :: rest)) batch =>
    if entry.own && !(s.sub k).ids then
      some { s with tail := .running position (.fanning entry rest) batch }
    else
      some { s with
        tail := .running position
          (.loaded entry (if (s.sub k).ids then (s.sub k).after else none) k rest) batch }
  | .running position (.loaded entry after k rest) batch =>
    some (s.offerTail position entry after k rest batch)
  | .running position .broken _ => some { s with tail := .running position .reading [] }

/-- An exception reaches `_pump` out of the backend. -/
def tailFailsStep (s : TopicState ι α κ τ) : Option (TopicState ι α κ τ) :=
  match s.tail with
  | .asked _ => some { s with tail := .starting }
  | .running position .reading _ => some { s with tail := .running position .broken [] }
  | _ => none

/-- Move one emit. -/
def setEmit (s : TopicState ι α κ τ) (t : τ) (pc : EmitPc ι α κ) : TopicState ι α κ τ :=
  { s with emits := Function.update s.emits t pc }

/-- An `emit` goes on. -/
def emitStep (s : TopicState ι α κ τ) (t : τ) : Option (TopicState ι α κ τ) :=
  match s.emits t with
  | .idle => none
  | .published entry => some (s.setEmit t (.delivering entry s.subs))
  | .delivering _ [] => some (s.setEmit t .idle)
  | .delivering entry (k :: rest) =>
    if (s.sub k).ids then some (s.setEmit t (.delivering entry rest))
    else
      some ((s.setSub k ((s.sub k).hand entry).2).setEmit t (
        if (s.sub k).raises ((s.sub k).hand entry).1 then .idle
        else match ((s.sub k).hand entry).1 with
          | .wouldBlock => .blocked entry k rest
          | _ => .delivering entry rest))
  | .blocked entry k rest =>
    match (s.sub k).offerTurn ⟨entry, .emit⟩ t with
    | (.returned, _) => some (s.setEmit t (.delivering entry rest))
    | (.entered getter, core) =>
      some ((s.setSub k { s.sub k with toSubscription := core }).setEmit t
        (if (s.sub k).raises (.entered getter) then .idle else .delivering entry rest))
    | (.queued, core) => some (s.setSub k { s.sub k with toSubscription := core })

/-- The reader of `k` goes on. -/
def readerStep (s : TopicState ι α κ τ) (k : κ) : TopicState ι α κ τ :=
  match (s.sub k).reader with
  | .paging live =>
    s.setSub k { s.sub k with
      reader := .paged live (s.entriesAfter ((s.sub k).after.getD ⊥) replayPage) }
  | .paged live page => s.setSub k ((s.sub k).absorb live page)
  | .idle =>
    if (s.sub k).replaying then
      match (s.sub k).backlog with
      | entry :: rest => s.setSub k ((s.sub k).replayNext entry rest)
      | [] => s.setSub k { s.sub k with reader := .paging s.live }
    else s.setSub k (s.sub k).next

/-- The step function. -/
def step (s : TopicState ι α κ τ) : TopicAction ι α κ τ → Option (TopicState ι α κ τ)
  | .append ident value =>
    if s.mayAppend ident then some { s with log := s.log ++ [⟨ident, value, false⟩] } else none
  | .publish t ident value =>
    match s.emits t with
    | .idle =>
      if s.mayAppend ident then
        some (setEmit { s with log := s.log ++ [⟨ident, value, true⟩] } t
          (.published ⟨ident, value, true⟩))
      else none
    | _ => none
  | .trim n =>
    if s.trimmed ≤ n ∧ n ≤ s.log.length then some { s with trimmed := n } else none
  | .subscribe k opened maxsize policy =>
    if h : k ∉ s.subs ∧ 0 < maxsize then
      some ({ s with subs := s.subs ++ [k] }.setSub k
        (.new s.name maxsize h.2 policy opened s.reached))
    else none
  | .ensureTail k =>
    if k ∈ s.subs ∧ (s.sub k).returned = none then
      some ({ s with tail := s.tail.ensure }.setSub k { s.sub k with returned := some s.log.length })
    else none
  | .closeLoop k =>
    if k ∈ s.subs then some (s.setSub k { s.sub k with loopClosed := true }) else none
  | .tail => s.tailStep
  | .tailFails => s.tailFailsStep
  | .emit t => s.emitStep t
  | .reader k =>
    if k ∈ s.subs ∧ (s.sub k).loopClosed = false then some (s.readerStep k) else none
  | .readerFails k =>
    if k ∈ s.subs ∧ (s.sub k).loopClosed = false then
      some (s.setSub k { s.sub k with reader := .idle }) else none

end TopicState

end Oxbrook
