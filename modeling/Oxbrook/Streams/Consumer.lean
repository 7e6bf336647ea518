import Mathlib.Data.List.Basic
import Mathlib.Logic.Function.Iterate

/-!
# Members of a consumer group

A `Consumer` reads a stream as a member of a group: what it is given stays pending for it until it is
acked.  A restarted consumer finds a list of pending entries, some of them since deleted from the
stream, and `_fill` first reads this list, from its start and a page at a time, until a page has
nothing left to give; then it claims what other members have held too long, and reads new entries.

The commands are what Redis promises: `XREADGROUP` with the id `0` returns the first `count` entries
pending for this consumer in order, with null fields for those deleted, and `XACK` takes an entry
off the list.

The caller is a function from the ids it has been given so far to the ids it acks before it goes on,
so that every pattern of acking at once, later or never is such a function.
-/

namespace Oxbrook

variable {ι φ δ : Type*}

/-- An entry delivered to the group; its fields are null once it is deleted from the stream. -/
structure GroupEntry (ι φ : Type*) where
  id : ι
  fields : Option φ

/-- A message the consumer gives out. -/
structure Message (ι δ : Type*) where
  id : ι
  data : δ

/-- What Redis keeps for the group, as one consumer sees it: the entries pending for it, those that
other members have held too long, and those not delivered to anyone. -/
structure Group (ι φ : Type*) where
  pending : List (GroupEntry ι φ)
  idle : List (GroupEntry ι φ)
  undelivered : List (GroupEntry ι φ)

namespace Group

/-- `XREADGROUP … 0`. -/
def readPending (group : Group ι φ) (count : ℕ) : List (GroupEntry ι φ) :=
  group.pending.take count

/-- `XAUTOCLAIM`. -/
def autoclaim (group : Group ι φ) (count : ℕ) : List (GroupEntry ι φ) × Group ι φ :=
  (group.idle.take count, { group with
    pending := group.pending ++ group.idle.take count, idle := group.idle.drop count })

/-- `XREADGROUP … >`. -/
def readNew (group : Group ι φ) (count : ℕ) : List (GroupEntry ι φ) × Group ι φ :=
  (group.undelivered.take count, { group with
    pending := group.pending ++ group.undelivered.take count
    undelivered := group.undelivered.drop count })

/-- `XACK` of each of the ids. -/
def ack [DecidableEq ι] (group : Group ι φ) (idents : List ι) : Group ι φ :=
  { group with pending := group.pending.filter fun entry => decide (entry.id ∉ idents) }

end Group

/-- The state of a `Consumer`; `claims` says that `claim_after_ms` is set. -/
structure Consumer (ι δ : Type*) where
  buffer : List (Message ι δ)
  recovering : Bool
  closed : Bool
  count : ℕ
  claims : Bool

namespace Consumer

/-- `Consumer(…)`. -/
def new (count : ℕ) (claims : Bool) : Consumer ι δ where
  buffer := []
  recovering := true
  closed := false
  count := count
  claims := claims

/-- `_absorb`: the number of messages added, and the buffer with them. -/
def absorb (decode : φ → δ) (buffer : List (Message ι δ)) :
    List (GroupEntry ι φ) → ℕ × List (Message ι δ)
  | [] => (0, buffer)
  | entry :: entries =>
    match entry.fields with
    | none => absorb decode buffer entries
    | some fields =>
      let rest := absorb decode (buffer ++ [⟨entry.id, decode fields⟩]) entries
      (rest.1 + 1, rest.2)

/-- The part of `_fill` that comes after the recovery. -/
def fillLive (decode : φ → δ) (consumer : Consumer ι δ) (group : Group ι φ) :
    Consumer ι δ × Group ι φ :=
  let claimed := if consumer.claims then group.autoclaim consumer.count else ([], group)
  let taken := absorb decode consumer.buffer claimed.1
  if taken.1 ≠ 0 then ({ consumer with buffer := taken.2 }, claimed.2)
  else
    let fresh := claimed.2.readNew consumer.count
    ({ consumer with buffer := (absorb decode taken.2 fresh.1).2 }, fresh.2)

/-- `_fill`. -/
def fill (decode : φ → δ) (consumer : Consumer ι δ) (group : Group ι φ) :
    Consumer ι δ × Group ι φ :=
  if consumer.recovering then
    let page := absorb decode consumer.buffer (group.readPending consumer.count)
    if page.1 ≠ 0 then ({ consumer with buffer := page.2 }, group)
    else { consumer with recovering := false }.fillLive decode group
  else consumer.fillLive decode group

end Consumer

/-- A consumer with its caller; `given` records the ids the caller has been given. -/
structure Session (ι φ δ : Type*) where
  consumer : Consumer ι δ
  group : Group ι φ
  given : List ι

namespace Session

/-- A consumer that has just been started. -/
def start (count : ℕ) (claims : Bool) (group : Group ι φ) : Session ι φ δ where
  consumer := .new count claims
  group := group
  given := []

variable [DecidableEq ι]

/-- One pass through the loop of `__anext__`: a message is given and the caller acks what it likes of
all it has been given, or the iteration has ended, or the buffer is filled. -/
def turn (decode : φ → δ) (acks : List ι → List ι) (s : Session ι φ δ) : Session ι φ δ :=
  match s.consumer.buffer with
  | message :: buffer =>
    let given := s.given ++ [message.id]
    { consumer := { s.consumer with buffer := buffer }
      group := s.group.ack ((acks given).filter fun ident => decide (ident ∈ given))
      given := given }
  | [] =>
    if s.consumer.closed then s
    else
      let filled := s.consumer.fill decode s.group
      { s with consumer := filled.1, group := filled.2 }

/-- The recovery gives just the ids `owed`, each once and in this order, and ends. -/
def Recovers (decode : φ → δ) (acks : List ι → List ι) (s : Session ι φ δ) (owed : List ι) : Prop :=
  ∃ n, ((turn decode acks)^[n] s).consumer.recovering = true ∧
    ((turn decode acks)^[n] s).given = owed ∧
    ((turn decode acks)^[n + 1] s).consumer.recovering = false

/-- The consumer is about to read a page of what is pending for it. -/
def Reads (s : Session ι φ δ) : Prop :=
  s.consumer.recovering = true ∧ s.consumer.buffer = [] ∧ s.consumer.closed = false

/-- Whenever the consumer reads a page of what is pending for it, its caller has acked all it was
given. -/
def AcksInTime (decode : φ → δ) (acks : List ι → List ι) (s : Session ι φ δ) : Prop :=
  ∀ n, ((turn decode acks)^[n] s).Reads → ∀ ident ∈ ((turn decode acks)^[n] s).given,
    ident ∉ ((turn decode acks)^[n] s).group.pending.map GroupEntry.id

end Session

end Oxbrook
