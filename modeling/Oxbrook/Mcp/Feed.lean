import Oxbrook.Foundation.Runs
import Mathlib.Data.Fintype.Basic
import Mathlib.Data.List.Nodup

/-!
# A followed topic

`Feed`, the pump that fills it and the calls of `resources/read` that empty it.  The pump, the reads and the streams of
the session may be on different loops, and no lock is held: each operation on the buffer, the latch or the channel is
an action of its own, and a run is any sequence of actions.

A message is known by its place in the order in which the pump appended the messages.  Three fields are not in the
source and only record what happened: what was read, what fell off the buffer, and whether anybody was told since.
-/

namespace Oxbrook

open StepMachine

variable {ι : Type*}

/-- `FEED_BUFFER`. -/
def feedBuffer : ℕ := 256

/-! ## The state -/

/-- Where `_pump` is: at the subscription, with a message appended, with the latch found open, in `post`, or with the
channel in hand. -/
inductive FeedPc
  | waiting
  | appended
  | unlatched
  | posting
  | emitting
  deriving DecidableEq

/-- Where `take` is: not called, past `list(self.buffer)`, or past `self.buffer.clear()`. -/
inductive TakePc
  | idle
  | copied
  | cleared
  deriving DecidableEq

/-- A message that fell off the buffer, with what was buffered behind it and what had been read. -/
structure Displaced where
  message : ℕ
  later : List ℕ
  read : List ℕ
  deriving DecidableEq

/-- One feed, with the channel of its session.  The calls of `resources/read` are indexed by `ι`. -/
structure FeedState (ι : Type*) where
  buffer : List ℕ
  notified : Bool
  pump : FeedPc
  takes : ι → TakePc
  /-- `session.channel is not None`. -/
  channel : Bool
  /-- The GET streams that are subscribed to the channel. -/
  streams : ℕ
  /-- How many messages were appended. -/
  arrived : ℕ
  returned : List ℕ
  displaced : List Displaced
  /-- A notification was put on an open stream since the last read. -/
  told : Bool

inductive FeedAction (ι : Type*)
  | append
  | testLatch
  | setLatch
  | readChannel
  | emit
  | copy (i : ι)
  | clear (i : ι)
  | resetLatch (i : ι)
  | outbound
  | subscribe
  | leave
  deriving DecidableEq

namespace FeedState

/-! ## The steps -/

/-- `Feed.__init__`, in a session with no channel yet. -/
def new : FeedState ι where
  buffer := []
  notified := false
  pump := .waiting
  takes := fun _ => .idle
  channel := false
  streams := 0
  arrived := 0
  returned := []
  displaced := []
  told := false

/-- The buffer and the message that arrives, before `maxlen` is looked at. -/
def extended (s : FeedState ι) : List ℕ := s.buffer ++ [s.arrived]

lemma extended_ne_nil (s : FeedState ι) : s.extended ≠ [] := List.concat_ne_nil _ _

/-- `deque.append`, with `maxlen=size`: the oldest message makes room. -/
def append (size : ℕ) (s : FeedState ι) : FeedState ι :=
  if size < s.extended.length then
    { s with
      buffer := s.extended.tail
      displaced := s.displaced ++ [⟨s.extended.head s.extended_ne_nil, s.extended.tail, s.returned⟩] }
  else { s with buffer := s.extended }

@[simp] lemma append_notified (size : ℕ) (s : FeedState ι) : (s.append size).notified = s.notified := by
  rw [append]
  split <;> rfl

@[simp] lemma append_takes (size : ℕ) (s : FeedState ι) : (s.append size).takes = s.takes := by
  rw [append]
  split <;> rfl

@[simp] lemma append_told (size : ℕ) (s : FeedState ι) : (s.append size).told = s.told := by
  rw [append]
  split <;> rfl

lemma append_returned (size : ℕ) (s : FeedState ι) : (s.append size).returned = s.returned := by
  rw [append]
  split <;> rfl

variable [DecidableEq ι]

/-- One operation of the pump, of a read, or of a stream that opens or closes.  What a read has copied it returns, and
it is recorded there. -/
def step (size : ℕ) (s : FeedState ι) : FeedAction ι → Option (FeedState ι)
  | .append =>
    if s.pump = .waiting then some { s.append size with pump := .appended, arrived := s.arrived + 1 } else none
  | .testLatch =>
    if s.pump = .appended then some { s with pump := if s.notified then .waiting else .unlatched } else none
  | .setLatch => if s.pump = .unlatched then some { s with pump := .posting, notified := true } else none
  | .readChannel =>
    if s.pump = .posting then some { s with pump := if s.channel then .emitting else .waiting } else none
  | .emit =>
    if s.pump = .emitting then some { s with pump := .waiting, told := s.told || decide (0 < s.streams) } else none
  | .copy i =>
    if s.takes i = .idle then
      some
        { s with
          takes := Function.update s.takes i .copied, returned := s.returned ++ s.buffer, told := false }
    else none
  | .clear i =>
    if s.takes i = .copied then some { s with takes := Function.update s.takes i .cleared, buffer := [] } else none
  | .resetLatch i =>
    if s.takes i = .cleared then some { s with takes := Function.update s.takes i .idle, notified := false }
    else none
  | .outbound => some { s with channel := true }
  | .subscribe => if s.channel = true then some { s with streams := s.streams + 1 } else none
  | .leave => if 0 < s.streams then some { s with streams := s.streams - 1 } else none

end FeedState

end Oxbrook
