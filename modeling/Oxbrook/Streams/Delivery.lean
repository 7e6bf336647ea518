import Oxbrook.Foundation.Runs
import Oxbrook.Foundation.Tally
import Oxbrook.Streams.Subscription

/-!
# Producers and reader of one subscription

An in-memory topic's subscription with any number of producers `ι`, its one reader, and whoever
closes it, on as many threads.  A step is one section run under the subscription's lock, or one of
the pieces of code between two sections: handing a future to the loop that resolves it, the
`_resolve` callback itself, the unlocked `dropped += 1` of `emit_nowait`.

A producer in `emit` goes through `_try_offer` and, if that returned false, through `_offer`: the
same `_put` once more, then the loop that waits for room.  A coroutine that awaits a future can be
cancelled there; what it had put into `_putters` or `_getter` stays.  A future that is resolved lets
the coroutine run again, from its `await` up to the end of the next section.

`History` records what the statements are about: how many messages were offered and refused, which
entered the buffer and which were yielded.  No step reads it.
-/

namespace Oxbrook

open StepMachine

variable {ι α : Type*}

/-! ## Futures and program counters -/

/-- The futures of a subscription: the `n`-th getter of its reader, and the `n`-th waiter a producer
created. -/
inductive Future (ι : Type*)
  | getter (n : ℕ)
  | waiter (i : ι) (n : ℕ)
  deriving DecidableEq

/-- The state of an `asyncio.Future`. -/
inductive FutureState
  | pending
  | finished
  | cancelled
  deriving DecidableEq

namespace FutureState

/-- `future.done()`. -/
def done : FutureState → Bool
  | pending => false
  | finished => true
  | cancelled => true

/-- `_resolve`. -/
def resolve (future : FutureState) : FutureState :=
  if future.done then future else finished

/-- `future.cancel()`. -/
def cancel (future : FutureState) : FutureState :=
  if future.done then future else cancelled

end FutureState

/-- Where a producer stands.  In `emit`: before the `_put` of `_offer` (`retrying`), before the
section of its loop (`looping`), awaiting its `n`-th waiter, or about to hand over the getter it
took.  In `emit_nowait`: about to hand over the getter, or about to count the message as dropped. -/
inductive ProducerPc (α : Type*)
  | idle
  | retrying (message : α)
  | looping (message : α)
  | waiting (message : α) (n : ℕ)
  | handing (getter : ℕ)
  | counting (message : α)

namespace ProducerPc

/-- The number of messages a producer holds that are neither in the buffer nor accounted for. -/
def inHand : ProducerPc α → ℕ
  | idle => 0
  | retrying _ => 1
  | looping _ => 1
  | waiting _ _ => 1
  | handing _ => 0
  | counting _ => 1

/-- The waiter a producer awaits. -/
def awaits : ProducerPc α → Option ℕ
  | waiting _ n => some n
  | _ => none

/-- Go on with the getter a section took over. -/
def hand : Option ℕ → ProducerPc α
  | none => idle
  | some getter => handing getter

@[simp] lemma awaits_idle : (idle : ProducerPc α).awaits = none := rfl

@[simp] lemma awaits_waiting (message : α) (n : ℕ) : (waiting message n).awaits = some n := rfl

@[simp] lemma awaits_hand (getter : Option ℕ) : (hand getter : ProducerPc α).awaits = none := by
  cases getter <;> rfl

@[simp] lemma inHand_hand (getter : Option ℕ) : (hand getter : ProducerPc α).inHand = 0 := by
  cases getter <;> rfl

end ProducerPc

/-- Where the reader stands: outside `__anext__`, awaiting its `n`-th getter, or about to have the
putter it popped resolved. -/
inductive ReaderPc (ι : Type*)
  | idle
  | parked (n : ℕ)
  | posting (putter : ι × ℕ)
  deriving DecidableEq

/-- What happened to a subscription so far.  `held` is the buffer as the last section of
`__anext__` left it and `sinceRead` what was offered after it; `left` is what had been yielded or
was buffered when the subscription was closed; `ended` is set by `StopAsyncIteration`. -/
structure History (α : Type*) where
  offers : ℕ
  refusals : ℕ
  nowaits : ℕ
  entered : List α
  yielded : List α
  held : List α
  sinceRead : List α
  left : List α
  ended : Bool

/-- Nothing has happened. -/
def History.empty : History α where
  offers := 0
  refusals := 0
  nowaits := 0
  entered := []
  yielded := []
  held := []
  sinceRead := []
  left := []
  ended := false

/-- One subscription, its producers and its reader. -/
structure DeliveryState (ι α : Type*) where
  sub : Subscription α ℕ (ι × ℕ)
  history : History α
  producers : ι → ProducerPc α
  reader : ReaderPc ι
  futures : Future ι → FutureState
  -- how many waiters each producer, and how many getters the reader, has created
  waiters : ι → ℕ
  getters : ℕ
  -- `_resolve` callbacks on their way through `call_soon_threadsafe`
  scheduled : List (Future ι)
  -- what `close` took over and has not handed to the loops yet
  closing : List (Future ι)

/-- One step.  `producer` and `reader` go on from wherever the coroutine stands; `resolve` is one
callback run by a loop; `release` is one turn of the loops `close` ends with. -/
inductive DeliveryAction (ι α : Type*)
  | emit (i : ι) (message : α)
  | emitNowait (i : ι) (message : α)
  | producer (i : ι)
  | cancelProducer (i : ι)
  | read
  | reader
  | cancelReader
  | resolve (future : Future ι)
  | close
  | release

namespace DeliveryState

/-- A subscription nobody has used yet. -/
def new (topic : String) (maxsize : ℕ) (maxsize_pos : 0 < maxsize) (policy : Policy) :
    DeliveryState ι α where
  sub := Subscription.new topic maxsize maxsize_pos policy
  history := History.empty
  producers := fun _ => .idle
  reader := .idle
  futures := fun _ => .pending
  waiters := fun _ => 0
  getters := 0
  scheduled := []
  closing := []

/-! ## Steps -/

variable [DecidableEq ι]

/-- Move one producer. -/
def setProducer (s : DeliveryState ι α) (i : ι) (pc : ProducerPc α) : DeliveryState ι α :=
  { s with producers := Function.update s.producers i pc }

/-- A message has entered the buffer and left the subscription as `sub`. -/
def entering (s : DeliveryState ι α) (sub : Subscription α ℕ (ι × ℕ)) (message : α) :
    DeliveryState ι α :=
  { s with
    sub := sub, history := { s.history with entered := s.history.entered ++ [message] } }

/-- A producer runs `_put` and goes on with `again` if that returns false. -/
def putStep (s : DeliveryState ι α) (i : ι) (message : α) (again : ProducerPc α) :
    DeliveryState ι α :=
  match s.sub.put message with
  | (.ignored, _) => s.setProducer i .idle
  | (.discarded, sub) => { s with sub := sub }.setProducer i .idle
  | (.entered getter, sub) => (s.entering sub message).setProducer i (.hand getter)
  | (.wouldBlock, _) => s.setProducer i again
  | (.refused _, _) =>
    { s with history := { s.history with refusals := s.history.refusals + 1 } }.setProducer i .idle

/-- A producer runs the section of the loop of `_offer`. -/
def offerStep (s : DeliveryState ι α) (i : ι) (message : α) : DeliveryState ι α :=
  match s.sub.offerTurn message (i, s.waiters i) with
  | (.returned, _) => s.setProducer i .idle
  | (.entered getter, sub) => (s.entering sub message).setProducer i (.hand getter)
  | (.queued, sub) =>
    { s with
      sub := sub
      waiters := Function.update s.waiters i (s.waiters i + 1) }.setProducer i
        (.waiting message (s.waiters i))

/-- The reader runs the section of the loop of `__anext__`. -/
def nextStep (s : DeliveryState ι α) : DeliveryState ι α :=
  match s.sub.nextTurn s.getters with
  | (.ready item waiting, sub) =>
    { s with
      sub := sub
      history :=
        { s.history with
          yielded := s.history.yielded ++ [item], held := sub.buffer, sinceRead := [] }
      reader := waiting.elim .idle .posting }
  | (.stop, _) => { s with history := { s.history with ended := true }, reader := .idle }
  | (.parked, sub) =>
    { s with
      sub := sub
      history := { s.history with held := [], sinceRead := [] }
      reader := .parked s.getters
      getters := s.getters + 1 }

/-- An offer of `message` is recorded as its first `_put` starts. -/
def offered (s : DeliveryState ι α) (message : α) : DeliveryState ι α :=
  { s with
    history :=
      { s.history with
        offers := s.history.offers + 1, sinceRead := s.history.sinceRead ++ [message] } }

/-- `emit_nowait` starts as `emit` does, and is counted. -/
def offeredNowait (s : DeliveryState ι α) (message : α) : DeliveryState ι α :=
  { s.offered message with
    history := { (s.offered message).history with nowaits := s.history.nowaits + 1 } }

/-- The section of `close`. -/
def closeStep (s : DeliveryState ι α) : DeliveryState ι α :=
  match s.sub.close with
  | (none, _) => s
  | (some (getter, putters), sub) =>
    { s with
      sub := sub
      history := { s.history with left := s.history.yielded ++ s.sub.buffer }
      closing :=
        s.closing ++ (getter.map Future.getter).toList ++ putters.map fun p => .waiter p.1 p.2 }

/-- A producer goes on from where it stands. -/
def producerStep (s : DeliveryState ι α) (i : ι) : Option (DeliveryState ι α) :=
  match s.producers i with
  | .idle => none
  | .retrying message => some (s.putStep i message (.looping message))
  | .looping message => some (s.offerStep i message)
  | .waiting message n =>
    if s.futures (.waiter i n) = .finished then some (s.offerStep i message) else none
  | .handing getter =>
    some ({ s with scheduled := .getter getter :: s.scheduled }.setProducer i .idle)
  | .counting _ =>
    some ({ s with sub := { s.sub with dropped := s.sub.dropped + 1 } }.setProducer i .idle)

/-- The reader goes on from where it stands. -/
def readerStep (s : DeliveryState ι α) : Option (DeliveryState ι α) :=
  match s.reader with
  | .idle => none
  | .parked n => if s.futures (.getter n) = .finished then some s.nextStep else none
  | .posting putter =>
    some { s with scheduled := .waiter putter.1 putter.2 :: s.scheduled, reader := .idle }

/-- The step function. -/
def step (s : DeliveryState ι α) : DeliveryAction ι α → Option (DeliveryState ι α)
  | .emit i message =>
    match s.producers i with
    | .idle => some ((s.offered message).putStep i message (.retrying message))
    | _ => none
  | .emitNowait i message =>
    match s.producers i with
    | .idle => some ((s.offeredNowait message).putStep i message (.counting message))
    | _ => none
  | .producer i => s.producerStep i
  | .cancelProducer i =>
    match s.producers i with
    | .waiting _ n =>
      some ({ s with
        futures := Function.update s.futures (.waiter i n)
          (s.futures (.waiter i n)).cancel }.setProducer i .idle)
    | _ => none
  | .read => if s.reader = .idle then some s.nextStep else none
  | .reader => s.readerStep
  | .cancelReader =>
    match s.reader with
    | .parked n =>
      some { s with
        futures := Function.update s.futures (.getter n) (s.futures (.getter n)).cancel
        reader := .idle }
    | _ => none
  | .resolve future =>
    if future ∈ s.scheduled then
      some { s with
        scheduled := s.scheduled.erase future
        futures := Function.update s.futures future (s.futures future).resolve }
    else none
  | .close => some s.closeStep
  | .release =>
    match s.closing with
    | [] => none
    | future :: closing => some { s with scheduled := future :: s.scheduled, closing := closing }

/-! ## Inversion

What it takes for each action that is not always enabled, and where it leads. -/

section Inversion

variable {s s' : DeliveryState ι α} {i : ι} {message : α}

lemma step_emit (taken : s.step (.emit i message) = some s') :
    s.producers i = .idle ∧ s' = (s.offered message).putStep i message (.retrying message) := by
  simp only [step] at taken
  split at taken
  case h_1 hi => exact ⟨hi, (Option.some.inj taken).symm⟩
  · cases taken

lemma step_emitNowait (taken : s.step (.emitNowait i message) = some s') :
    s.producers i = .idle ∧
      s' = (s.offeredNowait message).putStep i message (.counting message) := by
  simp only [step] at taken
  split at taken
  case h_1 hi => exact ⟨hi, (Option.some.inj taken).symm⟩
  · cases taken

lemma putStep_cases (s : DeliveryState ι α) (i : ι) (message : α) (again : ProducerPc α) :
    (s.sub.closed = true ∧ s.putStep i message again = s.setProducer i .idle) ∨
    (s.sub.closed = false ∧ s.sub.buffer.length < s.sub.maxsize ∧ s.putStep i message again =
      (s.entering (s.sub.enter message) message).setProducer i (.hand s.sub.getter)) ∨
    (s.sub.closed = false ∧ s.sub.maxsize ≤ s.sub.buffer.length ∧
      ((s.sub.policy = .dropNewest ∧ s.putStep i message again =
          { s with sub := { s.sub with dropped := s.sub.dropped + 1 } }.setProducer i .idle) ∨
        (s.sub.policy = .dropOldest ∧ s.putStep i message again =
          (s.entering ({ s.sub with
            buffer := s.sub.buffer.tail, dropped := s.sub.dropped + 1 }.enter message)
              message).setProducer i (.hand s.sub.getter)) ∨
        (s.sub.policy = .error ∧ s.putStep i message again =
          { s with history := { s.history with
            refusals := s.history.refusals + 1 } }.setProducer i .idle) ∨
        (s.sub.policy = .block ∧ s.putStep i message again = s.setProducer i again))) := by
  rcases s.sub.put_cases message with ⟨hclosed, hp⟩ | ⟨hopen, hroom, hp⟩ |
    ⟨hopen, hfull, ⟨hpolicy, hp⟩ | ⟨hpolicy, hp⟩ | ⟨hpolicy, hp⟩ | ⟨hpolicy, hp⟩⟩
  · exact .inl ⟨hclosed, by simp [putStep, hp]⟩
  · exact .inr (.inl ⟨hopen, hroom, by simp [putStep, hp]⟩)
  · exact .inr (.inr ⟨hopen, hfull, .inl ⟨hpolicy, by simp [putStep, hp]⟩⟩)
  · exact .inr (.inr ⟨hopen, hfull, .inr (.inl ⟨hpolicy, by simp [putStep, hp]⟩)⟩)
  · exact .inr (.inr ⟨hopen, hfull, .inr (.inr (.inl ⟨hpolicy, by simp [putStep, hp]⟩))⟩)
  · exact .inr (.inr ⟨hopen, hfull, .inr (.inr (.inr ⟨hpolicy, by simp [putStep, hp]⟩))⟩)

lemma offerStep_cases (s : DeliveryState ι α) (i : ι) (message : α) :
    (s.sub.closed = true ∧ s.offerStep i message = s.setProducer i .idle) ∨
    (s.sub.closed = false ∧ s.sub.buffer.length < s.sub.maxsize ∧ s.offerStep i message =
      (s.entering (s.sub.enter message) message).setProducer i (.hand s.sub.getter)) ∨
    (s.sub.closed = false ∧ s.sub.maxsize ≤ s.sub.buffer.length ∧ s.offerStep i message =
      { s with
        sub := { s.sub with putters := s.sub.putters ++ [(i, s.waiters i)] }
        waiters := Function.update s.waiters i (s.waiters i + 1) }.setProducer i
          (.waiting message (s.waiters i))) := by
  rcases s.sub.offerTurn_cases message (i, s.waiters i) with ⟨hclosed, hp⟩ | ⟨hopen, hroom, hp⟩ |
    ⟨hopen, hfull, hp⟩
  · exact .inl ⟨hclosed, by simp [offerStep, hp]⟩
  · exact .inr (.inl ⟨hopen, hroom, by simp [offerStep, hp]⟩)
  · exact .inr (.inr ⟨hopen, hfull, by simp [offerStep, hp]⟩)

omit [DecidableEq ι] in
lemma nextStep_cases (s : DeliveryState ι α) :
    (∃ item buffer, s.sub.buffer = item :: buffer ∧ s.nextStep =
      { s with
        sub := { s.sub with buffer := buffer, putters := s.sub.putters.tail }
        history :=
          { s.history with
            yielded := s.history.yielded ++ [item], held := buffer, sinceRead := [] }
        reader := s.sub.putters.head?.elim .idle .posting }) ∨
    (s.sub.buffer = [] ∧ s.sub.closed = true ∧ s.nextStep =
      { s with history := { s.history with ended := true }, reader := .idle }) ∨
    (s.sub.buffer = [] ∧ s.sub.closed = false ∧ s.nextStep =
      { s with
        sub := { s.sub with getter := some s.getters }
        history := { s.history with held := [], sinceRead := [] }
        reader := .parked s.getters
        getters := s.getters + 1 }) := by
  rcases s.sub.nextTurn_cases s.getters with ⟨item, buffer, hbuffer, hp⟩ | ⟨hbuffer, hclosed, hp⟩ |
    ⟨hbuffer, hopen, hp⟩
  · exact .inl ⟨item, buffer, hbuffer, by simp [nextStep, hp]⟩
  · exact .inr (.inl ⟨hbuffer, hclosed, by simp [nextStep, hp]⟩)
  · exact .inr (.inr ⟨hbuffer, hopen, by simp [nextStep, hp]⟩)

omit [DecidableEq ι] in
lemma closeStep_cases (s : DeliveryState ι α) :
    (s.sub.closed = true ∧ s.closeStep = s) ∨
    (s.sub.closed = false ∧ s.closeStep =
      { s with
        sub := { s.sub with closed := true, getter := none, putters := [] }
        history := { s.history with left := s.history.yielded ++ s.sub.buffer }
        closing := s.closing ++ (s.sub.getter.map Future.getter).toList ++
          s.sub.putters.map fun p => .waiter p.1 p.2 }) := by
  cases hclosed : s.sub.closed with
  | true => exact .inl ⟨rfl, by simp [closeStep, Subscription.close, hclosed]⟩
  | false => exact .inr ⟨rfl, by simp [closeStep, Subscription.close, hclosed]⟩

lemma producerStep_cases (taken : s.producerStep i = some s') :
    (∃ message, s.producers i = .retrying message ∧
      s' = s.putStep i message (.looping message)) ∨
    (∃ message, (s.producers i = .looping message ∨
        ∃ n, s.producers i = .waiting message n ∧ s.futures (.waiter i n) = .finished) ∧
      s' = s.offerStep i message) ∨
    (∃ getter, s.producers i = .handing getter ∧
      s' = { s with scheduled := .getter getter :: s.scheduled }.setProducer i .idle) ∨
    (∃ message, s.producers i = .counting message ∧
      s' = { s with sub := { s.sub with dropped := s.sub.dropped + 1 } }.setProducer i .idle) := by
  unfold producerStep at taken
  split at taken
  · cases taken
  case h_2 message hi => exact .inl ⟨message, hi, (Option.some.inj taken).symm⟩
  case h_3 message hi => exact .inr (.inl ⟨message, .inl hi, (Option.some.inj taken).symm⟩)
  case h_4 message n hi =>
    obtain ⟨hn, rfl⟩ := of_guard taken
    exact .inr (.inl ⟨message, .inr ⟨n, hi, hn⟩, rfl⟩)
  case h_5 getter hi =>
    exact .inr (.inr (.inl ⟨getter, hi, (Option.some.inj taken).symm⟩))
  case h_6 message hi =>
    exact .inr (.inr (.inr ⟨message, hi, (Option.some.inj taken).symm⟩))

lemma step_cancelProducer (taken : s.step (.cancelProducer i) = some s') :
    ∃ message n, s.producers i = .waiting message n ∧
      s' = { s with
        futures := Function.update s.futures (.waiter i n)
          (s.futures (.waiter i n)).cancel }.setProducer i .idle := by
  simp only [step] at taken
  split at taken
  case h_1 message n hi => exact ⟨message, n, hi, (Option.some.inj taken).symm⟩
  · cases taken

omit [DecidableEq ι] in
lemma readerStep_cases (taken : s.readerStep = some s') :
    (∃ n, s.reader = .parked n ∧ s.futures (.getter n) = .finished ∧ s' = s.nextStep) ∨
    (∃ putter, s.reader = .posting putter ∧
      s' = { s with
        scheduled := .waiter putter.1 putter.2 :: s.scheduled, reader := .idle }) := by
  unfold readerStep at taken
  split at taken
  · cases taken
  case h_2 n hreader =>
    obtain ⟨hn, rfl⟩ := of_guard taken
    exact .inl ⟨n, hreader, hn, rfl⟩
  case h_3 putter hreader => exact .inr ⟨putter, hreader, (Option.some.inj taken).symm⟩

lemma step_cancelReader (taken : s.step .cancelReader = some s') :
    ∃ n, s.reader = .parked n ∧
      s' = { s with
        futures := Function.update s.futures (.getter n) (s.futures (.getter n)).cancel
        reader := .idle } := by
  simp only [step] at taken
  split at taken
  case h_1 n hreader => exact ⟨n, hreader, (Option.some.inj taken).symm⟩
  · cases taken

lemma step_release (taken : s.step .release = some s') :
    ∃ future closing, s.closing = future :: closing ∧
      s' = { s with scheduled := future :: s.scheduled, closing := closing } := by
  simp only [step] at taken
  split at taken
  · cases taken
  case h_2 future closing hclosing =>
    exact ⟨future, closing, hclosing, (Option.some.inj taken).symm⟩

end Inversion

end DeliveryState

end Oxbrook
