import Mathlib.Data.List.DropRight
import Mathlib.Data.List.Sublists

/-!
# Subscriptions

The buffer of one subscriber of a topic, as `Subscription` keeps it: a bounded queue with an
overflow policy, the future of a reader waiting for a message, and the futures of the producers
waiting for room.  Each function here is one section the source runs under the subscription's lock,
together with what the section tells the code after it.

The futures are opaque tokens at this level, `γ` for a reader's getter and `ω` for an entry of
`_putters`; resolving them is left to the loops they belong to.
-/

namespace Oxbrook

/-- What a subscription does with a message that finds its buffer full. -/
inductive Policy
  | dropOldest
  | dropNewest
  | block
  | error
  deriving DecidableEq, Repr

/-- The error raised at a producer by a full `error` subscription: the topic and the number of
messages its text names. -/
structure TopicFull where
  topic : String
  buffered : ℕ
  deriving DecidableEq, Repr

/-- The locked part of a subscription. -/
structure Subscription (α γ ω : Type*) where
  topic : String
  maxsize : ℕ
  maxsize_pos : 0 < maxsize
  policy : Policy
  dropped : ℕ
  buffer : List α
  getter : Option γ
  putters : List ω
  closed : Bool

/-- How the section of `_put` ends.  The first three make `_put` return true: the subscription is
closed, the message is dropped for this subscriber, or it entered the buffer and the getter taken
over is to be resolved.  `wouldBlock` makes it return false, `refused` makes it raise. -/
inductive PutResult (γ : Type*)
  | ignored
  | discarded
  | entered (getter : Option γ)
  | wouldBlock
  | refused (error : TopicFull)

/-- How one pass through the loop of `_offer` ends: the subscription is closed, the message entered
the buffer, or the producer's waiter was queued. -/
inductive OfferResult (γ : Type*)
  | returned
  | entered (getter : Option γ)
  | queued

/-- How one pass through the loop of `__anext__` ends: with an item and the putter to wake, with
`StopAsyncIteration`, or with the reader about to await its getter. -/
inductive NextResult (α ω : Type*)
  | ready (item : α) (waiting : Option ω)
  | stop
  | parked

namespace Subscription

variable {α γ ω : Type*}

/-- `Subscription(topic, maxsize, policy, …)`. -/
def new (topic : String) (maxsize : ℕ) (maxsize_pos : 0 < maxsize) (policy : Policy) :
    Subscription α γ ω where
  topic := topic
  maxsize := maxsize
  maxsize_pos := maxsize_pos
  policy := policy
  dropped := 0
  buffer := []
  getter := none
  putters := []
  closed := false

/-- `pending`. -/
def pending (sub : Subscription α γ ω) : ℕ :=
  sub.buffer.length

/-- Append an item and take the getter over. -/
def enter (sub : Subscription α γ ω) (item : α) : Subscription α γ ω :=
  { sub with buffer := sub.buffer ++ [item], getter := none }

/-- The section of `_put`. -/
def put (sub : Subscription α γ ω) (item : α) : PutResult γ × Subscription α γ ω :=
  if sub.closed then (.ignored, sub)
  else if sub.maxsize ≤ sub.buffer.length then
    match sub.policy with
    | .dropNewest => (.discarded, { sub with dropped := sub.dropped + 1 })
    | .dropOldest =>
      (.entered sub.getter,
        { sub with buffer := sub.buffer.tail, dropped := sub.dropped + 1 }.enter item)
    | .error => (.refused ⟨sub.topic, sub.maxsize⟩, sub)
    | .block => (.wouldBlock, sub)
  else (.entered sub.getter, sub.enter item)

/-- The section of the loop of `_offer`, for a producer that would wait on `waiter`. -/
def offerTurn (sub : Subscription α γ ω) (item : α) (waiter : ω) :
    OfferResult γ × Subscription α γ ω :=
  if sub.closed then (.returned, sub)
  else if sub.buffer.length < sub.maxsize then (.entered sub.getter, sub.enter item)
  else (.queued, { sub with putters := sub.putters ++ [waiter] })

/-- The section of `close`: the getter and the putters to release, or `none` if the subscription
was closed before. -/
def close (sub : Subscription α γ ω) : Option (Option γ × List ω) × Subscription α γ ω :=
  if sub.closed then (none, sub)
  else (some (sub.getter, sub.putters), { sub with closed := true, getter := none, putters := [] })

/-- The section of the loop of `__anext__`, for a reader that would wait on `getter`. -/
def nextTurn (sub : Subscription α γ ω) (getter : γ) : NextResult α ω × Subscription α γ ω :=
  match sub.buffer with
  | item :: buffer =>
    (.ready item sub.putters.head?, { sub with buffer := buffer, putters := sub.putters.tail })
  | [] =>
    if sub.closed then (.stop, sub)
    else (.parked, { sub with getter := some getter })

/-! ## What the sections do -/

variable {sub sub' : Subscription α γ ω} {item : α}

/-- Everything the section of `_put` can do. -/
theorem put_cases (sub : Subscription α γ ω) (item : α) :
    (sub.closed = true ∧ sub.put item = (.ignored, sub)) ∨
    (sub.closed = false ∧ sub.buffer.length < sub.maxsize ∧
      sub.put item = (.entered sub.getter, sub.enter item)) ∨
    (sub.closed = false ∧ sub.maxsize ≤ sub.buffer.length ∧
      ((sub.policy = .dropNewest ∧
          sub.put item = (.discarded, { sub with dropped := sub.dropped + 1 })) ∨
        (sub.policy = .dropOldest ∧ sub.put item = (.entered sub.getter,
          { sub with buffer := sub.buffer.tail, dropped := sub.dropped + 1 }.enter item)) ∨
        (sub.policy = .error ∧ sub.put item = (.refused ⟨sub.topic, sub.maxsize⟩, sub)) ∨
        (sub.policy = .block ∧ sub.put item = (.wouldBlock, sub)))) := by
  cases hclosed : sub.closed with
  | true => exact .inl ⟨rfl, by simp [put, hclosed]⟩
  | false =>
    rcases Nat.lt_or_ge sub.buffer.length sub.maxsize with hroom | hfull
    · exact .inr (.inl ⟨rfl, hroom, by simp [put, hclosed, Nat.not_le.mpr hroom]⟩)
    · refine .inr (.inr ⟨rfl, hfull, ?_⟩)
      cases hpolicy : sub.policy <;> simp [put, hclosed, hfull, hpolicy]

/-- Everything one pass through the loop of `_offer` can do. -/
theorem offerTurn_cases (sub : Subscription α γ ω) (item : α) (waiter : ω) :
    (sub.closed = true ∧ sub.offerTurn item waiter = (.returned, sub)) ∨
    (sub.closed = false ∧ sub.buffer.length < sub.maxsize ∧
      sub.offerTurn item waiter = (.entered sub.getter, sub.enter item)) ∨
    (sub.closed = false ∧ sub.maxsize ≤ sub.buffer.length ∧
      sub.offerTurn item waiter = (.queued, { sub with putters := sub.putters ++ [waiter] })) := by
  cases hclosed : sub.closed with
  | true => exact .inl ⟨rfl, by simp [offerTurn, hclosed]⟩
  | false =>
    rcases Nat.lt_or_ge sub.buffer.length sub.maxsize with hroom | hfull
    · exact .inr (.inl ⟨rfl, hroom, by simp [offerTurn, hclosed, hroom]⟩)
    · exact .inr (.inr ⟨rfl, hfull, by simp [offerTurn, hclosed, Nat.not_lt.mpr hfull]⟩)

/-- Everything one pass through the loop of `__anext__` can do. -/
theorem nextTurn_cases (sub : Subscription α γ ω) (getter : γ) :
    (∃ item buffer, sub.buffer = item :: buffer ∧ sub.nextTurn getter =
      (.ready item sub.putters.head?,
        { sub with buffer := buffer, putters := sub.putters.tail })) ∨
    (sub.buffer = [] ∧ sub.closed = true ∧ sub.nextTurn getter = (.stop, sub)) ∨
    (sub.buffer = [] ∧ sub.closed = false ∧
      sub.nextTurn getter = (.parked, { sub with getter := some getter })) := by
  cases hbuffer : sub.buffer with
  | cons item buffer => exact .inl ⟨item, buffer, rfl, by simp [nextTurn, hbuffer]⟩
  | nil =>
    cases hclosed : sub.closed with
    | true => exact .inr (.inl ⟨rfl, rfl, by simp [nextTurn, hbuffer, hclosed]⟩)
    | false => exact .inr (.inr ⟨rfl, rfl, by simp [nextTurn, hbuffer, hclosed]⟩)

end Subscription

end Oxbrook
