import Mathlib.Data.List.Infix

/-!
# Producers that are polled

A producer makes items out of a stream.  A poll of it takes all that the stream has and gives an item, or is pending
if none is left.  What it makes depends on what the stream had at each poll, so `yields` is a function of the batches
it took, and later batches only add to it.

`poll_cases` describes a poll by what the producer will have made when the stream is over: it gives the next item of
that, or it is pending, and this only while there are batches to come.
-/

namespace Polling

/-- What a stream has for a poll: a chunk, or its end. -/
inductive Arrival (α : Type)
  | chunk (bytes : α)
  | ended

structure Producer (α β : Type) where
  yields : List (List (Arrival α)) → List β
  more : ∀ past batch, yields past <+: yields (past ++ [batch])

/-- The batches a producer took, how many of its items were given, and whether it saw the end of the stream. -/
structure State (α : Type) where
  past : List (List (Arrival α))
  given : ℕ
  ended : Bool

/-- The stream: chunks that wait, and whether its end does. -/
structure Stream (α : Type) where
  chunks : List α
  done : Bool

variable {α β : Type}

def State.start : State α := ⟨[], 0, false⟩

def Stream.start : Stream α := ⟨[], false⟩

/-- What the stream has that the producer did not see. -/
def Stream.ready (stream : Stream α) (s : State α) : List (Arrival α) :=
  stream.chunks.map Arrival.chunk ++ if stream.done && ! s.ended then [Arrival.ended] else []

/-- The producer takes what the stream has. -/
def State.take (s : State α) (stream : Stream α) : State α where
  past := if (stream.ready s).isEmpty then s.past else s.past ++ [stream.ready s]
  given := s.given
  ended := s.ended || stream.done

/-- An item is given. -/
def State.next (s : State α) : State α := { s with given := s.given + 1 }

/-- The stream after a poll. -/
def Stream.drained (stream : Stream α) : Stream α := { stream with chunks := [] }

def Stream.push (stream : Stream α) (bytes : α) : Stream α := { stream with chunks := stream.chunks ++ [bytes] }

def Stream.finish (stream : Stream α) : Stream α := { stream with done := true }

/-! ## What a poll takes -/

variable {s : State α} {stream : Stream α}

lemma take_drained : (s.take stream).take stream.drained = s.take stream := by
  have hready : stream.drained.ready (s.take stream) = [] := by
    cases hdone : stream.done with
    | false => simp [Stream.ready, Stream.drained, State.take, hdone]
    | true => simp [Stream.ready, Stream.drained, State.take, hdone]
  have hended : (s.ended || stream.done || stream.done) = (s.ended || stream.done) := by
    rw [Bool.or_assoc, Bool.or_self]
  unfold State.take at hready ⊢
  rw [hready]
  simp [Stream.drained]

lemma past_next_take : ((s.take stream).next.take stream.drained).past = (s.take stream).past := by
  have h : ((s.take stream).take stream.drained).past = (s.take stream).past := by rw [take_drained]
  exact h

lemma past_take_push (bytes : α) (opened : stream.done = false) :
    ((s.take stream).take (stream.drained.push bytes)).past = (s.take stream).past ++ [[.chunk bytes]] := by
  simp [State.take, Stream.ready, Stream.drained, Stream.push, opened]

lemma past_take_finish (opened : stream.done = false) (h : s.ended = false) :
    ((s.take stream).take stream.drained.finish).past = (s.take stream).past ++ [[.ended]] := by
  simp [State.take, Stream.ready, Stream.drained, Stream.finish, opened, h]

/-! ## Polls -/

namespace Producer

variable (p : Producer α β)

/-- The items that are there to be given. -/
def available (s : State α) : List β := (p.yields s.past).drop s.given

/-- A poll: the next item past those to be skipped, or that the producer is pending. -/
def poll (skip : β → Bool) (s : State α) (stream : Stream α) : Option β × State α :=
  let s := s.take stream
  let skipped := ((p.available s).takeWhile skip).length
  match (p.available s).dropWhile skip with
  | [] => (none, { s with given := s.given + skipped })
  | item :: _ => (some item, { s with given := s.given + skipped + 1 })

/-- What a producer made it does not take back. -/
lemma yields_append (past rest : List (List (Arrival α))) : p.yields past <+: p.yields (past ++ rest) := by
  induction rest generalizing past with
  | nil => rw [List.append_nil]
  | cons batch rest ih =>
    have hstep := p.more past batch
    have hrest := ih (past ++ [batch])
    rw [List.append_assoc, List.singleton_append] at hrest
    exact hstep.trans hrest

/-- **A poll gives the next item, or it is pending and batches are to come.** -/
theorem poll_cases {skip : β → Bool} {rest whole : List (List (Arrival α))}
    (hwhole : (s.take stream).past ++ rest = whole)
    (hskip : ∀ item ∈ ((p.yields whole).drop s.given).head?, skip item = false) :
    (p.poll skip s stream = (none, s.take stream) ∧ (rest = [] → (p.yields whole).drop s.given = [])) ∨
      ∃ item, (p.yields whole).drop s.given = item :: (p.yields whole).drop (s.given + 1) ∧
        p.poll skip s stream = (some item, (s.take stream).next) := by
  have hpast : p.yields (s.take stream).past <+: p.yields whole := by
    rw [← hwhole]
    exact p.yields_append ..
  have hthere : p.available (s.take stream) <+: (p.yields whole).drop s.given := hpast.drop s.given
  cases hitems : p.available (s.take stream) with
  | nil =>
    left
    constructor
    · simp [poll, hitems]
    · rintro rfl
      rw [List.append_nil] at hwhole
      rw [← hwhole]
      exact hitems
  | cons item items =>
    right
    rw [hitems] at hthere
    obtain ⟨later, hlater⟩ := hthere
    have hhead : (p.yields whole).drop s.given = item :: (items ++ later) := hlater.symm
    have hkept : skip item = false := hskip item (by rw [hhead]; rfl)
    refine ⟨item, ?_, ?_⟩
    · rw [hhead, ← List.drop_drop, hhead]
      rfl
    · simp [poll, hitems, hkept]
      rfl

/-- The chunks before the end of a stream, if it has one. -/
def beforeEnd : List (Arrival α) → Option (List α)
  | [] => none
  | .ended :: _ => some []
  | .chunk bytes :: arrivals => (beforeEnd arrivals).map (bytes :: ·)

lemma beforeEnd_append {arrivals : List (Arrival α)} {chunks : List α} (h : beforeEnd arrivals = some chunks)
    (later : List (Arrival α)) : beforeEnd (arrivals ++ later) = some chunks := by
  induction arrivals generalizing chunks with
  | nil => cases h
  | cons arrival arrivals ih =>
    cases arrival with
    | ended => exact h
    | chunk bytes =>
      obtain ⟨rest, hrest, rfl⟩ := Option.map_eq_some_iff.mp h
      change (beforeEnd (arrivals ++ later)).map (bytes :: ·) = some (bytes :: rest)
      rw [ih hrest]
      rfl

lemma beforeEnd_of_complete (chunks : List α) : beforeEnd (chunks.map Arrival.chunk ++ [.ended]) = some chunks := by
  induction chunks with
  | nil => rfl
  | cons bytes chunks ih =>
    change (beforeEnd (chunks.map Arrival.chunk ++ [.ended])).map (bytes :: ·) = some (bytes :: chunks)
    rw [ih]
    rfl

/-- The producer that makes nothing before the stream is over. -/
def atEnd (items : List α → List β) : Producer α β where
  yields past := ((beforeEnd past.flatten).map items).getD []
  more past batch := by
    rw [List.flatten_append]
    cases h : beforeEnd past.flatten with
    | none => exact List.nil_prefix
    | some chunks =>
      rw [beforeEnd_append h]

end Producer

end Polling
