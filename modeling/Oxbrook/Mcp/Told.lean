import Oxbrook.Mcp.Feed

/-!
# Nothing unread in silence

A session that follows a topic is told when there is something to read, unless it was told before and has not read
since.  `told_of_unread` says when that is so: in the runs in which every notification meets an open stream, and in
which the pump never finds the latch set while a read is between emptying the buffer and opening the latch.
-/

namespace Oxbrook

open StepMachine

variable {ι : Type*}

namespace FeedState

/-- The pump waits for the topic, and no read is under way. -/
def Quiescent (s : FeedState ι) : Prop := s.pump = .waiting ∧ ∀ i, s.takes i = .idle

/-- If the feed is quiescent, holds something, and the session has an open stream, then a notification was put on a
stream since the last read. -/
def Told (s : FeedState ι) : Prop := s.Quiescent → s.buffer ≠ [] → 0 < s.streams → s.told = true

/-- The steps that do not go wrong: `post` finds a channel, and the channel a stream; and the latch that keeps the
pump from saying anything is not about to be opened by a read that missed the message. -/
def Heard (s : FeedState ι) : FeedAction ι → Prop
  | .readChannel => s.channel = true
  | .emit => 0 < s.streams
  | .testLatch => s.notified = true → ∀ i, s.takes i ≠ .cleared
  | _ => True

instance [Fintype ι] (s : FeedState ι) (a : FeedAction ι) : Decidable (s.Heard a) :=
  match a with
  | .readChannel => inferInstanceAs (Decidable (s.channel = true))
  | .emit => inferInstanceAs (Decidable (0 < s.streams))
  | .testLatch => inferInstanceAs (Decidable (s.notified = true → ∀ i, s.takes i ≠ .cleared))
  | .append | .setLatch | .copy _ | .clear _ | .resetLatch _ | .outbound | .subscribe | .leave =>
    inferInstanceAs (Decidable True)

/-! ## The invariant -/

/-- Whoever may still speak for a message in the buffer: the notification on a stream, a read that has not yet emptied
the buffer, or the pump on its way to the stream. -/
def SpokenFor (s : FeedState ι) : Prop := s.told = true ∨ (∃ i, s.takes i = .copied) ∨ s.pump ≠ .waiting

/-- The latch is set by the pump on its way to the stream, and stands until a read that is under way opens it. -/
def Latched (s : FeedState ι) : Prop :=
  s.told = true ∨ (∃ i, s.takes i ≠ .idle) ∨ s.pump = .posting ∨ s.pump = .emitting

structure Attended (s : FeedState ι) : Prop where
  unread : s.buffer ≠ [] → s.SpokenFor
  latch : s.notified = true → s.Latched

lemma attended_new : (new : FeedState ι).Attended := ⟨fun h => absurd rfl h, nofun⟩

lemma Attended.told {s : FeedState ι} (h : s.Attended) : s.Told := by
  rintro ⟨hwaiting, hidle⟩ hbuffer -
  obtain htold | ⟨i, hi⟩ | hpump := h.unread hbuffer
  · exact htold
  · rw [hidle i] at hi
    cases hi
  · exact absurd hwaiting hpump

/-- The latch is found set while the pump has a message: the message is spoken for, as long as no read is past its
`clear`. -/
lemma Attended.spoken_of_latched {s : FeedState ι} (h : s.Attended) (hpump : s.pump = .appended)
    (hnotified : s.notified = true) (hcleared : ∀ i, s.takes i ≠ .cleared) :
    s.told = true ∨ ∃ i, s.takes i = .copied := by
  obtain htold | ⟨i, hi⟩ | hposting | hemitting := h.latch hnotified
  · exact .inl htold
  · right
    refine ⟨i, ?_⟩
    cases htake : s.takes i with
    | idle => exact absurd htake hi
    | copied => rfl
    | cleared => exact absurd htake (hcleared i)
  · rw [hpump] at hposting
    cases hposting
  · rw [hpump] at hemitting
    cases hemitting

variable [DecidableEq ι]

/-- One step. -/
lemma Attended.step {size : ℕ} {s s' : FeedState ι} {a : FeedAction ι} (h : s.Attended) (heard : s.Heard a)
    (taken : s.step size a = some s') : s'.Attended := by
  cases a with
  | append =>
    obtain ⟨hpump, rfl⟩ := of_guard taken
    constructor
    · intro _
      exact .inr (.inr (by simp))
    · intro hnotified
      simp only [append_notified] at hnotified
      obtain htold | hreader | hposting | hemitting := h.latch hnotified
      · exact .inl (by simpa using htold)
      · exact .inr (.inl (by simpa using hreader))
      · rw [hpump] at hposting
        cases hposting
      · rw [hpump] at hemitting
        cases hemitting
  | testLatch =>
    obtain ⟨hpump, rfl⟩ := of_guard taken
    cases hnotified : s.notified with
    | false =>
      constructor
      · intro _
        exact .inr (.inr (by simp))
      · nofun
    | true =>
      have hspoken := h.spoken_of_latched hpump hnotified (heard hnotified)
      constructor
      · intro _
        exact hspoken.imp_right .inl
      · intro _
        refine hspoken.imp_right fun ⟨i, hi⟩ => .inl ⟨i, ?_⟩
        rw [hi]
        nofun
  | setLatch =>
    obtain ⟨-, rfl⟩ := of_guard taken
    exact ⟨fun _ => .inr (.inr nofun), fun _ => .inr (.inr (.inl rfl))⟩
  | readChannel =>
    obtain ⟨-, rfl⟩ := of_guard taken
    have hchannel : s.channel = true := heard
    constructor
    · intro _
      exact .inr (.inr (by simp [hchannel]))
    · intro _
      exact .inr (.inr (.inr (by simp [hchannel])))
  | emit =>
    obtain ⟨-, rfl⟩ := of_guard taken
    have hstreams : 0 < s.streams := heard
    have htold : (s.told || decide (0 < s.streams)) = true := by simp [hstreams]
    exact ⟨fun _ => .inl htold, fun _ => .inl htold⟩
  | copy i =>
    obtain ⟨-, rfl⟩ := of_guard taken
    constructor
    · intro _
      exact .inr (.inl ⟨i, by simp⟩)
    · intro _
      exact .inr (.inl ⟨i, by simp⟩)
  | clear i =>
    obtain ⟨-, rfl⟩ := of_guard taken
    constructor
    · intro hbuffer
      exact absurd rfl hbuffer
    · intro _
      exact .inr (.inl ⟨i, by simp⟩)
  | resetLatch i =>
    obtain ⟨hcleared, rfl⟩ := of_guard taken
    constructor
    · intro hbuffer
      obtain htold | ⟨j, hj⟩ | hpump := h.unread hbuffer
      · exact .inl htold
      · have hne : j ≠ i := by
          rintro rfl
          rw [hcleared] at hj
          cases hj
        exact .inr (.inl ⟨j, by simpa [hne] using hj⟩)
      · exact .inr (.inr hpump)
    · nofun
  | outbound =>
    cases taken
    exact ⟨h.unread, h.latch⟩
  | subscribe =>
    obtain ⟨-, rfl⟩ := of_guard taken
    exact ⟨h.unread, h.latch⟩
  | leave =>
    obtain ⟨-, rfl⟩ := of_guard taken
    exact ⟨h.unread, h.latch⟩

/-! ## What a run says -/

/-- **Nothing unread in silence.**  In a run all of whose notifications are heard, a quiescent feed that holds something
has told an open stream of it since the last read. -/
theorem told_of_unread {size : ℕ} {s : FeedState ι} (run : Reaches (step size) Heard new s) : s.Told :=
  (run.invariant attended_new fun _ _ _ h heard taken => h.step heard taken).told

/-- A stream is open, a message arrives, is read, and another arrives. -/
theorem told_again :
    ∃ s : FeedState (Fin 1), Reaches (step feedBuffer) Heard new s ∧ s.buffer = [1] ∧ s.Told := by
  have run : Reaches (step feedBuffer) Heard new (_ : FeedState (Fin 1)) :=
    Reaches.of_exec
      [.outbound, .subscribe, .append, .testLatch, .setLatch, .readChannel, .emit, .copy 0, .clear 0, .resetLatch 0,
        .append, .testLatch, .setLatch, .readChannel, .emit] rfl
  exact ⟨_, run, rfl, told_of_unread run⟩

/-- A message that arrives before the first stream is open sets the latch and tells nobody; the stream that opens
afterwards is told neither of this message nor of the next.  And with a stream open all the while, the message that
arrives between the `clear` of a read and its reset of the latch is not announced. -/
theorem unread_in_silence :
    (∃ s : FeedState (Fin 1), Reachable (step feedBuffer) new s ∧ s.buffer = [0, 1] ∧ s.streams = 1 ∧ s.returned = [] ∧
      ¬ s.Told) ∧
    ∃ s : FeedState (Fin 1), Reachable (step feedBuffer) new s ∧ s.buffer = [1] ∧ s.streams = 1 ∧ s.notified = false ∧
      ¬ s.Told := by
  constructor
  · refine ⟨_, Reachable.of_exec [.append, .testLatch, .setLatch, .readChannel, .outbound, .subscribe, .append,
      .testLatch] rfl, rfl, rfl, rfl, ?_⟩
    intro h
    cases h ⟨rfl, fun _ => rfl⟩ nofun Nat.one_pos
  · refine ⟨_, Reachable.of_exec [.outbound, .subscribe, .append, .testLatch, .setLatch, .readChannel, .emit, .copy 0,
      .clear 0, .append, .testLatch, .resetLatch 0] rfl, rfl, rfl, rfl, ?_⟩
    intro h
    cases h ⟨rfl, fun i => by rw [Fin.fin_one_eq_zero i]; rfl⟩ nofun Nat.one_pos

end FeedState

end Oxbrook
