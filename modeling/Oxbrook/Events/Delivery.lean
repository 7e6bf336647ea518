import Oxbrook.Events.Pump
import Oxbrook.Events.RoundTrip

/-!
# Items are delivered once

What the connection accepts is a prefix of the source.  As long as the pump is `Aligned`, it has read exactly what
was accepted, but for one item in its hand.  There is one way out of this: a chunk that is refused again after the
client has left is given up, and the pump turns to its next read.  Then the client is gone, the pump is `Adrift`,
and nothing more is sent.
-/

namespace Oxbrook

open StepMachine

variable {α ρ ε κ : Type*} {p : SsePump α ρ ε κ} {s t : SseState (SseItem α ρ) κ} {a : SseAction}

namespace SsePump

/-! ## Aligned -/

/-- The connection accepted the first items of the source. -/
def Delivered (p : SsePump α ρ ε κ) (s : SseState (SseItem α ρ) κ) : Prop :=
  (List.range s.events.length).map p.chunkAt = s.events.map some

/-- An item that was read and not accepted yet. -/
def inHand (s : SseState (SseItem α ρ) κ) : ℕ :=
  match s.read, s.pc with
  | .answered _, _ => 1
  | _, .room _ => 1
  | _, _ => 0

/-- The pump has read what was accepted and what is in its hand. -/
structure Aligned (p : SsePump α ρ ε κ) (s : SseState (SseItem α ρ) κ) : Prop where
  exact : s.pc ≠ .done → s.taken = s.events.length + inHand s
  bound : s.taken ≤ s.events.length + 1
  outstanding : s.read = .outstanding → s.taken = s.events.length
  answered : ∀ y, s.read = .answered y → p.source s.events.length = y
  room : ∀ chunk, s.pc = .room chunk → s.read = .idle ∧ p.chunkAt s.events.length = some chunk

/-- The client is gone and the pump holds no chunk. -/
def Adrift (s : SseState (SseItem α ρ) κ) : Prop := s.gone = true ∧ ∀ chunk, s.pc ≠ .room chunk

lemma aligned_new : p.Aligned p.new := by
  constructor <;> simp [new, SseState.events, inHand]

/-- A step that changes neither the reads nor what was sent, and stays where it is. -/
lemma Aligned.congr (h : p.Aligned s) (hpc : t.pc = s.pc) (hread : t.read = s.read) (htaken : t.taken = s.taken)
    (hsent : t.sent = s.sent) : p.Aligned t := by
  obtain ⟨pc, read, gone, taken, sent, begun, ended, cancelling, registered⟩ := s
  obtain ⟨pc', read', gone', taken', sent', begun', ended', cancelling', registered'⟩ := t
  obtain ⟨rfl, rfl, rfl, rfl⟩ : pc' = pc ∧ read' = read ∧ taken' = taken ∧ sent' = sent :=
    ⟨hpc, hread, htaken, hsent⟩
  exact ⟨h.exact, h.bound, h.outstanding, h.answered, h.room⟩

/-- Nothing was read but what was accepted. -/
lemma aligned_of_taken (hanswered : ∀ y, s.read ≠ .answered y) (hroom : ∀ chunk, s.pc ≠ .room chunk)
    (htaken : s.taken = s.events.length) : p.Aligned s := by
  have hhand : inHand s = 0 := by
    cases hread : s.read with
    | answered y => exact absurd hread (hanswered y)
    | idle | outstanding =>
      cases hpc : s.pc with
      | room chunk => exact absurd hpc (hroom chunk)
      | ready | top | waiting | done => simp [inHand, hread, hpc]
  refine ⟨fun _ => ?_, htaken.le.trans (Nat.le_succ _), fun _ => htaken, ?_, ?_⟩
  · rw [htaken, hhand, Nat.add_zero]
  · exact fun y hread => absurd hread (hanswered y)
  · exact fun chunk hpc => absurd hpc (hroom chunk)

/-- The end of the pump. -/
lemma Aligned.finish (h : p.Aligned s) : p.Aligned (p.finish s) :=
  ⟨fun hpc => absurd rfl hpc, h.bound, h.outstanding, h.answered, nofun⟩

/-- A response that is not refused. -/
lemma Aligned.accept (h : p.Aligned s) (hpc : s.pc = .ready) : p.Aligned { s with pc := .top } := by
  have hexact := h.exact (by rw [hpc]; nofun)
  have hhand : inHand { s with pc := .top } = inHand s := by
    cases hread : s.read with
    | idle | outstanding | answered => simp [inHand, hread, hpc]
  exact ⟨fun _ => hexact.trans (congrArg _ hhand.symm), h.bound, h.outstanding, h.answered, nofun⟩

lemma Aligned.start (h : p.Aligned s) (hpc : s.pc = .top) :
    p.Aligned { s with pc := .waiting, read := s.read.started } := by
  have hexact := h.exact (by rw [hpc]; nofun)
  cases hread : s.read with
  | idle =>
    simp only [inHand, hread, hpc] at hexact
    exact aligned_of_taken nofun nofun hexact
  | outstanding => exact aligned_of_taken nofun nofun (h.outstanding hread)
  | answered y =>
    simp only [inHand, hread] at hexact
    refine ⟨fun _ => hexact, h.bound, nofun, ?_, nofun⟩
    rintro _ ⟨⟩
    exact h.answered y hread

/-- The source answers. -/
lemma Aligned.answer (h : p.Aligned s) (hread : s.read = .outstanding) : p.Aligned (p.answered s) := by
  have htaken := h.outstanding hread
  have hroom : ∀ chunk, s.pc ≠ .room chunk := by
    intro chunk hpc
    have hidle := (h.room chunk hpc).1
    rw [hread] at hidle
    exact absurd hidle nofun
  have hnext : p.Aligned { s with read := .answered (p.source s.taken), taken := s.taken + 1 } := by
    refine ⟨fun _ => congrArg (· + 1) htaken, Nat.succ_le_succ htaken.le, nofun, ?_, ?_⟩
    · rintro _ ⟨⟩
      exact congrArg p.source htaken.symm
    · intro chunk hpc
      exact absurd hpc (hroom chunk)
  rw [SsePump.answered]
  split
  · exact hnext.congr rfl rfl rfl rfl
  · exact hnext

lemma events_sent (s : SseState (SseItem α ρ) κ) (pc : SsePc) (chunk : ByteArray) :
    SseState.events { s with pc := pc, sent := s.sent ++ [some chunk] } = s.events ++ [chunk] := by
  simp [SseState.events]

lemma events_pinged (s : SseState (SseItem α ρ) κ) (pc : SsePc) :
    SseState.events { s with pc := pc, sent := s.sent ++ [none] } = s.events := by
  simp [SseState.events]

/-- What the connection got stays a prefix. -/
lemma Delivered.congr (h : p.Delivered s) (hsent : t.sent = s.sent) : p.Delivered t := by
  have hevents : t.events = s.events := by rw [SseState.events, SseState.events, hsent]
  rw [Delivered, hevents]
  exact h

lemma Delivered.sent (h : p.Delivered s) {chunk : ByteArray} (hchunk : p.chunkAt s.events.length = some chunk)
    (pc : SsePc) : p.Delivered { s with pc := pc, sent := s.sent ++ [some chunk] } := by
  rw [Delivered, events_sent, List.length_append, List.length_singleton, List.range_succ, List.map_append, h,
    List.map_append, List.map_singleton, List.map_singleton, hchunk]

/-- A chunk is offered that is the next one of the source.  It is accepted, kept or the last, unless the client has
left and there is no room for it. -/
lemma sendChunk_spec (hread : s.read = .idle) (htaken : s.taken = s.events.length + 1)
    (hdelivered : p.Delivered s) {chunk : ByteArray} (hchunk : p.chunkAt s.events.length = some chunk)
    (result : ChunkResult) :
    p.Delivered (p.sendChunk s chunk result) ∧ (p.Aligned (p.sendChunk s chunk result) ∨
      result = .full ∧ s.gone = true ∧ Adrift (p.sendChunk s chunk result)) := by
  cases result with
  | sent =>
    have hlength := congrArg List.length (events_sent s .top chunk)
    rw [List.length_append, List.length_singleton, ← htaken] at hlength
    refine ⟨hdelivered.sent hchunk _, .inl (aligned_of_taken ?_ nofun hlength.symm)⟩
    intro y hout
    exact absurd (hread.symm.trans hout) nofun
  | full =>
    refine ⟨hdelivered.congr rfl, ?_⟩
    cases hgone : s.gone with
    | true => exact .inr ⟨rfl, rfl, hgone, by simp [sendChunk, hgone]⟩
    | false =>
      left
      refine ⟨fun _ => ?_, htaken.le, ?_, ?_, ?_⟩
      · simp only [sendChunk, hgone, inHand, hread]
        exact htaken
      · intro hout
        exact absurd (hread.symm.trans hout) nofun
      · intro y hout
        exact absurd (hread.symm.trans hout) nofun
      · intro other hpc
        simp only [sendChunk, hgone] at hpc
        obtain rfl : chunk = other := by simpa using hpc
        exact ⟨hread, hchunk⟩
  | closed =>
    refine ⟨hdelivered.congr rfl, .inl ⟨fun hpc => absurd rfl hpc, htaken.le, ?_, ?_, nofun⟩⟩
    · intro hout
      exact absurd (hread.symm.trans hout) nofun
    · intro y hout
      exact absurd (hread.symm.trans hout) nofun

/-- A ping changes nothing. -/
lemma sendPing_spec (h : p.Aligned s) (hread : s.read = .outstanding) (hdelivered : p.Delivered s)
    (result : ChunkResult) : p.Delivered (p.sendPing s result) ∧ p.Aligned (p.sendPing s result) := by
  have htaken := h.outstanding hread
  have hanswered : ∀ y, s.read ≠ .answered y := by
    intro y hout
    exact absurd (hread.symm.trans hout) nofun
  cases result with
  | sent =>
    have hevents := events_pinged s .top
    refine ⟨by rw [Delivered, sendPing, hevents]; exact hdelivered, aligned_of_taken hanswered nofun ?_⟩
    exact htaken.trans (congrArg List.length hevents.symm)
  | full => exact ⟨hdelivered.congr rfl, aligned_of_taken hanswered nofun htaken⟩
  | closed => exact ⟨hdelivered.congr rfl, h.finish⟩

/-- The one step after which the pump is no longer aligned. -/
def GivesUp (s : SseState (SseItem α ρ) κ) (a : SseAction) : Prop := a = .retry .full ∧ s.gone = true

instance (s : SseState (SseItem α ρ) κ) (a : SseAction) : Decidable (GivesUp s a) :=
  inferInstanceAs (Decidable (_ ∧ _))

lemma sent_answered (s : SseState (SseItem α ρ) κ) : (p.answered s).sent = s.sent := by
  rw [SsePump.answered]
  split
  · rfl
  · rfl

lemma finish_of_cancel (taken : p.step s .cancel = some t) : p.finish s = t := by
  cases hpc : s.pc with
  | waiting | room chunk =>
    simp only [SsePump.step, hpc] at taken
    exact Option.some.inj taken
  | ready | top | done => simp [SsePump.step, hpc] at taken

/-- After `asyncio.wait`. -/
lemma Aligned.resumed (h : p.Aligned s) (hdelivered : p.Delivered s) (hpc : s.pc = .waiting)
    {result : ChunkResult} (taken : p.resumed s result = some t) :
    p.Delivered t ∧ (p.Aligned t ∨ GivesUp s (.resume result) ∧ Adrift t) := by
  rw [SsePump.resumed] at taken
  split at taken
  next =>
    obtain rfl := Option.some.inj taken
    exact ⟨hdelivered.congr rfl, .inl h.finish⟩
  next hgone =>
    split at taken
    next y hread =>
      obtain rfl := Option.some.inj taken
      have htaken := h.exact (by rw [hpc]; nofun)
      simp only [inHand, hread] at htaken
      rw [handle]
      cases hchunk : p.chunk y with
      | none =>
        refine ⟨hdelivered.congr rfl, .inl ⟨fun hdone => absurd rfl hdone, h.bound, nofun, nofun, nofun⟩⟩
      | some chunk =>
        have hat : p.chunkAt s.events.length = some chunk := by rw [chunkAt, h.answered y hread, hchunk]
        obtain ⟨hdelivered, haligned | ⟨-, hgone', -⟩⟩ :=
          sendChunk_spec (s := { s with read := .idle }) rfl htaken hdelivered hat result
        · exact ⟨hdelivered, .inl haligned⟩
        · exact absurd hgone' hgone
    next => exact absurd taken nofun

/-- What a step keeps. -/
lemma Aligned.step (h : p.Aligned s) (hdelivered : p.Delivered s) (taken : p.step s a = some t) :
    p.Delivered t ∧ (p.Aligned t ∨ GivesUp s a ∧ Adrift t) := by
  cases a with
  | accept =>
    obtain ⟨hpc, rfl⟩ := of_guard taken
    exact ⟨hdelivered.congr rfl, .inl (h.accept hpc)⟩
  | refuse =>
    obtain ⟨hpc, rfl⟩ := of_guard taken
    exact ⟨hdelivered.congr rfl, .inl ⟨fun hpc => absurd rfl hpc, h.bound, h.outstanding, h.answered, nofun⟩⟩
  | start =>
    obtain ⟨hpc, rfl⟩ := of_guard taken
    exact ⟨hdelivered.congr rfl, .inl (h.start hpc)⟩
  | begin =>
    obtain ⟨-, rfl⟩ := of_guard taken
    exact ⟨hdelivered.congr rfl, .inl (h.congr rfl rfl rfl rfl)⟩
  | answer =>
    obtain ⟨⟨hread, -, -⟩, rfl⟩ := of_guard taken
    refine ⟨hdelivered.congr (sent_answered s), .inl (h.answer ?_)⟩
    exact PendingRead.isOutstanding_iff.mp hread
  | leave | drop =>
    obtain rfl := Option.some.inj taken
    exact ⟨hdelivered.congr rfl, .inl (h.congr rfl rfl rfl rfl)⟩
  | resume result =>
    obtain ⟨hpc, taken⟩ := Option.ite_none_right_eq_some.mp taken
    exact h.resumed hdelivered hpc taken
  | timeout result =>
    obtain ⟨⟨-, hread, -, -⟩, rfl⟩ := of_guard taken
    obtain ⟨hdelivered, haligned⟩ :=
      sendPing_spec h (PendingRead.isOutstanding_iff.mp hread) hdelivered result
    exact ⟨hdelivered, .inl haligned⟩
  | retry result =>
    cases hpc : s.pc with
    | room chunk =>
      obtain ⟨hread, hchunk⟩ := h.room chunk hpc
      have htaken := h.exact (by rw [hpc]; nofun)
      simp only [inHand, hread, hpc] at htaken
      simp only [SsePump.step, hpc] at taken
      obtain rfl := Option.some.inj taken
      obtain ⟨hdelivered, haligned | ⟨rfl, hgone, hadrift⟩⟩ := sendChunk_spec hread htaken hdelivered hchunk result
      · exact ⟨hdelivered, .inl haligned⟩
      · exact ⟨hdelivered, .inr ⟨⟨rfl, hgone⟩, hadrift⟩⟩
    | ready | top | waiting | done => simp [SsePump.step, hpc] at taken
  | cancel =>
    obtain rfl := finish_of_cancel taken
    exact ⟨hdelivered.congr rfl, .inl h.finish⟩
  | unwind =>
    obtain ⟨⟨hpc, -⟩, rfl⟩ := of_guard taken
    have hnext : p.Aligned { s with read := .idle, cancelling := false } :=
      ⟨fun hpc' => absurd hpc hpc', h.bound, nofun, nofun, fun chunk hroom => absurd (hpc.symm.trans hroom) nofun⟩
    rw [unwound]
    split
    · exact ⟨hdelivered.congr rfl, .inl hnext⟩
    · exact ⟨hdelivered.congr rfl, .inl (hnext.congr rfl rfl rfl rfl)⟩

/-- Once the client is gone and nothing is in hand, nothing more is sent. -/
lemma Adrift.step (h : Adrift s) (taken : p.step s a = some t) : Adrift t ∧ t.sent = s.sent := by
  obtain ⟨hgone, hroom⟩ := h
  cases a with
  | accept | refuse | start =>
    obtain ⟨-, rfl⟩ := of_guard taken
    exact ⟨⟨hgone, nofun⟩, rfl⟩
  | begin =>
    obtain ⟨-, rfl⟩ := of_guard taken
    exact ⟨⟨hgone, hroom⟩, rfl⟩
  | answer =>
    obtain ⟨-, rfl⟩ := of_guard taken
    rw [SsePump.answered]
    split
    · exact ⟨⟨hgone, hroom⟩, rfl⟩
    · exact ⟨⟨hgone, hroom⟩, rfl⟩
  | leave | drop =>
    obtain rfl := Option.some.inj taken
    exact ⟨⟨by simp [hgone], hroom⟩, rfl⟩
  | resume result =>
    obtain ⟨-, taken⟩ := Option.ite_none_right_eq_some.mp taken
    rw [SsePump.resumed, if_pos hgone] at taken
    obtain rfl := Option.some.inj taken
    exact ⟨⟨hgone, nofun⟩, rfl⟩
  | timeout result =>
    obtain ⟨⟨-, -, hstays, -⟩, -⟩ := of_guard taken
    exact absurd (hgone.symm.trans hstays) Bool.noConfusion
  | retry result =>
    cases hpc : s.pc with
    | room chunk => exact absurd hpc (hroom chunk)
    | ready | top | waiting | done => simp [SsePump.step, hpc] at taken
  | cancel =>
    obtain rfl := finish_of_cancel taken
    exact ⟨⟨hgone, nofun⟩, rfl⟩
  | unwind =>
    obtain ⟨-, rfl⟩ := of_guard taken
    rw [unwound]
    split
    · exact ⟨⟨hgone, hroom⟩, rfl⟩
    · exact ⟨⟨hgone, hroom⟩, rfl⟩

lemma delivered_new : p.Delivered p.new := rfl

/-- In every run what was accepted is a prefix of the source. -/
lemma delivered_of_reachable (h : Reachable p.step p.new s) : p.Delivered s ∧ (p.Aligned s ∨ Adrift s) := by
  refine Reachable.invariant (I := fun s => p.Delivered s ∧ (p.Aligned s ∨ Adrift s)) h
    ⟨delivered_new, .inl aligned_new⟩ ?_
  rintro s a t ⟨hdelivered, haligned | hadrift⟩ taken
  · obtain ⟨hdelivered, haligned | ⟨-, hadrift⟩⟩ := haligned.step hdelivered taken
    · exact ⟨hdelivered, .inl haligned⟩
    · exact ⟨hdelivered, .inr hadrift⟩
  · obtain ⟨hadrift, hsent⟩ := hadrift.step taken
    exact ⟨hdelivered.congr hsent, .inr hadrift⟩

/-- In a run that gives no chunk up the pump stays aligned. -/
lemma aligned_of_reaches (h : Reaches p.step (fun s a => ¬ GivesUp s a) p.new s) : p.Aligned s := by
  have hboth : p.Delivered s ∧ p.Aligned s := by
    refine Reaches.invariant (I := fun s => p.Delivered s ∧ p.Aligned s) h ⟨delivered_new, aligned_new⟩ ?_
    rintro s a t ⟨hdelivered, haligned⟩ hkeeps taken
    obtain ⟨hdelivered, haligned | ⟨hgives, -⟩⟩ := haligned.step hdelivered taken
    · exact ⟨hdelivered, haligned⟩
    · exact absurd hgives hkeeps
  exact hboth.2

/-! ## A client that stays -/

/-- The client neither leaves nor closes the connection, and the response is neither refused nor cancelled. -/
def Stays : SseAction → Prop
  | .leave | .cancel | .refuse => False
  | .resume result | .timeout result | .retry result => result ≠ .closed
  | _ => True

instance : DecidablePred Stays
  | .leave | .cancel | .refuse => isFalse id
  | .resume result | .timeout result | .retry result => inferInstanceAs (Decidable (result ≠ .closed))
  | .accept | .start | .begin | .answer | .drop _ | .unwind => isTrue trivial

/-- Every item of the source can be sent. -/
def Formats (p : SsePump α ρ ε κ) : Prop := ∀ n, ends (p.source n) = false → (p.chunkAt n).isSome

/-- How far the pump is with an item. -/
def phase (pc : SsePc) (read : PendingRead (SseItem α ρ)) : ℕ :=
  match pc, read with
  | .room _, _ => 4
  | .done, _ => 4
  | .waiting, .answered _ => 3
  | _, .answered _ => 2
  | _, .outstanding => 1
  | _, .idle => 0

/-- How far the pump has come: five steps for each item. -/
def progress (s : SseState (SseItem α ρ) κ) : ℕ :=
  (if s.pc = .ready then 0 else 1) + s.begun.toNat + 5 * s.events.length + phase s.pc s.read

/-- What holds as long as the client stays. -/
structure Served (p : SsePump α ρ ε κ) (s : SseState (SseItem α ρ) κ) : Prop where
  aligned : p.Aligned s
  delivered : p.Delivered s
  stays : s.gone = false
  waiting : s.pc = .waiting → s.read ≠ .idle
  cancelling : s.cancelling = false
  done : s.pc = .done → ends (p.source s.events.length) = true

lemma served_new : p.Served p.new := ⟨aligned_new, delivered_new, rfl, nofun, rfl, nofun⟩

lemma Served.not_givesUp (h : p.Served s) : ¬ GivesUp s a := by
  rintro ⟨-, hgone⟩
  exact absurd (h.stays.symm.trans hgone) Bool.noConfusion

lemma phase_answered (pc : SsePc) (y : Yielded (SseItem α ρ)) :
    phase pc (.outstanding : PendingRead (SseItem α ρ)) ≤ phase pc (.answered y) := by
  cases pc with
  | ready | top | waiting => simp [phase]
  | room | done => exact le_rfl

lemma answered_frame (s : SseState (SseItem α ρ) κ) : ∃ ended registered, p.answered s =
    { s with read := .answered (p.source s.taken), taken := s.taken + 1, ended := ended, registered := registered } := by
  rw [SsePump.answered]
  split
  · exact ⟨_, _, rfl⟩
  · exact ⟨_, _, rfl⟩

/-- A chunk is offered to a client that stays. -/
lemma served_sendChunk (hstays : s.gone = false) (hcancelling : s.cancelling = false)
    {chunk : ByteArray} {result : ChunkResult} (hresult : result ≠ .closed)
    (haligned : p.Aligned (p.sendChunk s chunk result)) (hdelivered : p.Delivered (p.sendChunk s chunk result)) :
    p.Served (p.sendChunk s chunk result) ∧
      1 + s.begun.toNat + 5 * s.events.length + 4 ≤ progress (p.sendChunk s chunk result) := by
  cases result with
  | sent =>
    refine ⟨⟨haligned, hdelivered, hstays, nofun, hcancelling, nofun⟩, ?_⟩
    have hlength := congrArg List.length (events_sent s .top chunk)
    rw [List.length_append, List.length_singleton] at hlength
    simp only [progress, sendChunk, hlength, reduceCtorEq, if_false]
    omega
  | full =>
    have hroom : p.sendChunk s chunk .full = { s with pc := .room chunk } := by
      simp [sendChunk, hstays]
    rw [hroom] at haligned hdelivered ⊢
    exact ⟨⟨haligned, hdelivered, hstays, nofun, hcancelling, nofun⟩, le_rfl⟩
  | closed => exact absurd rfl hresult

/-- The pump goes on with what it read. -/
lemma Served.resumed (h : p.Served s) (formats : p.Formats) (hpc : s.pc = .waiting) {result : ChunkResult}
    (hresult : result ≠ .closed) (taken : p.resumed s result = some t) (haligned : p.Aligned t)
    (hdelivered : p.Delivered t) : p.Served t ∧ progress s < progress t := by
  rw [SsePump.resumed, if_neg (by rw [h.stays]; nofun)] at taken
  split at taken
  next y hread =>
    obtain rfl := Option.some.inj taken
    have hbefore : progress s = 1 + s.begun.toNat + 5 * s.events.length + 3 := by
      simp [progress, hpc, hread, phase]
    rw [handle] at haligned hdelivered ⊢
    cases hchunk : p.chunk y with
    | none =>
      simp only [hchunk] at haligned hdelivered ⊢
      refine ⟨⟨haligned, hdelivered, h.stays, nofun, rfl, fun _ => ?_⟩, ?_⟩
      · apply eq_true_of_ne_false
        intro hitem
        have hsome := formats _ hitem
        have hsource : p.source s.events.length = y := h.aligned.answered y hread
        have hnone : p.chunkAt s.events.length = none := by rw [chunkAt, hsource, hchunk]
        exact absurd (hnone ▸ hsome) Bool.noConfusion
      · rw [hbefore]
        exact Nat.lt_succ_self _
    | some chunk =>
      simp only [hchunk] at haligned hdelivered ⊢
      obtain ⟨hserved, hprogress⟩ := served_sendChunk (s := { s with read := .idle }) h.stays h.cancelling hresult
        haligned hdelivered
      exact ⟨hserved, hbefore ▸ hprogress⟩
  next => exact absurd taken nofun

/-- The steps of a client that stays, and how far they lead. -/
lemma Served.step (h : p.Served s) (formats : p.Formats) (hstays : Stays a) (taken : p.step s a = some t) :
    p.Served t ∧ progress s ≤ progress t := by
  obtain ⟨hdelivered, haligned | ⟨hgives, -⟩⟩ := h.aligned.step h.delivered taken
  swap
  · exact absurd hgives h.not_givesUp
  cases a with
  | accept =>
    obtain ⟨hpc, rfl⟩ := of_guard taken
    refine ⟨⟨haligned, hdelivered, h.stays, nofun, h.cancelling, nofun⟩, ?_⟩
    cases hread : s.read <;> simp [progress, phase, hpc, hread, SseState.events]
  | start =>
    obtain ⟨hpc, rfl⟩ := of_guard taken
    refine ⟨⟨haligned, hdelivered, h.stays, ?_, h.cancelling, nofun⟩, ?_⟩
    · cases hread : s.read <;> simp [PendingRead.started]
    · cases hread : s.read <;> simp [progress, phase, hpc, hread, SseState.events, PendingRead.started]
  | begin =>
    obtain ⟨⟨-, hbegun, -⟩, rfl⟩ := of_guard taken
    refine ⟨⟨haligned, hdelivered, h.stays, h.waiting, h.cancelling, h.done⟩, ?_⟩
    have hless : s.begun.toNat ≤ true.toNat := by rw [hbegun]; decide
    exact Nat.add_le_add_right (Nat.add_le_add_right (Nat.add_le_add_left hless _) _) _
  | answer =>
    obtain ⟨⟨hread, -, -⟩, rfl⟩ := of_guard taken
    obtain hread := PendingRead.isOutstanding_iff.mp hread
    obtain ⟨ended, registered, hframe⟩ := answered_frame (p := p) s
    rw [hframe] at haligned hdelivered ⊢
    refine ⟨⟨haligned, hdelivered, h.stays, nofun, h.cancelling, h.done⟩, ?_⟩
    apply Nat.add_le_add_left
    rw [hread]
    exact phase_answered _ _
  | drop =>
    obtain rfl := Option.some.inj taken
    exact ⟨⟨haligned, hdelivered, h.stays, h.waiting, h.cancelling, h.done⟩, le_rfl⟩
  | resume result =>
    obtain ⟨hpc, taken⟩ := Option.ite_none_right_eq_some.mp taken
    obtain ⟨hserved, hless⟩ := h.resumed formats hpc hstays taken haligned hdelivered
    exact ⟨hserved, hless.le⟩
  | timeout result =>
    obtain ⟨⟨hpc, hread, -, -⟩, rfl⟩ := of_guard taken
    obtain hread := PendingRead.isOutstanding_iff.mp hread
    have hbefore : progress s = 1 + s.begun.toNat + 5 * s.events.length + phase .top s.read := by
      simp [progress, hpc, hread, phase]
    cases result with
    | sent =>
      refine ⟨⟨haligned, hdelivered, h.stays, nofun, h.cancelling, nofun⟩, ?_⟩
      have hevents : (p.sendPing s .sent).events = s.events := events_pinged s .top
      rw [hbefore, ← hevents]
      exact le_rfl
    | full => exact ⟨⟨haligned, hdelivered, h.stays, nofun, h.cancelling, nofun⟩, hbefore.le⟩
    | closed => exact absurd rfl hstays
  | retry result =>
    cases hpc : s.pc with
    | room chunk =>
      simp only [SsePump.step, hpc] at taken
      obtain rfl := Option.some.inj taken
      obtain ⟨hserved, hprogress⟩ := served_sendChunk h.stays h.cancelling hstays haligned hdelivered
      refine ⟨hserved, le_trans (le_of_eq ?_) hprogress⟩
      simp [progress, hpc, phase]
    | ready | top | waiting | done => simp [SsePump.step, hpc] at taken
  | unwind =>
    obtain ⟨⟨-, hcancelling⟩, -⟩ := of_guard taken
    exact absurd (h.cancelling.symm.trans hcancelling) Bool.noConfusion
  | leave | cancel | refuse => exact absurd hstays id

lemma progress_accept (hpc : s.pc = .ready) : progress s < progress { s with pc := .top } := by
  cases hread : s.read <;> simp [progress, phase, hpc, hread, SseState.events]

lemma progress_start (hpc : s.pc = .top) (hread : s.read ≠ .outstanding) :
    progress s < progress { s with pc := .waiting, read := s.read.started } := by
  cases hread' : s.read with
  | idle | answered => simp [progress, phase, hpc, hread', SseState.events, PendingRead.started]
  | outstanding => exact absurd hread' hread

/-- A read that is outstanding can be answered. -/
lemma Served.ahead_outstanding (h : p.Served s) (hread : s.read = .outstanding) (hpc : s.pc ≠ .done) :
    ∃ b t, Stays b ∧ p.step s b = some t ∧ progress s < progress t := by
  have hroom : ∀ chunk, s.pc ≠ .room chunk := by
    intro chunk hpc
    exact absurd (hread.symm.trans (h.aligned.room chunk hpc).1) nofun
  cases hbegun : s.begun with
  | false =>
    refine ⟨.begin, p.opened s, trivial, if_pos ⟨by rw [hread]; rfl, hbegun, h.cancelling⟩, ?_⟩
    have hless : s.begun.toNat < true.toNat := by rw [hbegun]; decide
    exact Nat.add_lt_add_right (Nat.add_lt_add_right (Nat.add_lt_add_left hless _) _) _
  | true =>
    refine ⟨.answer, p.answered s, trivial, if_pos ⟨by rw [hread]; rfl, hbegun, h.cancelling⟩, ?_⟩
    obtain ⟨ended, registered, hframe⟩ := answered_frame (p := p) s
    rw [hframe]
    apply Nat.add_lt_add_left
    rw [hread]
    cases hpc' : s.pc with
    | ready | top | waiting => simp [phase]
    | room chunk => exact absurd hpc' (hroom chunk)
    | done => exact absurd hpc' hpc

/-- As long as the pump is not done there is a step that leads ahead. -/
lemma Served.ahead (h : p.Served s) (formats : p.Formats) (hpc : s.pc ≠ .done) :
    ∃ b t, Stays b ∧ p.step s b = some t ∧ progress s < progress t := by
  by_cases hread : s.read = .outstanding
  · exact h.ahead_outstanding hread hpc
  cases hpc' : s.pc with
  | ready => exact ⟨.accept, _, trivial, if_pos hpc', progress_accept hpc'⟩
  | top => exact ⟨.start, _, trivial, if_pos hpc', progress_start hpc' hread⟩
  | waiting =>
    cases hread' : s.read with
    | idle => exact absurd hread' (h.waiting hpc')
    | outstanding => exact absurd hread' hread
    | answered y =>
      have hresumed : p.resumed s .sent = some (p.handle s y .sent) := by
        rw [SsePump.resumed, if_neg (by rw [h.stays]; nofun), hread']
      have taken : p.step s (.resume .sent) = some (p.handle s y .sent) := (if_pos hpc').trans hresumed
      obtain ⟨hserved, -⟩ := h.step formats (a := .resume .sent) nofun taken
      have hsent : ChunkResult.sent ≠ .closed := nofun
      obtain ⟨-, hless⟩ := h.resumed formats hpc' hsent hresumed hserved.aligned hserved.delivered
      exact ⟨.resume .sent, _, nofun, taken, hless⟩
  | room chunk =>
    have taken : p.step s (.retry .sent) = some (p.sendChunk s chunk .sent) := by simp [SsePump.step, hpc']
    refine ⟨.retry .sent, _, nofun, taken, ?_⟩
    have hlength := congrArg List.length (events_sent s .top chunk)
    rw [List.length_append, List.length_singleton] at hlength
    have hbefore : progress s = 1 + s.begun.toNat + 5 * s.events.length + 4 := by simp [progress, hpc', phase]
    rw [hbefore]
    simp only [progress, sendChunk, hlength, reduceCtorEq, if_false]
    omega
  | done => exact absurd hpc' hpc

/-- What was accepted was yielded by the source. -/
lemma Served.item_of_lt (h : p.Served s) {n : ℕ} (hn : n < s.events.length) : ends (p.source n) = false := by
  have hmem : p.chunkAt n ∈ s.events.map some := by
    rw [← h.delivered]
    exact List.mem_map_of_mem (List.mem_range.mpr hn)
  obtain ⟨chunk, -, hchunk⟩ := List.mem_map.mp hmem
  cases hsource : p.source n with
  | item x => rfl
  | stopped | raised =>
    rw [chunkAt, hsource] at hchunk
    exact absurd hchunk nofun

/-- As far as the end of the source. -/
lemma Served.progress_le (h : p.Served s) {n : ℕ} (hends : ends (p.source n) = true) :
    progress s ≤ 5 * n + 6 := by
  have hlength : s.events.length ≤ n := by
    by_contra hlt
    exact absurd (hends.symm.trans (h.item_of_lt (Nat.lt_of_not_le hlt))) Bool.noConfusion
  have hbegun : s.begun.toNat ≤ 1 := Bool.toNat_le s.begun
  have hready : (if s.pc = .ready then 0 else 1) ≤ 1 := by split <;> decide
  have hphase : phase s.pc s.read ≤ 4 := by
    cases s.pc <;> cases s.read <;> simp [phase]
  rw [progress]
  omega

lemma served_of_reaches (formats : p.Formats) (h : Reaches p.step (fun _ a => Stays a) p.new s) : p.Served s :=
  h.invariant served_new fun _ _ _ hserved hstays taken => (hserved.step formats hstays taken).1

/-! ## The result -/

/-- **Items are delivered once and in order.**  In every run the connection has accepted the first items of the
source, each once.  In a run that gives no chunk up, an item is read only after the one before it was accepted.  And
while the client stays and every item can be sent, no step leads back, some step leads ahead, and the pump ends only
where the source does, with every item before accepted. -/
theorem items_delivered_once (p : SsePump α ρ ε κ) :
    (∀ s, Reachable p.step p.new s → s.events.map some = (List.range s.events.length).map p.chunkAt) ∧
    (∀ s, Reaches p.step (fun s a => ¬ GivesUp s a) p.new s → s.taken ≤ s.events.length + 1) ∧
    (p.Formats → ∀ s, Reaches p.step (fun _ a => Stays a) p.new s →
      (s.pc = .done → ends (p.source s.events.length) = true ∧ ∀ i < s.events.length, ends (p.source i) = false) ∧
      (s.pc ≠ .done → ∃ b t, Stays b ∧ p.step s b = some t ∧ progress s < progress t) ∧
      (∀ b t, Stays b → p.step s b = some t → progress s ≤ progress t) ∧
      ∀ n, ends (p.source n) = true → progress s ≤ 5 * n + 6) := by
  refine ⟨?_, ?_, ?_⟩
  · intro s h
    exact (delivered_of_reachable h).1.symm
  · intro s h
    exact (aligned_of_reaches h).bound
  · intro formats s h
    have hserved := served_of_reaches formats h
    refine ⟨fun hpc => ⟨hserved.done hpc, fun i hi => hserved.item_of_lt hi⟩, hserved.ahead formats, ?_, ?_⟩
    · intro b t hstays taken
      exact (hserved.step formats hstays taken).2
    · intro n hends
      exact hserved.progress_le hends

/-- Two items, from a subscription. -/
def greetings : SsePump PyStr ℤ Unit Unit where
  codec := plainCodec
  source
    | 0 => .item (.plain (.text (PyStr.lit "a")))
    | 1 => .item (.plain (.text (PyStr.lit "b")))
    | _ => .stopped
  kind := .subscription ()
  ping := true

lemma formats_greetings : greetings.Formats := by
  intro n hitem
  match n with
  | 0 => decide +kernel
  | 1 => decide +kernel
  | n + 2 => exact absurd hitem Bool.noConfusion

/-- A chunk that has to wait, and a ping. -/
def greetingsRun : List SseAction :=
  [.accept, .start, .answer, .resume .full, .retry .full, .retry .sent, .start, .timeout .sent, .start, .answer,
    .resume .sent, .start, .answer, .resume .sent]

theorem greetings_delivered :
    ∃ s, Reaches greetings.step (fun _ a => Stays a) greetings.new s ∧ s.pc = .done ∧ s.events.length = 2 ∧
      (ends (greetings.source s.events.length) = true ∧
        ∀ i < s.events.length, ends (greetings.source i) = false) ∧
      s.events.map some = (List.range s.events.length).map greetings.chunkAt ∧ s.taken ≤ s.events.length + 1 := by
  have hrun : ((exec greetings.step (fun s a => Stays a ∧ ¬ GivesUp s a) greetings.new greetingsRun).map
      fun s => (s.pc, s.events.length)) = some (.done, 2) := by decide +kernel
  obtain ⟨s, hexec, hs⟩ := Option.map_eq_some_iff.mp hrun
  obtain ⟨hpc, hlength⟩ := Prod.mk.inj hs
  have hboth := Reaches.of_exec _ hexec
  have hreachable : Reachable greetings.step greetings.new s := hboth.mono fun _ _ _ => trivial
  have hreaches : Reaches greetings.step (fun _ a => Stays a) greetings.new s := hboth.mono fun _ _ h => h.1
  have hkeeps : Reaches greetings.step (fun s a => ¬ GivesUp s a) greetings.new s := hboth.mono fun _ _ h => h.2
  exact ⟨s, hreaches, hpc, hlength, ((items_delivered_once greetings).2.2 formats_greetings s hreaches).1 hpc,
    (items_delivered_once greetings).1 s hreachable, (items_delivered_once greetings).2.1 s hkeeps⟩

/-- The first item waits for room, the client leaves, there is still no room: the second is read. -/
theorem abandoned_item_read_past :
    ∃ s, Reachable greetings.step greetings.new s ∧ s.events = [] ∧ s.taken = 2 := by
  have hrun : ((exec greetings.step (fun _ _ => True) greetings.new
      [.accept, .start, .answer, .resume .full, .leave, .retry .full, .start, .answer]).map
      fun s => (s.events.length, s.taken)) = some (0, 2) := by decide +kernel
  obtain ⟨s, hexec, hs⟩ := Option.map_eq_some_iff.mp hrun
  obtain ⟨hevents, htaken⟩ := Prod.mk.inj hs
  exact ⟨s, Reachable.of_exec _ hexec, List.eq_nil_of_length_eq_zero hevents, htaken⟩

end SsePump

end Oxbrook
