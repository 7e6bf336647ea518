import Oxbrook.Streams.Handover

/-!
# What becomes of the messages offered to a subscription

Every message offered to a subscription ends in exactly one place: refused with `TopicFull`,
yielded, buffered, dropped, or still in the hands of a producer.  Producers are not cancelled here,
as a cancelled producer takes its message with it; the reader may be cancelled while it waits.

The invariant has two halves.  `Kept` is about the subscription and its history alone and is kept by
each section for itself.  `Counted` adds what involves the producers; in the middle of an offer it
is replaced by `Offering`, which says the same with one more message in the hands of the producer
that is about to run a section.
-/

namespace Oxbrook

open StepMachine

variable {ι α γ ω : Type*}

/-! ## First and last elements of a list -/

/-- Appending to a full window of the last `n` elements pushes the oldest one out. -/
lemma rtake_append_of_full {n : ℕ} (l : List α) (a : α) (hn : 0 < n)
    (hfull : n ≤ (l.rtake n).length) : (l ++ [a]).rtake n = (l.rtake n).tail ++ [a] := by
  have hlen : n ≤ l.length := by
    rw [List.rtake, List.length_drop] at hfull
    omega
  rw [List.rtake, List.rtake, List.tail_drop, List.length_append, List.length_singleton,
    show l.length + 1 - n = l.length - n + 1 by omega,
    List.drop_append_of_le_length (by omega)]

/-- Appending to a window of the last `n` elements that has room pushes nothing out. -/
lemma rtake_append_of_room {n : ℕ} (l : List α) (a : α) (hroom : (l.rtake n).length < n) :
    (l ++ [a]).rtake n = l.rtake n ++ [a] := by
  have hlen : l.length < n := by
    rw [List.rtake, List.length_drop] at hroom
    omega
  rw [List.rtake, List.rtake, List.length_append, List.length_singleton,
    show l.length + 1 - n = 0 by omega, show l.length - n = 0 by omega, List.drop_zero,
    List.drop_zero]

/-- Appending to a full window of the first `n` elements changes nothing. -/
lemma take_append_of_full {n : ℕ} (l : List α) (a : α) (hfull : n ≤ (l.take n).length) :
    (l ++ [a]).take n = l.take n := by
  rw [List.length_take] at hfull
  rw [List.take_append_of_le_length (by omega)]

/-- Appending to a window of the first `n` elements that has room adds the element. -/
lemma take_append_of_room {n : ℕ} (l : List α) (a : α) (hroom : (l.take n).length < n) :
    (l ++ [a]).take n = l.take n ++ [a] := by
  rw [List.length_take] at hroom
  rw [List.take_of_length_le (by simp; omega), List.take_of_length_le (by omega)]

/-! ## The subscription and its history -/

/-- What a buffer keeps of the messages `past` that it held or was offered, under the two policies
that drop. -/
def Window (policy : Policy) (maxsize : ℕ) (buffer past : List α) : Prop :=
  match policy with
  | .dropOldest => buffer = past.rtake maxsize
  | .dropNewest => buffer = past.take maxsize
  | .block => True
  | .error => True

/-- What holds between a subscription and its history whatever the producers do. -/
structure Kept (sub : Subscription α γ ω) (history : History α) : Prop where
  bounded : sub.buffer.length ≤ sub.maxsize
  order : (history.yielded ++ sub.buffer).Sublist history.entered
  whole : sub.policy ≠ .dropOldest → history.yielded ++ sub.buffer = history.entered
  getter : ∀ g, sub.getter = some g → sub.buffer = [] ∧ sub.closed = false
  released : sub.closed = true → sub.putters = []
  left : sub.closed = true → history.yielded ++ sub.buffer = history.left
  ended : history.ended = true → sub.closed = true ∧ sub.buffer = []

variable {sub : Subscription α γ ω} {history : History α}

/-- A message enters a buffer that has room. -/
lemma Kept.enter (h : Kept sub history) (hopen : sub.closed = false)
    (hroom : sub.buffer.length < sub.maxsize) (message : α) :
    Kept (sub.enter message) { history with entered := history.entered ++ [message] } where
  bounded := by
    simp only [Subscription.enter, List.length_append, List.length_singleton]
    omega
  order := by
    simp only [Subscription.enter, ← List.append_assoc]
    exact h.order.append (List.Sublist.refl _)
  whole hpolicy := by
    simp only [Subscription.enter, ← List.append_assoc]
    rw [h.whole hpolicy]
  getter g hg := by cases hg
  released hclosed := absurd (hopen.symm.trans hclosed) (by decide)
  left hclosed := absurd (hopen.symm.trans hclosed) (by decide)
  ended hended := absurd (hopen.symm.trans (h.ended hended).1) (by decide)

/-- A message enters a full `drop_oldest` buffer, whose oldest message goes. -/
lemma Kept.enter_dropOldest (h : Kept sub history) (hopen : sub.closed = false)
    (hfull : sub.maxsize ≤ sub.buffer.length) (hpolicy : sub.policy = .dropOldest) (message : α) :
    Kept ({ sub with buffer := sub.buffer.tail, dropped := sub.dropped + 1 }.enter message)
      { history with entered := history.entered ++ [message] } where
  bounded := by
    have hpos := sub.maxsize_pos
    have hbounded := h.bounded
    simp only [Subscription.enter, List.length_append, List.length_tail, List.length_singleton]
    omega
  order := by
    have htail : (history.yielded ++ sub.buffer.tail).Sublist (history.yielded ++ sub.buffer) :=
      (List.Sublist.refl _).append (List.tail_sublist _)
    simp only [Subscription.enter, ← List.append_assoc]
    exact (htail.trans h.order).append (List.Sublist.refl _)
  whole hne := absurd hpolicy hne
  getter g hg := by cases hg
  released hclosed := absurd (hopen.symm.trans hclosed) (by decide)
  left hclosed := absurd (hopen.symm.trans hclosed) (by decide)
  ended hended := absurd (hopen.symm.trans (h.ended hended).1) (by decide)

/-- A window grows with its buffer while there is room. -/
lemma Window.enter {policy : Policy} {maxsize : ℕ} {buffer past : List α}
    (h : Window policy maxsize buffer past) (hroom : buffer.length < maxsize) (message : α) :
    Window policy maxsize (buffer ++ [message]) (past ++ [message]) := by
  cases policy with
  | dropOldest =>
    obtain rfl : buffer = past.rtake maxsize := h
    exact (rtake_append_of_room past message hroom).symm
  | dropNewest =>
    obtain rfl : buffer = past.take maxsize := h
    exact (take_append_of_room past message hroom).symm
  | block => trivial
  | error => trivial

namespace DeliveryState

variable [DecidableEq ι] {s s' : DeliveryState ι α} {i : ι} {message : α}

lemma Kept.putStep (h : Kept s.sub s.history) (i : ι) (message : α) (again : ProducerPc α) :
    Kept (s.putStep i message again).sub (s.putStep i message again).history := by
  rcases s.putStep_cases i message again with ⟨-, hp⟩ | ⟨hopen, hroom, hp⟩ |
    ⟨hopen, hfull, ⟨-, hp⟩ | ⟨hpolicy, hp⟩ | ⟨-, hp⟩ | ⟨-, hp⟩⟩ <;> rw [hp]
  · exact h
  · exact h.enter hopen hroom message
  · exact ⟨h.bounded, h.order, h.whole, h.getter, h.released, h.left, h.ended⟩
  · exact h.enter_dropOldest hopen hfull hpolicy message
  · exact ⟨h.bounded, h.order, h.whole, h.getter, h.released, h.left, h.ended⟩
  · exact h

lemma Kept.offerStep (h : Kept s.sub s.history) (i : ι) (message : α) :
    Kept (s.offerStep i message).sub (s.offerStep i message).history := by
  rcases s.offerStep_cases i message with ⟨-, hp⟩ | ⟨hopen, hroom, hp⟩ | ⟨hopen, hfull, hp⟩ <;>
    rw [hp]
  · exact h
  · exact h.enter hopen hroom message
  · exact ⟨h.bounded, h.order, h.whole, h.getter,
      fun hclosed => absurd (hopen.symm.trans hclosed) (by decide), h.left, h.ended⟩

omit [DecidableEq ι] in
lemma Kept.nextStep (h : Kept s.sub s.history) : Kept s.nextStep.sub s.nextStep.history := by
  rcases s.nextStep_cases with ⟨item, buffer, hbuffer, hp⟩ | ⟨hbuffer, hclosed, hp⟩ |
    ⟨hbuffer, hopen, hp⟩ <;> rw [hp]
  · have happend : (s.history.yielded ++ [item]) ++ buffer = s.history.yielded ++ s.sub.buffer := by
      rw [hbuffer, List.append_assoc, List.singleton_append]
    refine ⟨?_, ?_, fun hpolicy => ?_, fun g hg => ?_, fun hclosed => ?_, fun hclosed => ?_,
      fun hended => ?_⟩
    · have := h.bounded
      rw [hbuffer, List.length_cons] at this
      exact (Nat.le_succ _).trans this
    · simpa only [happend] using h.order
    · simpa only [happend] using h.whole hpolicy
    · exact absurd (hbuffer.symm.trans (h.getter g hg).1) (List.cons_ne_nil _ _)
    · simp [h.released hclosed]
    · simpa only [happend] using h.left hclosed
    · exact absurd (hbuffer.symm.trans (h.ended hended).2) (List.cons_ne_nil _ _)
  · exact ⟨h.bounded, h.order, h.whole, h.getter, h.released, h.left, fun _ => ⟨hclosed, hbuffer⟩⟩
  · exact ⟨h.bounded, h.order, h.whole, fun g _ => ⟨hbuffer, hopen⟩, h.released, h.left, h.ended⟩

omit [DecidableEq ι] in
lemma Kept.closeStep (h : Kept s.sub s.history) : Kept s.closeStep.sub s.closeStep.history := by
  rcases s.closeStep_cases with ⟨-, hp⟩ | ⟨hopen, hp⟩ <;> rw [hp]
  · exact h
  · refine ⟨h.bounded, h.order, h.whole, fun g hg => ?_, fun _ => rfl, fun _ => rfl,
      fun hended => ?_⟩
    · cases hg
    · exact absurd (hopen.symm.trans (h.ended hended).1) (by decide)

/-! ## The producers -/

variable [Fintype ι]

/-- How many messages producers hold that are neither buffered nor accounted for. -/
def inHand (s : DeliveryState ι α) : ℕ :=
  tally (fun _ pc => ProducerPc.inHand pc) s.producers

/-- The invariant between two offers. -/
structure Counted (s : DeliveryState ι α) : Prop where
  kept : Kept s.sub s.history
  window : s.sub.closed = false →
    Window s.sub.policy s.sub.maxsize s.sub.buffer (s.history.held ++ s.history.sinceRead)
  balance : s.sub.closed = false → s.history.offers =
    s.history.refusals + s.history.yielded.length + s.sub.buffer.length + s.sub.dropped + s.inHand
  holders : ∀ i, 0 < (s.producers i).inHand → s.sub.policy = .block
  counting : ∀ i message, s.producers i = .counting message → 0 < s.history.nowaits
  lossless : s.sub.policy = .block ∨ s.sub.policy = .error → s.history.nowaits = 0 →
    s.sub.dropped = 0

/-- The invariant while producer `i` is about to run a section with `message` in hand. -/
structure Offering (s : DeliveryState ι α) (i : ι) (message : α) : Prop where
  kept : Kept s.sub s.history
  window : s.sub.closed = false → s.sub.policy = .block ∨
    ∃ past, Window s.sub.policy s.sub.maxsize s.sub.buffer past ∧
      s.history.held ++ s.history.sinceRead = past ++ [message]
  balance : s.sub.closed = false → s.history.offers + (s.producers i).inHand =
    s.history.refusals + s.history.yielded.length + s.sub.buffer.length + s.sub.dropped +
      s.inHand + 1
  holders : ∀ i, 0 < (s.producers i).inHand → s.sub.policy = .block
  counting : ∀ i message, s.producers i = .counting message → 0 < s.history.nowaits
  lossless : s.sub.policy = .block ∨ s.sub.policy = .error → s.history.nowaits = 0 →
    s.sub.dropped = 0

lemma inHand_setProducer (s : DeliveryState ι α) (i : ι) (pc : ProducerPc α) :
    (s.setProducer i pc).inHand + (s.producers i).inHand = s.inHand + pc.inHand :=
  tally_update (fun _ pc => ProducerPc.inHand pc) s.producers i pc

omit [Fintype ι] in
/-- What holds of every producer holds after one of them has moved, if it holds of its new place. -/
lemma forall_setProducer {P : ProducerPc α → Prop} (h : ∀ j, P (s.producers j))
    {pc : ProducerPc α} (hpc : P pc) (j : ι) : P ((s.setProducer i pc).producers j) := by
  by_cases hji : j = i
  · subst hji
    simpa [setProducer] using hpc
  · simpa [setProducer, hji] using h j

/-- Assemble the invariant after a section that ends with producer `i` moving to `pc`. -/
lemma Counted.of_setProducer {pc : ProducerPc α} (kept : Kept s.sub s.history)
    (window : s.sub.closed = false →
      Window s.sub.policy s.sub.maxsize s.sub.buffer (s.history.held ++ s.history.sinceRead))
    (balance : s.sub.closed = false → s.history.offers + (s.producers i).inHand =
      s.history.refusals + s.history.yielded.length + s.sub.buffer.length + s.sub.dropped +
        s.inHand + pc.inHand)
    (holders : ∀ i, 0 < (s.producers i).inHand → s.sub.policy = .block)
    (hpc : 0 < pc.inHand → s.sub.policy = .block)
    (counting : ∀ i message, s.producers i = .counting message → 0 < s.history.nowaits)
    (hcounting : ∀ message, pc = .counting message → 0 < s.history.nowaits)
    (lossless : s.sub.policy = .block ∨ s.sub.policy = .error → s.history.nowaits = 0 →
      s.sub.dropped = 0) : (s.setProducer i pc).Counted where
  kept := kept
  window := window
  balance hopen := by
    have hbalance := balance hopen
    have hmoved := s.inHand_setProducer i pc
    simp only [setProducer] at hmoved ⊢
    omega
  holders := forall_setProducer (P := fun pc => 0 < pc.inHand → s.sub.policy = .block) holders hpc
  counting := forall_setProducer
    (P := fun pc => ∀ message, pc = .counting message → 0 < s.history.nowaits) counting hcounting
  lossless := lossless

/-- `_put` finds a place for the message in hand, or leaves it there under `block`. -/
lemma Offering.putStep {again : ProducerPc α} (h : s.Offering i message) (hagain : again.inHand = 1)
    (hcounting : ∀ message, again = .counting message → 0 < s.history.nowaits) :
    (s.putStep i message again).Counted := by
  have hidle (message : α) (hi : ProducerPc.idle = ProducerPc.counting message) :
      0 < s.history.nowaits := by cases hi
  have hhand (message : α) (hi : ProducerPc.hand s.sub.getter = .counting message) :
      0 < s.history.nowaits := by
    cases hgetter : s.sub.getter <;> rw [hgetter] at hi <;> cases hi
  have hkept := Kept.putStep h.kept i message again
  rcases s.putStep_cases i message again with ⟨hclosed, hp⟩ | ⟨hopen, hroom, hp⟩ |
    ⟨hopen, hfull, ⟨hpolicy, hp⟩ | ⟨hpolicy, hp⟩ | ⟨hpolicy, hp⟩ | ⟨hpolicy, hp⟩⟩ <;>
    rw [hp] at hkept ⊢
  · have hne (hopen : s.sub.closed = false) : False := by
      rw [hclosed] at hopen
      cases hopen
    exact .of_setProducer hkept (fun hopen => (hne hopen).elim) (fun hopen => (hne hopen).elim)
      h.holders (fun hpos => absurd hpos (lt_irrefl 0)) h.counting hidle h.lossless
  · refine .of_setProducer hkept (fun _ => ?_) (fun _ => ?_) h.holders (fun hpos => ?_) h.counting
      hhand h.lossless
    · rcases h.window hopen with hblock | ⟨past, hwindow, hpast⟩
      · simp [entering, Subscription.enter, Window, hblock]
      · simp only [entering, Subscription.enter, hpast]
        exact hwindow.enter hroom message
    · have hbalance := h.balance hopen
      simp only [entering, Subscription.enter, List.length_append, List.length_singleton,
        ProducerPc.inHand_hand, inHand] at hbalance ⊢
      omega
    · simp at hpos
  · refine .of_setProducer hkept (fun _ => ?_) (fun _ => ?_) h.holders
      (fun hpos => absurd hpos (lt_irrefl 0)) h.counting hidle fun hlossy => ?_
    · rcases h.window hopen with hblock | ⟨past, hwindow, hpast⟩
      · rw [hpolicy] at hblock
        cases hblock
      · simp only [Window, hpolicy] at hwindow ⊢
        rw [hpast, take_append_of_full _ _ (hwindow ▸ hfull), hwindow]
    · have hbalance := h.balance hopen
      simp only [inHand, ProducerPc.inHand] at hbalance ⊢
      omega
    · simp [hpolicy] at hlossy
  · refine .of_setProducer hkept (fun _ => ?_) (fun _ => ?_) h.holders (fun hpos => ?_) h.counting
      hhand fun hlossy => ?_
    · rcases h.window hopen with hblock | ⟨past, hwindow, hpast⟩
      · rw [hpolicy] at hblock
        cases hblock
      · simp only [entering, Subscription.enter, Window, hpolicy] at hwindow ⊢
        rw [hpast, rtake_append_of_full _ _ s.sub.maxsize_pos (hwindow ▸ hfull), hwindow]
    · have hbalance := h.balance hopen
      have hpos := s.sub.maxsize_pos
      simp only [entering, Subscription.enter, List.length_append, List.length_singleton,
        List.length_tail, ProducerPc.inHand_hand, inHand] at hbalance ⊢
      omega
    · simp at hpos
    · simp [entering, Subscription.enter, hpolicy] at hlossy
  · refine .of_setProducer hkept (fun _ => ?_) (fun _ => ?_) h.holders
      (fun hpos => absurd hpos (lt_irrefl 0)) h.counting hidle h.lossless
    · simp [Window, hpolicy]
    · have hbalance := h.balance hopen
      simp only [inHand, ProducerPc.inHand] at hbalance ⊢
      omega
  · refine .of_setProducer hkept (fun _ => ?_) (fun _ => ?_) h.holders (fun _ => hpolicy)
      h.counting hcounting h.lossless
    · simp [Window, hpolicy]
    · have hbalance := h.balance hopen
      omega

/-- The loop of `_offer` finds a place for the message in hand, or leaves it there. -/
lemma Offering.offerStep (h : s.Offering i message) (hpolicy : s.sub.policy = .block) :
    (s.offerStep i message).Counted := by
  have hkept := Kept.offerStep h.kept i message
  rcases s.offerStep_cases i message with ⟨hclosed, hp⟩ | ⟨hopen, hroom, hp⟩ | ⟨hopen, hfull, hp⟩ <;>
    rw [hp] at hkept ⊢
  · have hne (hopen : s.sub.closed = false) : False := by
      rw [hclosed] at hopen
      cases hopen
    refine .of_setProducer hkept (fun hopen => (hne hopen).elim) (fun hopen => (hne hopen).elim)
      h.holders (fun _ => hpolicy) h.counting (fun _ hi => ?_) h.lossless
    cases hi
  · refine .of_setProducer hkept (fun _ => ?_) (fun _ => ?_) h.holders (fun _ => hpolicy)
      h.counting (fun message hi => ?_) h.lossless
    · simp [entering, Subscription.enter, Window, hpolicy]
    · have hbalance := h.balance hopen
      simp only [entering, Subscription.enter, List.length_append, List.length_singleton,
        ProducerPc.inHand_hand, inHand] at hbalance ⊢
      omega
    · cases hgetter : s.sub.getter <;> rw [hgetter] at hi <;> cases hi
  · refine .of_setProducer hkept (fun _ => ?_) (fun _ => ?_) h.holders (fun _ => hpolicy)
      h.counting (fun _ hi => ?_) h.lossless
    · simp [Window, hpolicy]
    · have hbalance := h.balance hopen
      simp only [inHand, ProducerPc.inHand] at hbalance ⊢
      omega
    · cases hi

omit [DecidableEq ι] in
/-- A producer with a message in hand is about to offer it. -/
lemma Counted.offering (h : s.Counted) (hi : (s.producers i).inHand = 1) :
    s.Offering i message where
  kept := h.kept
  window _ := .inl (h.holders i (by omega))
  balance hopen := by
    have hbalance := h.balance hopen
    omega
  holders := h.holders
  counting := h.counting
  lossless := h.lossless

omit [DecidableEq ι] in
/-- A fresh offer of an idle producer. -/
lemma Counted.offered (h : s.Counted) (hi : s.producers i = .idle) (message : α) :
    (s.offered message).Offering i message where
  kept := ⟨h.kept.bounded, h.kept.order, h.kept.whole, h.kept.getter, h.kept.released, h.kept.left,
    h.kept.ended⟩
  window hopen := .inr ⟨_, h.window hopen, (List.append_assoc ..).symm⟩
  balance hopen := by
    have hbalance := h.balance hopen
    simp only [DeliveryState.offered, hi, ProducerPc.inHand, inHand] at hbalance ⊢
    omega
  holders := h.holders
  counting := h.counting
  lossless := h.lossless

omit [DecidableEq ι] in
/-- A fresh offer through `emit_nowait`. -/
lemma Counted.offeredNowait (h : s.Counted) (hi : s.producers i = .idle) (message : α) :
    (s.offeredNowait message).Offering i message where
  kept := ⟨h.kept.bounded, h.kept.order, h.kept.whole, h.kept.getter, h.kept.released, h.kept.left,
    h.kept.ended⟩
  window := (h.offered hi message).window
  balance := (h.offered hi message).balance
  holders := h.holders
  counting _ _ _ := Nat.succ_pos _
  lossless _ hnowaits := absurd hnowaits (Nat.succ_ne_zero _)

omit [DecidableEq ι] in
/-- A step that leaves the producers, the counters and what is buffered or yielded alone. -/
lemma Counted.of_same (h : s.Counted) (kept : Kept s'.sub s'.history)
    (window : s'.sub.closed = false →
      Window s'.sub.policy s'.sub.maxsize s'.sub.buffer (s'.history.held ++ s'.history.sinceRead))
    (hopen : s'.sub.closed = false → s.sub.closed = false)
    (hproducers : s'.producers = s.producers) (hpolicy : s'.sub.policy = s.sub.policy)
    (hdropped : s'.sub.dropped = s.sub.dropped) (hnowaits : s'.history.nowaits = s.history.nowaits)
    (hoffers : s'.history.offers = s.history.offers)
    (hrefusals : s'.history.refusals = s.history.refusals)
    (hmessages : s'.history.yielded.length + s'.sub.buffer.length =
      s.history.yielded.length + s.sub.buffer.length) : s'.Counted := by
  refine ⟨kept, window, fun h' => ?_, fun i hi => ?_, fun i message hi => ?_, fun hp hn => ?_⟩
  · have hbalance := h.balance (hopen h')
    rw [inHand] at hbalance ⊢
    rw [hproducers]
    omega
  · rw [hpolicy]
    exact h.holders i (hproducers ▸ hi)
  · rw [hnowaits]
    exact h.counting i message (hproducers ▸ hi)
  · rw [hdropped]
    exact h.lossless (hpolicy ▸ hp) (hnowaits ▸ hn)

omit [DecidableEq ι] in
lemma Counted.nextStep (h : s.Counted) : s.nextStep.Counted := by
  have hkept := Kept.nextStep h.kept
  rcases s.nextStep_cases with ⟨item, buffer, hbuffer, hp⟩ | ⟨-, hclosed, hp⟩ |
    ⟨hbuffer, hopen, hp⟩ <;> rw [hp] at hkept ⊢
  · refine h.of_same hkept (fun _ => ?_) (fun h => h) rfl rfl rfl rfl rfl rfl ?_
    · have hlen := h.kept.bounded
      rw [hbuffer, List.length_cons] at hlen
      have hbound : buffer.length ≤ s.sub.maxsize := by omega
      simp only [Window, List.append_nil]
      split
      · rw [List.rtake, Nat.sub_eq_zero_of_le hbound, List.drop_zero]
      · exact (List.take_of_length_le hbound).symm
      · trivial
      · trivial
    · simp only [hbuffer, List.length_append, List.length_cons, List.length_nil]
      omega
  · exact h.of_same hkept (fun hopen => absurd (hclosed.symm.trans hopen) (by decide))
      (fun h => h) rfl rfl rfl rfl rfl rfl rfl
  · refine h.of_same hkept (fun _ => ?_) (fun h => h) rfl rfl rfl rfl rfl rfl rfl
    simp only [Window, List.append_nil, hbuffer]
    split <;> simp

omit [DecidableEq ι] in
lemma Counted.closeStep (h : s.Counted) : s.closeStep.Counted := by
  have hkept := Kept.closeStep h.kept
  rcases s.closeStep_cases with ⟨-, hp⟩ | ⟨hopen, hp⟩ <;> rw [hp] at hkept ⊢
  · exact h
  · refine h.of_same hkept (fun hopen => ?_) (fun _ => hopen) rfl rfl rfl rfl rfl rfl rfl
    cases hopen

lemma Counted.producerStep (h : s.Counted) (taken : s.producerStep i = some s') : s'.Counted := by
  rcases producerStep_cases taken with ⟨message, hi, rfl⟩ | ⟨message, hi, rfl⟩ | ⟨getter, hi, rfl⟩ |
    ⟨message, hi, rfl⟩
  · refine (h.offering (by rw [hi]; rfl)).putStep rfl fun _ hcounting => ?_
    cases hcounting
  · have hone : (s.producers i).inHand = 1 := by
      rcases hi with hi | ⟨n, hi, -⟩ <;> rw [hi] <;> rfl
    exact (h.offering hone).offerStep (h.holders i (by omega))
  · refine .of_setProducer h.kept h.window (fun hopen => ?_) h.holders
      (fun hpos => absurd hpos (lt_irrefl 0)) h.counting (fun _ hcounting => ?_) h.lossless
    · have hbalance := h.balance hopen
      simp only [hi, ProducerPc.inHand, inHand] at hbalance ⊢
      omega
    · cases hcounting
  · refine .of_setProducer ⟨h.kept.bounded, h.kept.order, h.kept.whole, h.kept.getter,
      h.kept.released, h.kept.left, h.kept.ended⟩ h.window (fun hopen => ?_) h.holders
      (fun hpos => absurd hpos (lt_irrefl 0)) h.counting (fun _ hcounting => ?_) fun _ hn => ?_
    · have hbalance := h.balance hopen
      simp only [hi, ProducerPc.inHand, inHand] at hbalance ⊢
      omega
    · cases hcounting
    · exact absurd (h.counting i message hi) (by simpa using hn)

end DeliveryState

/-- The action is the cancellation of a producer. -/
def DeliveryAction.cancelsProducer : DeliveryAction ι α → Bool
  | .cancelProducer _ => true
  | _ => false

namespace DeliveryState

variable [DecidableEq ι] [Fintype ι] {s s' : DeliveryState ι α}

/-- No step but the cancellation of a producer loses count of a message. -/
theorem Counted.step {a : DeliveryAction ι α} (h : s.Counted) (ha : a.cancelsProducer = false)
    (taken : s.step a = some s') : s'.Counted := by
  cases a with
  | emit i message =>
    obtain ⟨hi, rfl⟩ := step_emit taken
    refine (h.offered hi message).putStep rfl fun _ hcounting => ?_
    cases hcounting
  | emitNowait i message =>
    obtain ⟨hi, rfl⟩ := step_emitNowait taken
    exact (h.offeredNowait hi message).putStep rfl fun _ _ => Nat.succ_pos _
  | producer i => exact h.producerStep taken
  | cancelProducer i => cases ha
  | read =>
    obtain ⟨-, rfl⟩ := of_guard taken
    exact h.nextStep
  | reader =>
    rcases readerStep_cases taken with ⟨n, -, -, rfl⟩ | ⟨putter, -, rfl⟩
    · exact h.nextStep
    · exact h.of_same h.kept h.window (fun h => h) rfl rfl rfl rfl rfl rfl rfl
  | cancelReader =>
    obtain ⟨n, -, rfl⟩ := step_cancelReader taken
    exact h.of_same h.kept h.window (fun h => h) rfl rfl rfl rfl rfl rfl rfl
  | resolve future =>
    obtain ⟨-, rfl⟩ := of_guard taken
    exact h.of_same h.kept h.window (fun h => h) rfl rfl rfl rfl rfl rfl rfl
  | close =>
    cases taken
    exact h.closeStep
  | release =>
    obtain ⟨future, closing, -, rfl⟩ := step_release taken
    exact h.of_same h.kept h.window (fun h => h) rfl rfl rfl rfl rfl rfl rfl

omit [DecidableEq ι] in
lemma counted_new (topic : String) (maxsize : ℕ) (maxsize_pos : 0 < maxsize) (policy : Policy) :
    (new topic maxsize maxsize_pos policy : DeliveryState ι α).Counted := by
  refine ⟨⟨Nat.zero_le _, List.Sublist.refl _, fun _ => rfl, fun _ hg => ?_, fun _ => rfl,
    fun _ => rfl, fun hended => ?_⟩, fun _ => ?_, fun _ => ?_, fun _ hi => ?_, fun _ _ hi => ?_,
    fun _ _ => rfl⟩
  · cases hg
  · cases hended
  · cases policy <;> simp [new, Subscription.new, History.empty, Window]
  · simp [new, Subscription.new, History.empty, inHand, tally, ProducerPc.inHand]
  · cases hi
  · cases hi

omit [Fintype ι] in
/-- The reader of a closed subscription gets what is buffered, one message a call, and then the end
of the iteration. -/
lemma exists_drained (hclosed : s.sub.closed = true) (hputters : s.sub.putters = [])
    (hreader : s.reader = .idle) :
    ∃ s', exec step (fun _ a => a.cancelsProducer = false) s
        (List.replicate (s.sub.buffer.length + 1) .read) = some s' ∧
      s'.history.yielded = s.history.yielded ++ s.sub.buffer ∧ s'.history.ended = true := by
  have hread : s.step .read = some s.nextStep := if_pos hreader
  generalize hbuffer : s.sub.buffer = buffer
  induction buffer generalizing s with
  | nil =>
    rcases s.nextStep_cases with ⟨item, rest, hcons, -⟩ | ⟨-, -, hp⟩ | ⟨-, hopen, -⟩
    · cases hbuffer.symm.trans hcons
    · refine ⟨s.nextStep, ?_, ?_, ?_⟩
      · simp [exec, hread, DeliveryAction.cancelsProducer]
      · simp [hp]
      · simp [hp]
    · cases hclosed.symm.trans hopen
  | cons item rest ih =>
    rcases s.nextStep_cases with ⟨item', rest', hcons, hp⟩ | ⟨hnil, -, -⟩ | ⟨hnil, -, -⟩
    · obtain ⟨rfl, rfl⟩ := List.cons.inj (hbuffer.symm.trans hcons)
      have hidle : s.nextStep.reader = .idle := by simp [hp, hputters]
      obtain ⟨s', hexec, hyielded, hended⟩ := ih (s := s.nextStep) (by simpa [hp] using hclosed)
        (by simp [hp, hputters]) hidle (if_pos hidle) (by simp [hp])
      refine ⟨s', ?_, ?_, hended⟩
      · have hok : DeliveryAction.cancelsProducer (.read : DeliveryAction ι α) = false := rfl
        rw [List.length_cons, List.replicate_succ, exec, if_pos hok, hread, Option.bind_some]
        exact hexec
      · rw [hyielded, hp]
        simp
    · cases hbuffer.symm.trans hnil
    · cases hbuffer.symm.trans hnil

/-- What a subscription promises at every moment of its life.

`balance`: up to the close, the messages offered and not refused are those yielded, buffered,
dropped, or in the hands of a producer.  `bounded`: the buffer never exceeds `maxsize`.  `order`:
messages are yielded in the order in which they entered the buffer, and none is missing unless the
policy drops the oldest.  `newest`, `oldest`: after any offers since the last read, a `drop_oldest`
buffer is the last `maxsize` and a `drop_newest` buffer the first `maxsize` of what it held followed
by what it was offered.  `lossless`: with `block` or `error` and no `emit_nowait`, nothing is
dropped.  `rest`, `drains`: after the close, what was buffered is still yielded and then the
iteration ends.  `parked`: a reader is parked on its getter only while the buffer is empty and the
subscription open; from then on its wake is on its way. -/
structure Conserved (s : DeliveryState ι α) : Prop where
  balance : s.sub.closed = false → s.history.offers - s.history.refusals =
    s.history.yielded.length + s.sub.buffer.length + s.sub.dropped + ∑ i, (s.producers i).inHand
  refusals : s.sub.closed = false → s.history.refusals ≤ s.history.offers
  bounded : s.sub.buffer.length ≤ s.sub.maxsize
  order : (s.history.yielded ++ s.sub.buffer).Sublist s.history.entered
  whole : s.sub.policy ≠ .dropOldest → s.history.yielded ++ s.sub.buffer = s.history.entered
  newest : s.sub.closed = false → s.sub.policy = .dropOldest →
    s.sub.buffer = (s.history.held ++ s.history.sinceRead).rtake s.sub.maxsize
  oldest : s.sub.closed = false → s.sub.policy = .dropNewest →
    s.sub.buffer = (s.history.held ++ s.history.sinceRead).take s.sub.maxsize
  lossless : s.sub.policy = .block ∨ s.sub.policy = .error → s.history.nowaits = 0 →
    s.sub.dropped = 0
  rest : s.sub.closed = true → s.history.yielded ++ s.sub.buffer = s.history.left
  drains : s.sub.closed = true → s.reader = .idle →
    ∃ s', exec step (fun _ a => a.cancelsProducer = false) s
        (List.replicate (s.sub.buffer.length + 1) .read) = some s' ∧
      s'.history.yielded = s.history.left ∧ s'.history.ended = true
  ended : s.history.ended = true → s.sub.closed = true ∧ s.history.yielded = s.history.left
  parked : ∀ n, s.reader = .parked n →
    (s.sub.getter = some n ∧ s.sub.buffer = [] ∧ s.sub.closed = false) ∨ s.Waking (.getter n)

lemma Counted.conserved_of_awaited (h : s.Counted) (hawaited : s.Awaited) : s.Conserved where
  balance hopen := by
    have hbalance := h.balance hopen
    simp only [inHand, tally] at hbalance
    omega
  refusals hopen := by
    have hbalance := h.balance hopen
    omega
  bounded := h.kept.bounded
  order := h.kept.order
  whole := h.kept.whole
  newest hopen hpolicy := by simpa only [Window, hpolicy] using h.window hopen
  oldest hopen hpolicy := by simpa only [Window, hpolicy] using h.window hopen
  lossless := h.lossless
  rest := h.kept.left
  drains hclosed hreader := by
    obtain ⟨s', hexec, hyielded, hended⟩ :=
      exists_drained hclosed (h.kept.released hclosed) hreader
    exact ⟨s', hexec, hyielded.trans (h.kept.left hclosed), hended⟩
  ended hended := by
    obtain ⟨hclosed, hbuffer⟩ := h.kept.ended hended
    have hleft := h.kept.left hclosed
    rw [hbuffer, List.append_nil] at hleft
    exact ⟨hclosed, hleft⟩
  parked n hn := by
    rcases (hawaited.parked n hn).2.2 with hgetter | hwaking
    · exact .inl ⟨hgetter, h.kept.getter n hgetter⟩
    · exact .inr hwaking

end DeliveryState

open DeliveryState

variable [DecidableEq ι] [Fintype ι]

end Oxbrook
