import Oxbrook.Streams.Handover

/-!
# Producers waiting for room

Under the `block` policy a producer that finds the buffer full queues a waiter and each read takes
one waiter out of the queue and wakes it.  A wake is worth one free slot, so as long as every wake
reaches a producer that still waits, a queued producer and a free slot imply that enough wakes are
on their way (`Covered`).

The waiter of a cancelled producer stays in `_putters`.  A read that takes it out spends its wake on
nobody, and so does the cancellation of a producer between its wake and its next run.  The results
are about the runs in which this never happens while another producer is queued, and
`read_wakes_cancelled_producer` is a run in which it does.
-/

namespace Oxbrook

open StepMachine

variable {ι α : Type*} [DecidableEq ι]

namespace DeliveryState

/-! ## Wakes and queued producers -/

/-- Some producer awaits a waiter in `_putters`. -/
def queued (s : DeliveryState ι α) : Bool :=
  s.sub.putters.any fun p => (s.producers p.1).awaits == some p.2

/-- The reader's next section takes a waiter out of `_putters` whose producer was cancelled. -/
def popsCancelled (s : DeliveryState ι α) : Bool :=
  !s.sub.buffer.isEmpty &&
    match s.sub.putters with
    | [] => false
    | p :: _ => (s.producers p.1).awaits != some p.2

/-- The action spends a wake on a producer that does not wait any more: a section of `__anext__`
that pops a cancelled waiter, or the cancellation of a producer whose waiter was popped. -/
def wastesWake (s : DeliveryState ι α) : DeliveryAction ι α → Bool
  | .read => s.popsCancelled
  | .reader =>
    match s.reader with
    | .parked _ => s.popsCancelled
    | _ => false
  | .cancelProducer i =>
    match (s.producers i).awaits with
    | some n => !s.sub.putters.contains (i, n)
    | none => false
  | _ => false

/-- One for a producer that awaits a waiter no longer in `_putters`. -/
def wokenWeight (putters : List (ι × ℕ)) (i : ι) (pc : ProducerPc α) : ℕ :=
  match pc.awaits with
  | some n => if (i, n) ∈ putters then 0 else 1
  | none => 0

/-- How many producers have been woken and have not run yet. -/
def woken [Fintype ι] (s : DeliveryState ι α) : ℕ :=
  tally (wokenWeight s.sub.putters) s.producers

variable {s s' : DeliveryState ι α} {i : ι}

omit [DecidableEq ι] in
lemma queued_iff : s.queued = true ↔ ∃ p ∈ s.sub.putters, (s.producers p.1).awaits = some p.2 := by
  simp [queued]

lemma wokenWeight_of_awaits_eq_none {putters : List (ι × ℕ)} {pc : ProducerPc α}
    (h : pc.awaits = none) : wokenWeight putters i pc = 0 := by
  simp [wokenWeight, h]

lemma wokenWeight_le_one (putters : List (ι × ℕ)) (i : ι) (pc : ProducerPc α) :
    wokenWeight putters i pc ≤ 1 := by
  unfold wokenWeight
  split
  · split <;> omega
  · omega

lemma wokenWeight_congr {putters putters' : List (ι × ℕ)} {pc pc' : ProducerPc α}
    (hpc : pc.awaits = pc'.awaits) (hmem : ∀ n, (i, n) ∈ putters ↔ (i, n) ∈ putters') :
    wokenWeight putters i pc = wokenWeight putters' i pc' := by
  unfold wokenWeight
  rw [hpc]
  split
  · simp only [hmem]
  · rfl

variable [Fintype ι]

/-- While the subscription is open and a producer is queued, every free slot has a wake that was
spent on it and is still on its way. -/
structure Covered (s : DeliveryState ι α) : Prop where
  awaited : s.Awaited
  nodup : s.sub.putters.Nodup
  fresh : ∀ p ∈ s.sub.putters, p.2 < s.waiters p.1
  cover : s.sub.closed = false → s.queued = true → s.sub.maxsize ≤ s.sub.buffer.length + s.woken

/-- A step that neither queues nor pops a waiter keeps the cover, if it does not make room faster
than it uses up wakes. -/
lemma Covered.of_same (hs : s.Covered) (hawaited : s'.Awaited)
    (hputters : s'.sub.putters = s.sub.putters) (hwaiters : s'.waiters = s.waiters)
    (hmaxsize : s'.sub.maxsize = s.sub.maxsize) (hclosed : s.sub.closed = true → s'.sub.closed = true)
    (hawaits : ∀ j n, (s'.producers j).awaits = some n → (s.producers j).awaits = some n)
    (hcount : s.queued = true → s.sub.buffer.length + s.woken ≤ s'.sub.buffer.length + s'.woken) :
    s'.Covered := by
  refine ⟨hawaited, by rw [hputters]; exact hs.nodup, fun p hp => ?_, fun hopen hqueued => ?_⟩
  · rw [hwaiters]
    exact hs.fresh p (hputters ▸ hp)
  · obtain ⟨p, hp, hwait⟩ := queued_iff.mp hqueued
    have hbefore : s.queued = true := queued_iff.mpr ⟨p, hputters ▸ hp, hawaits _ _ hwait⟩
    have hopen' : s.sub.closed = false := by
      cases h : s.sub.closed with
      | false => rfl
      | true => rw [hclosed h] at hopen; cases hopen
    have hcover := hs.cover hopen' hbefore
    have := hcount hbefore
    omega

/-- The case in which everybody awaits what they awaited before. -/
lemma Covered.of_same_awaits (hs : s.Covered) (hawaited : s'.Awaited)
    (hputters : s'.sub.putters = s.sub.putters) (hwaiters : s'.waiters = s.waiters)
    (hmaxsize : s'.sub.maxsize = s.sub.maxsize) (hclosed : s.sub.closed = true → s'.sub.closed = true)
    (hawaits : ∀ j, (s'.producers j).awaits = (s.producers j).awaits)
    (hbuffer : s.sub.buffer.length ≤ s'.sub.buffer.length) : s'.Covered := by
  have hwoken : s.woken = s'.woken :=
    tally_congr fun j => wokenWeight_congr (hawaits j).symm fun n => by rw [hputters]
  refine hs.of_same hawaited hputters hwaiters hmaxsize hclosed (fun j n h => hawaits j ▸ h)
    fun _ => ?_
  omega

omit [Fintype ι] in
/-- What `_put` does to the buffer: nothing is removed without something being added. -/
lemma putStep_sub (s : DeliveryState ι α) (i : ι) (message : α) (again : ProducerPc α) :
    (s.putStep i message again).sub.maxsize = s.sub.maxsize ∧
      (s.putStep i message again).sub.closed = s.sub.closed ∧
      s.sub.buffer.length ≤ (s.putStep i message again).sub.buffer.length := by
  rcases s.putStep_cases i message again with ⟨-, hp⟩ | ⟨-, -, hp⟩ | ⟨-, hfull, ⟨-, hp⟩ | ⟨-, hp⟩ |
    ⟨-, hp⟩ | ⟨-, hp⟩⟩ <;> rw [hp]
  case inr.inr.inr.inl =>
    have hpos := s.sub.maxsize_pos
    refine ⟨rfl, rfl, ?_⟩
    simp only [setProducer, entering, Subscription.enter, List.length_append, List.length_tail,
      List.length_singleton]
    omega
  all_goals simp [setProducer, entering, Subscription.enter]

lemma Covered.putStep {message : α} {again : ProducerPc α} (hs : s.Covered)
    (hawaited : (s.putStep i message again).Awaited) (hi : (s.producers i).awaits = none)
    (hagain : again.awaits = none) : (s.putStep i message again).Covered := by
  obtain ⟨hmaxsize, hclosed, hbuffer⟩ := s.putStep_sub i message again
  refine hs.of_same_awaits hawaited (s.putStep_putters i message again)
    (s.putStep_waiters i message again) hmaxsize (fun h => hclosed.trans h) (fun j => ?_) hbuffer
  by_cases hj : j = i
  · subst hj
    rw [hi, Option.eq_none_iff_forall_ne_some]
    intro n hn
    exact (putStep_awaits hagain hn).1 rfl
  · rw [putStep_producers_of_ne s i message again hj]

/-- A producer that runs the loop of `_offer` either uses up one wake for the slot it takes, or
finds no slot free. -/
lemma Covered.offerStep {message : α} (hs : s.Covered)
    (hawaited : (s.offerStep i message).Awaited) : (s.offerStep i message).Covered := by
  rcases s.offerStep_cases i message with ⟨hclosed, hp⟩ | ⟨-, -, hp⟩ | ⟨-, hfull, hp⟩ <;>
    rw [hp] at hawaited ⊢
  · refine ⟨hawaited, hs.nodup, hs.fresh, fun hopen _ => ?_⟩
    exact absurd (hclosed.symm.trans hopen) (by decide)
  · refine hs.of_same hawaited rfl rfl rfl (fun h => h) (fun j n hj => ?_) fun _ => ?_
    · by_cases hji : j = i
      · subst hji
        simp [setProducer] at hj
      · simpa [setProducer, entering, hji] using hj
    · have hcount := tally_update (wokenWeight s.sub.putters) s.producers i (.hand s.sub.getter)
      have hle := wokenWeight_le_one s.sub.putters i (s.producers i)
      rw [wokenWeight_of_awaits_eq_none (ProducerPc.awaits_hand _)] at hcount
      simp only [setProducer, entering, Subscription.enter, woken, List.length_append,
        List.length_singleton]
      omega
  · refine ⟨hawaited, ?_, fun p hp' => ?_, fun _ _ => Nat.le_add_right_of_le hfull⟩
    · refine List.nodup_append.mpr ⟨hs.nodup, List.nodup_singleton _, ?_⟩
      rintro p hold q hnew rfl
      rw [List.mem_singleton.mp hnew] at hold
      exact absurd (hs.fresh _ hold) (lt_irrefl _)
    · have hle : s.waiters p.1 ≤ Function.update s.waiters i (s.waiters i + 1) p.1 := by
        by_cases hpi : p.1 = i
        · rw [hpi, Function.update_self]
          omega
        · rw [Function.update_of_ne hpi]
      rcases List.mem_append.mp hp' with hold | hnew
      · exact (hs.fresh p hold).trans_le hle
      · rw [List.mem_singleton.mp hnew]
        simp [setProducer]

/-- A section of `__anext__` that takes a message makes one slot free and wakes one producer. -/
lemma Covered.nextStep (hs : s.Covered) (hawaited : s.nextStep.Awaited)
    (hwake : s.popsCancelled = true → s.queued = false) : s.nextStep.Covered := by
  rcases s.nextStep_cases with ⟨item, buffer, hbuffer, hp⟩ | ⟨-, -, hp⟩ | ⟨-, -, hp⟩ <;>
    rw [hp] at hawaited ⊢
  · refine ⟨hawaited, hs.nodup.sublist (List.tail_sublist _),
      fun p hmem => hs.fresh p (List.mem_of_mem_tail hmem), fun hopen hqueued => ?_⟩
    cases hputters : s.sub.putters with
    | nil => simp [queued, hputters] at hqueued
    | cons p putters =>
      obtain ⟨q, hq, hqwait⟩ := queued_iff.mp hqueued
      have hbefore : s.queued = true := queued_iff.mpr ⟨q, List.mem_of_mem_tail hq, hqwait⟩
      -- the popped waiter is live, or its wake would be wasted with a producer queued
      have hlive : (s.producers p.1).awaits = some p.2 := by
        by_contra hdead
        rw [hwake (by simp [popsCancelled, hbuffer, hputters, hdead])] at hbefore
        cases hbefore
      have hcover := hs.cover hopen hbefore
      have hp_notMem : p ∉ putters := (List.nodup_cons.mp (hputters ▸ hs.nodup)).1
      have hcount : tally (wokenWeight (p :: putters)) s.producers +
            wokenWeight putters p.1 (s.producers p.1) =
          tally (wokenWeight putters) s.producers +
            wokenWeight (p :: putters) p.1 (s.producers p.1) :=
        tally_change p.1 fun j hj => wokenWeight_congr rfl fun n => by
          rw [List.mem_cons, or_iff_right fun h => hj (congrArg Prod.fst h)]
      have hzero : wokenWeight (p :: putters) p.1 (s.producers p.1) = 0 := by
        simp [wokenWeight, hlive]
      have hone : wokenWeight putters p.1 (s.producers p.1) = 1 := by
        simp [wokenWeight, hlive, hp_notMem]
      rw [hbuffer] at hcover
      simp only [woken, hputters, List.tail_cons, List.length_cons] at hcover ⊢
      omega
  · exact hs.of_same_awaits hawaited rfl rfl rfl (fun h => h) (fun _ => rfl) le_rfl
  · exact hs.of_same_awaits hawaited rfl rfl rfl (fun h => h) (fun _ => rfl) le_rfl

/-- A run loses no wake: each step either wastes none, or finds nobody queued. -/
theorem Covered.step {a : DeliveryAction ι α} (hs : s.Covered)
    (hwake : s.wastesWake a = true → s.queued = false) (taken : s.step a = some s') :
    s'.Covered := by
  have hawaited := hs.awaited.step taken
  cases a with
  | emit i message =>
    obtain ⟨hi, rfl⟩ := step_emit taken
    have hoffered : (s.offered message).Covered :=
      hs.of_same_awaits ⟨hs.awaited.freshGetter, hs.awaited.freshWaiter, hs.awaited.parked,
        hs.awaited.waiting⟩ rfl rfl rfl (fun h => h) (fun _ => rfl) le_rfl
    exact hoffered.putStep hawaited (by simp [offered, hi]) rfl
  | emitNowait i message =>
    obtain ⟨hi, rfl⟩ := step_emitNowait taken
    have hoffered : (s.offeredNowait message).Covered :=
      hs.of_same_awaits ⟨hs.awaited.freshGetter, hs.awaited.freshWaiter, hs.awaited.parked,
        hs.awaited.waiting⟩ rfl rfl rfl (fun h => h) (fun _ => rfl) le_rfl
    exact hoffered.putStep hawaited (by simp [offeredNowait, offered, hi]) rfl
  | producer i =>
    have hidle (sub : Subscription α ℕ (ι × ℕ)) (scheduled : List (Future ι)) (j : ι)
        (hi : (s.producers i).awaits = none) :
        (({ s with sub := sub, scheduled := scheduled }.setProducer i .idle).producers j).awaits =
          (s.producers j).awaits := by
      by_cases hji : j = i
      · subst hji
        simp [setProducer, hi]
      · simp [setProducer, hji]
    rcases producerStep_cases taken with ⟨message, hi, rfl⟩ | ⟨message, hi, rfl⟩ |
      ⟨getter, hi, rfl⟩ | ⟨message, hi, rfl⟩
    · exact hs.putStep hawaited (by rw [hi]; rfl) rfl
    · exact hs.offerStep hawaited
    · exact hs.of_same_awaits hawaited rfl rfl rfl (fun h => h)
        (fun j => hidle _ _ j (by rw [hi]; rfl)) le_rfl
    · exact hs.of_same_awaits hawaited rfl rfl rfl (fun h => h)
        (fun j => hidle _ _ j (by rw [hi]; rfl)) le_rfl
  | cancelProducer i =>
    obtain ⟨message, n, hi, rfl⟩ := step_cancelProducer taken
    refine hs.of_same hawaited rfl rfl rfl (fun h => h) (fun j k hj => ?_) fun hqueued => ?_
    · by_cases hji : j = i
      · subst hji
        simp [setProducer] at hj
      · simpa [setProducer, hji] using hj
    · -- with a producer queued, the one cancelled was not woken yet
      have hmem : (i, n) ∈ s.sub.putters := by
        by_contra hnot
        rw [hwake (by simp [wastesWake, hi, hnot])] at hqueued
        cases hqueued
      have hcount := tally_update (wokenWeight s.sub.putters) s.producers i .idle
      have hzero : wokenWeight s.sub.putters i (s.producers i) = 0 := by
        simp [wokenWeight, hi, hmem]
      have hidle : wokenWeight s.sub.putters i (ProducerPc.idle : ProducerPc α) = 0 := rfl
      simp only [setProducer, woken]
      omega
  | read =>
    obtain ⟨-, rfl⟩ := of_guard taken
    exact hs.nextStep hawaited hwake
  | reader =>
    rcases readerStep_cases taken with ⟨n, hreader, -, rfl⟩ | ⟨putter, hreader, rfl⟩
    · exact hs.nextStep hawaited fun h => hwake (by simp [wastesWake, hreader, h])
    · exact hs.of_same_awaits hawaited rfl rfl rfl (fun h => h) (fun _ => rfl) le_rfl
  | cancelReader =>
    obtain ⟨n, -, rfl⟩ := step_cancelReader taken
    exact hs.of_same_awaits hawaited rfl rfl rfl (fun h => h) (fun _ => rfl) le_rfl
  | resolve future =>
    obtain ⟨-, rfl⟩ := of_guard taken
    exact hs.of_same_awaits hawaited rfl rfl rfl (fun h => h) (fun _ => rfl) le_rfl
  | close =>
    cases taken
    rcases s.closeStep_cases with ⟨-, hp⟩ | ⟨-, hp⟩
    · rwa [hp]
    · rw [hp] at hawaited ⊢
      refine ⟨hawaited, List.nodup_nil, fun p hmem => ?_, fun hopen => ?_⟩
      · cases hmem
      · cases hopen
  | release =>
    obtain ⟨future, closing, -, rfl⟩ := step_release taken
    exact hs.of_same_awaits hawaited rfl rfl rfl (fun h => h) (fun _ => rfl) le_rfl

lemma covered_new (topic : String) (maxsize : ℕ) (maxsize_pos : 0 < maxsize) (policy : Policy) :
    (new topic maxsize maxsize_pos policy : DeliveryState ι α).Covered := by
  refine ⟨awaited_new topic maxsize maxsize_pos policy, List.nodup_nil, fun p hp => ?_,
    fun _ hqueued => ?_⟩
  · cases hp
  · simp [queued, new, Subscription.new] at hqueued

/-- Where a slot is free and a producer waits, a producer that waits is being woken. -/
lemma Covered.exists_waking (hs : s.Covered) (hopen : s.sub.closed = false)
    (hroom : s.sub.buffer.length < s.sub.maxsize)
    (hwaits : ∃ i n, (s.producers i).awaits = some n) :
    ∃ i n, (s.producers i).awaits = some n ∧ s.Waking (.waiter i n) := by
  obtain ⟨i, n, hi⟩ := hwaits
  rcases (hs.awaited.waiting i n hi).2.2 with hmem | hwaking
  · have hcover := hs.cover hopen (queued_iff.mpr ⟨(i, n), hmem, hi⟩)
    have hpos : 0 < s.woken := by omega
    obtain ⟨j, hj⟩ := exists_of_tally_pos hpos
    unfold wokenWeight at hj
    split at hj
    case h_1 k hk =>
      have hnot : (j, k) ∉ s.sub.putters := fun h => by simp [h] at hj
      exact ⟨j, k, hk, (hs.awaited.waiting j k hk).2.2.resolve_left hnot⟩
    · cases hj
  · exact ⟨i, n, hi, hwaking⟩

end DeliveryState

open DeliveryState

/-- **Blocked producers are not stranded.**  In every run in which no wake is wasted while a
producer is queued: whenever the subscription is open, an uncancelled producer waits in `_offer` and
the buffer has room, a resolve for such a producer is on its way; in particular when the reader is
parked on its getter with an empty buffer. -/
theorem blocked_producer_woken [Fintype ι] (topic : String) (maxsize : ℕ)
    (maxsize_pos : 0 < maxsize) {s : DeliveryState ι α}
    (run : Reaches step (fun s a => s.wastesWake a = true → s.queued = false)
      (new topic maxsize maxsize_pos .block) s) :
    (s.sub.closed = false → s.sub.buffer.length < s.sub.maxsize →
      (∃ i n, (s.producers i).awaits = some n) →
      ∃ i n, (s.producers i).awaits = some n ∧ s.Waking (.waiter i n)) ∧
    (∀ k, s.reader = .parked k → s.sub.closed = false → s.sub.buffer = [] →
      (∃ i n, (s.producers i).awaits = some n) →
      ∃ i n, (s.producers i).awaits = some n ∧ s.Waking (.waiter i n)) := by
  have hs : s.Covered := run.invariant (covered_new topic maxsize maxsize_pos .block)
    fun _ _ _ hI permitted taken => hI.step permitted taken
  refine ⟨hs.exists_waking, fun _ _ hopen hempty hwaits => ?_⟩
  refine hs.exists_waking hopen ?_ hwaits
  rw [hempty]
  exact s.sub.maxsize_pos

/-- Two producers wait for the one slot; the message buffered is read and one of them is woken. -/
theorem blocked_producer_woken_two_producers :
    ∃ s : DeliveryState (Fin 2) ℕ, s.sub.buffer.length < s.sub.maxsize ∧
      (s.producers 1).awaits = some 0 ∧
      ∃ i n, (s.producers i).awaits = some n ∧ s.Waking (.waiter i n) := by
  refine ⟨_, ?_, ?_, (blocked_producer_woken "orders" 1 Nat.one_pos
    (Reaches.of_exec [.emit 0 10, .emit 0 11, .producer 0, .producer 0, .emit 1 12, .producer 1,
      .producer 1, .read] rfl)).1 rfl ?_ ⟨1, 0, rfl⟩⟩
  all_goals decide

/-- **A read can wake a producer that was cancelled.**  Two producers wait for the one slot and the
first is cancelled.  The read takes its waiter out of `_putters`, the slot stays free, and when the
reader comes back it parks with an empty buffer while the second producer waits for a wake that
nobody will send. -/
theorem read_wakes_cancelled_producer :
    ∃ s : DeliveryState (Fin 2) ℕ, Reachable step (new "orders" 1 Nat.one_pos .block) s ∧
      s.sub.closed = false ∧ s.sub.buffer = [] ∧ s.reader = .parked 0 ∧
      (s.producers 1).awaits = some 0 ∧
      ¬ ∃ i n, (s.producers i).awaits = some n ∧ s.Waking (.waiter i n) := by
  refine ⟨_, Reachable.of_exec [.emit 0 10, .emit 0 11, .producer 0, .producer 0, .emit 1 12,
    .producer 1, .producer 1, .cancelProducer 0, .read, .reader, .resolve (.waiter 0 0), .read]
    rfl, rfl, rfl, rfl, rfl, ?_⟩
  rintro ⟨i, n, hwaits, hwaking⟩
  obtain ⟨rfl, rfl⟩ : i = 1 ∧ n = 0 := by
    match i, hwaits with
    | 0, hwaits => cases hwaits
    | 1, hwaits => exact ⟨rfl, (Option.some.inj hwaits).symm⟩
  rcases hwaking with h | h | h | ⟨j, k, h, -⟩ | ⟨j, k, -, h⟩
  · exact absurd h (by decide)
  · exact absurd h (by decide)
  · exact absurd h (by decide)
  · cases h
  · cases h

end Oxbrook
