import Oxbrook.Streams.Delivery

/-!
# No awaited future is lost

A coroutine that awaits a future runs again only if somebody resolves it.  `Waking` says that a
resolve is on its way; `Awaited`, that every future a producer or the reader awaits is uncancelled
and is either where a later section finds it, in `_getter` or in `_putters`, or on its way.  Every
step of every party keeps it, cancellation and `close` included.
-/

namespace Oxbrook

namespace DeliveryState

open StepMachine

variable {ι α : Type*} [DecidableEq ι]

/-- A resolve of `future` is on its way: it has run, a loop will run it, or the code that took the
future over is about to hand it to its loop. -/
def Waking (s : DeliveryState ι α) (future : Future ι) : Prop :=
  s.futures future = .finished ∨ future ∈ s.scheduled ∨ future ∈ s.closing ∨
    (∃ i n, s.reader = .posting (i, n) ∧ future = .waiter i n) ∨
    ∃ i n, s.producers i = .handing n ∧ future = .getter n

/-! ## What the sections leave alone -/

section Frame

variable (s : DeliveryState ι α) (i : ι) (message : α) (again : ProducerPc α)

/-- What a producer's section cannot touch: the reader, the futures and their way to the loops. -/
structure SameFutures (s s' : DeliveryState ι α) : Prop where
  reader : s'.reader = s.reader
  futures : s'.futures = s.futures
  getters : s'.getters = s.getters
  scheduled : s'.scheduled = s.scheduled
  closing : s'.closing = s.closing

lemma setProducer_sameFutures (pc : ProducerPc α) : SameFutures s (s.setProducer i pc) :=
  ⟨rfl, rfl, rfl, rfl, rfl⟩

lemma putStep_sameFutures : SameFutures s (s.putStep i message again) := by
  unfold putStep
  split <;> exact ⟨rfl, rfl, rfl, rfl, rfl⟩

lemma offerStep_sameFutures : SameFutures s (s.offerStep i message) := by
  unfold offerStep
  split <;> exact ⟨rfl, rfl, rfl, rfl, rfl⟩

lemma putStep_waiters : (s.putStep i message again).waiters = s.waiters := by
  unfold putStep
  split <;> rfl

lemma putStep_producers_of_ne {j : ι} (hj : j ≠ i) :
    (s.putStep i message again).producers j = s.producers j := by
  unfold putStep
  split <;> exact Function.update_of_ne hj _ _

lemma offerStep_producers_of_ne {j : ι} (hj : j ≠ i) :
    (s.offerStep i message).producers j = s.producers j := by
  unfold offerStep
  split <;> exact Function.update_of_ne hj _ _

omit [DecidableEq ι] in
lemma nextStep_frame : s.nextStep.producers = s.producers ∧ s.nextStep.futures = s.futures ∧
    s.nextStep.scheduled = s.scheduled ∧ s.nextStep.closing = s.closing ∧
    s.nextStep.waiters = s.waiters := by
  unfold nextStep
  split <;> exact ⟨rfl, rfl, rfl, rfl, rfl⟩

end Frame

/-! ## Futures on their way

A future that somebody awaits is either where a later section finds it, in `_getter` or in
`_putters`, or its resolve is on its way.  No step loses it. -/

section Handover

variable {s s' : DeliveryState ι α} {a : DeliveryAction ι α} {future : Future ι}

omit [DecidableEq ι] in
lemma Waking.of_sameFutures (same : SameFutures s s')
    (hand : ∀ j n, s.producers j = .handing n → s'.producers j = .handing n)
    (h : s.Waking future) : s'.Waking future := by
  rcases h with h | h | h | ⟨i, n, h, rfl⟩ | ⟨i, n, h, rfl⟩
  · exact .inl (by rw [same.futures, h])
  · exact .inr (.inl (by rwa [same.scheduled]))
  · exact .inr (.inr (.inl (by rwa [same.closing])))
  · exact .inr (.inr (.inr (.inl ⟨i, n, by rw [same.reader, h], rfl⟩)))
  · exact .inr (.inr (.inr (.inr ⟨i, n, hand i n h, rfl⟩)))

lemma Waking.putStep {i : ι} {message : α} {again : ProducerPc α}
    (hi : ∀ n, s.producers i ≠ .handing n) (h : s.Waking future) :
    (s.putStep i message again).Waking future := by
  refine h.of_sameFutures (s.putStep_sameFutures i message again) fun j n hj => ?_
  have hne : j ≠ i := fun hji => hi n (hji ▸ hj)
  rw [putStep_producers_of_ne s i message again hne, hj]

lemma Waking.offerStep {i : ι} {message : α} (hi : ∀ n, s.producers i ≠ .handing n)
    (h : s.Waking future) : (s.offerStep i message).Waking future := by
  refine h.of_sameFutures (s.offerStep_sameFutures i message) fun j n hj => ?_
  have hne : j ≠ i := fun hji => hi n (hji ▸ hj)
  rw [offerStep_producers_of_ne s i message hne, hj]

omit [DecidableEq ι] in
lemma Waking.nextStep (hreader : ∀ p, s.reader ≠ .posting p) (h : s.Waking future) :
    s.nextStep.Waking future := by
  obtain ⟨hproducers, hfutures, hscheduled, hclosing, -⟩ := s.nextStep_frame
  rcases h with h | h | h | ⟨i, n, h, -⟩ | ⟨i, n, h, rfl⟩
  · exact .inl (by rw [hfutures, h])
  · exact .inr (.inl (by rwa [hscheduled]))
  · exact .inr (.inr (.inl (by rwa [hclosing])))
  · exact absurd h (hreader _)
  · exact .inr (.inr (.inr (.inr ⟨i, n, by rw [hproducers, h], rfl⟩)))

omit [DecidableEq ι] in
lemma Waking.closeStep (h : s.Waking future) : s.closeStep.Waking future := by
  rcases s.closeStep_cases with ⟨-, hp⟩ | ⟨-, hp⟩ <;> rw [hp]
  · exact h
  · rcases h with h | h | h | h | h
    · exact .inl h
    · exact .inr (.inl h)
    · exact .inr (.inr (.inl (List.mem_append_left _ (List.mem_append_left _ h))))
    · exact .inr (.inr (.inr (.inl h)))
    · exact .inr (.inr (.inr (.inr h)))

lemma Waking.producerStep {i : ι} (taken : s.producerStep i = some s') (h : s.Waking future) :
    s'.Waking future := by
  rcases producerStep_cases taken with ⟨message, hi, rfl⟩ | ⟨message, hi, rfl⟩ | ⟨getter, hi, rfl⟩ |
    ⟨message, hi, rfl⟩
  · exact h.putStep (by simp [hi])
  · refine h.offerStep fun n hn => ?_
    rcases hi with hi | ⟨k, hi, -⟩ <;> simp [hi] at hn
  · rcases h with h | h | h | h | ⟨j, n, hj, rfl⟩
    · exact .inl h
    · exact .inr (.inl (List.mem_cons_of_mem _ h))
    · exact .inr (.inr (.inl h))
    · exact .inr (.inr (.inr (.inl h)))
    · by_cases hji : j = i
      · subst hji
        obtain rfl : getter = n := by simpa [hi] using hj
        exact .inr (.inl List.mem_cons_self)
      · exact .inr (.inr (.inr (.inr ⟨j, n, (Function.update_of_ne hji _ _).trans hj, rfl⟩)))
  · refine Waking.of_sameFutures (s := s) ⟨rfl, rfl, rfl, rfl, rfl⟩ (fun j n hj => ?_) h
    have hji : j ≠ i := by
      rintro rfl
      simp [hi] at hj
    exact (Function.update_of_ne hji _ _).trans hj

omit [DecidableEq ι] in
lemma Waking.readerStep (taken : s.readerStep = some s') (h : s.Waking future) :
    s'.Waking future := by
  rcases readerStep_cases taken with ⟨n, hreader, -, rfl⟩ | ⟨putter, hreader, rfl⟩
  · exact h.nextStep (by simp [hreader])
  · rcases h with h | h | h | ⟨i, n, hi, rfl⟩ | h
    · exact .inl h
    · exact .inr (.inl (List.mem_cons_of_mem _ h))
    · exact .inr (.inr (.inl h))
    · obtain rfl : putter = (i, n) := by simpa [hreader] using hi
      exact .inr (.inl List.mem_cons_self)
    · exact .inr (.inr (.inr (.inr h)))

/-- Writing a future keeps a resolve on its way, if what was finished stays finished. -/
lemma Waking.setFuture (other : Future ι) (state : FutureState)
    (hfinished : s.futures other = .finished → state = .finished) (h : s.Waking future) :
    { s with futures := Function.update s.futures other state }.Waking future := by
  rcases h with h | h
  · by_cases hother : future = other
    · subst hother
      exact .inl ((Function.update_self ..).trans (hfinished h))
    · exact .inl ((Function.update_of_ne hother _ _).trans h)
  · exact .inr h

/-- A resolve on its way stays so, unless the future is cancelled. -/
theorem Waking.step (taken : s.step a = some s') (hfuture : s.futures future ≠ .cancelled)
    (h : s.Waking future) : s'.Waking future := by
  cases a with
  | emit i message =>
    obtain ⟨hi, rfl⟩ := step_emit taken
    exact Waking.putStep (s := s.offered message) (by simp [offered, hi]) h
  | emitNowait i message =>
    obtain ⟨hi, rfl⟩ := step_emitNowait taken
    exact Waking.putStep (s := s.offeredNowait message) (by simp [offeredNowait, offered, hi]) h
  | producer i => exact h.producerStep taken
  | cancelProducer i =>
    obtain ⟨message, n, hi, rfl⟩ := step_cancelProducer taken
    refine (h.setFuture (.waiter i n) _ fun hn => ?_).of_sameFutures
      (setProducer_sameFutures ..) fun j k hj => ?_
    · rw [hn]
      rfl
    · have hji : j ≠ i := by
        rintro rfl
        simp [hi] at hj
      exact (Function.update_of_ne hji _ _).trans hj
  | read =>
    obtain ⟨hreader, rfl⟩ := of_guard taken
    exact h.nextStep (by simp [hreader])
  | reader => exact h.readerStep taken
  | cancelReader =>
    obtain ⟨n, hreader, rfl⟩ := step_cancelReader taken
    rcases h.setFuture (.getter n) (s.futures (.getter n)).cancel
      (fun hn => by rw [hn]; rfl) with h | h | h | ⟨i, k, h, -⟩ | h
    · exact .inl h
    · exact .inr (.inl h)
    · exact .inr (.inr (.inl h))
    · simp [hreader] at h
    · exact .inr (.inr (.inr (.inr h)))
  | resolve other =>
    obtain ⟨-, rfl⟩ := of_guard taken
    by_cases hother : future = other
    · subst hother
      refine .inl ((Function.update_self ..).trans ?_)
      cases hstate : s.futures future with
      | pending => rfl
      | finished => rfl
      | cancelled => exact absurd hstate hfuture
    · rcases h with h | h | h
      · exact .inl ((Function.update_of_ne hother _ _).trans h)
      · exact .inr (.inl ((List.mem_erase_of_ne hother).mpr h))
      · exact .inr (.inr h)
  | close =>
    cases taken
    exact h.closeStep
  | release =>
    obtain ⟨head, closing, hclosing, rfl⟩ := step_release taken
    rcases h with h | h | h | h
    · exact .inl h
    · exact .inr (.inl (List.mem_cons_of_mem _ h))
    · rw [hclosing] at h
      rcases List.mem_cons.mp h with rfl | h
      · exact .inr (.inl List.mem_cons_self)
      · exact .inr (.inr (.inl h))
    · exact .inr (.inr (.inr h))

lemma putStep_getter {i : ι} {message : α} {again : ProducerPc α} {n : ℕ}
    (h : s.sub.getter = some n) :
    (s.putStep i message again).sub.getter = some n ∨
      (s.putStep i message again).Waking (.getter n) := by
  have hhand : (s.putStep i message again).producers i = .handing n →
      (s.putStep i message again).Waking (.getter n) := fun hi =>
    .inr (.inr (.inr (.inr ⟨i, n, hi, rfl⟩)))
  rcases s.putStep_cases i message again with ⟨-, hp⟩ | ⟨-, -, hp⟩ | ⟨-, -, ⟨-, hp⟩ | ⟨-, hp⟩ |
    ⟨-, hp⟩ | ⟨-, hp⟩⟩
  case inr.inl => exact .inr (hhand (by simp [hp, setProducer, h, ProducerPc.hand]))
  case inr.inr.inr.inl => exact .inr (hhand (by simp [hp, setProducer, h, ProducerPc.hand]))
  all_goals exact .inl (by simp [hp, setProducer, h])

lemma offerStep_getter {i : ι} {message : α} {n : ℕ} (h : s.sub.getter = some n) :
    (s.offerStep i message).sub.getter = some n ∨
      (s.offerStep i message).Waking (.getter n) := by
  rcases s.offerStep_cases i message with ⟨-, hp⟩ | ⟨-, -, hp⟩ | ⟨-, -, hp⟩
  · exact .inl (by simp [hp, setProducer, h])
  · refine .inr (.inr (.inr (.inr (.inr ⟨i, n, ?_, rfl⟩))))
    simp [hp, setProducer, h, ProducerPc.hand]
  · exact .inl (by simp [hp, setProducer, h])

lemma putStep_putters (s : DeliveryState ι α) (i : ι) (message : α) (again : ProducerPc α) :
    (s.putStep i message again).sub.putters = s.sub.putters := by
  rcases s.putStep_cases i message again with ⟨-, hp⟩ | ⟨-, -, hp⟩ | ⟨-, -, ⟨-, hp⟩ | ⟨-, hp⟩ |
    ⟨-, hp⟩ | ⟨-, hp⟩⟩ <;> simp [hp, setProducer, entering, Subscription.enter]

lemma putStep_awaits {i j : ι} {message : α} {again : ProducerPc α} {n : ℕ}
    (hagain : again.awaits = none)
    (h : ((s.putStep i message again).producers j).awaits = some n) :
    j ≠ i ∧ (s.producers j).awaits = some n := by
  have hne : j ≠ i := by
    rintro rfl
    rcases s.putStep_cases j message again with ⟨-, hp⟩ | ⟨-, -, hp⟩ | ⟨-, -, ⟨-, hp⟩ | ⟨-, hp⟩ |
      ⟨-, hp⟩ | ⟨-, hp⟩⟩ <;> simp [hp, setProducer, hagain] at h
  rw [putStep_producers_of_ne s i message again hne] at h
  exact ⟨hne, h⟩

lemma offerStep_awaits {i j : ι} {message : α} {n : ℕ}
    (h : ((s.offerStep i message).producers j).awaits = some n) :
    (j ≠ i ∧ (s.producers j).awaits = some n) ∨
      (j = i ∧ n = s.waiters i ∧ s.sub.closed = false ∧ s.sub.maxsize ≤ s.sub.buffer.length ∧
        (s.offerStep i message).sub = { s.sub with putters := s.sub.putters ++ [(i, n)] } ∧
        (s.offerStep i message).waiters i = n + 1) := by
  by_cases hne : j = i
  · subst hne
    rcases s.offerStep_cases j message with ⟨-, hp⟩ | ⟨-, -, hp⟩ | ⟨hopen, hfull, hp⟩
    · simp [hp, setProducer] at h
    · simp [hp, setProducer] at h
    · obtain rfl : s.waiters j = n := by simpa [hp, setProducer] using h
      refine .inr ⟨rfl, rfl, hopen, hfull, ?_, ?_⟩ <;> simp [hp, setProducer]
  · rw [offerStep_producers_of_ne s i message hne] at h
    exact .inl ⟨hne, h⟩

lemma offerStep_waiters_le (s : DeliveryState ι α) (i j : ι) (message : α) :
    s.waiters j ≤ (s.offerStep i message).waiters j := by
  unfold offerStep
  split
  · exact le_rfl
  · exact le_rfl
  · by_cases hji : j = i
    · subst hji
      simp [setProducer]
    · simp [setProducer, hji]

lemma mem_offerStep_putters {i : ι} {message : α} {p : ι × ℕ} (h : p ∈ s.sub.putters) :
    p ∈ (s.offerStep i message).sub.putters := by
  rcases s.offerStep_cases i message with ⟨-, hp⟩ | ⟨-, -, hp⟩ | ⟨-, -, hp⟩ <;>
    simp [hp, setProducer, entering, Subscription.enter, h]

/-- Every future somebody awaits is uncancelled, and is either queued or on its way. -/
structure Awaited (s : DeliveryState ι α) : Prop where
  freshGetter : ∀ n, s.getters ≤ n → s.futures (.getter n) ≠ .cancelled
  freshWaiter : ∀ i n, s.waiters i ≤ n → s.futures (.waiter i n) ≠ .cancelled
  parked : ∀ n, s.reader = .parked n → n < s.getters ∧ s.futures (.getter n) ≠ .cancelled ∧
    (s.sub.getter = some n ∨ s.Waking (.getter n))
  waiting : ∀ i n, (s.producers i).awaits = some n →
    n < s.waiters i ∧ s.futures (.waiter i n) ≠ .cancelled ∧
      ((i, n) ∈ s.sub.putters ∨ s.Waking (.waiter i n))

omit [DecidableEq ι] in
/-- A step of a producer: the reader and the states of the futures are as before, and what was
awaited, queued or on its way is so still. -/
lemma Awaited.of_producer (hs : s.Awaited) (hreader : s'.reader = s.reader)
    (hfutures : s'.futures = s.futures) (hgetters : s'.getters = s.getters)
    (hwaiters : ∀ i, s.waiters i ≤ s'.waiters i)
    (hwaking : ∀ future, s.Waking future → s'.Waking future)
    (hgetter : ∀ n, s.sub.getter = some n → s'.sub.getter = some n ∨ s'.Waking (.getter n))
    (hputters : ∀ p ∈ s.sub.putters, p ∈ s'.sub.putters)
    (hawaits : ∀ i n, (s'.producers i).awaits = some n → (s.producers i).awaits = some n ∨
      (s.waiters i ≤ n ∧ n < s'.waiters i ∧ (i, n) ∈ s'.sub.putters)) : s'.Awaited where
  freshGetter n hn := by
    rw [hfutures]
    exact hs.freshGetter n (hgetters ▸ hn)
  freshWaiter i n hn := by
    rw [hfutures]
    exact hs.freshWaiter i n ((hwaiters i).trans hn)
  parked n hn := by
    obtain ⟨hlt, hstate, hat⟩ := hs.parked n (hreader ▸ hn)
    refine ⟨hgetters ▸ hlt, hfutures ▸ hstate, ?_⟩
    rcases hat with hat | hat
    · exact hgetter n hat
    · exact .inr (hwaking _ hat)
  waiting i n hn := by
    rcases hawaits i n hn with hold | ⟨hfresh, hlt, hmem⟩
    · obtain ⟨hlt, hstate, hat⟩ := hs.waiting i n hold
      exact ⟨hlt.trans_le (hwaiters i), hfutures ▸ hstate, hat.imp (hputters _) (hwaking _)⟩
    · exact ⟨hlt, hfutures ▸ hs.freshWaiter i n hfresh, .inl hmem⟩

lemma Awaited.putStep {i : ι} {message : α} {again : ProducerPc α} (hs : s.Awaited)
    (hi : ∀ n, s.producers i ≠ .handing n) (hagain : again.awaits = none) :
    (s.putStep i message again).Awaited := by
  obtain ⟨hreader, hfutures, hgetters, -, -⟩ := s.putStep_sameFutures i message again
  refine hs.of_producer hreader hfutures hgetters (fun j => ?_) (fun _ h => h.putStep hi)
    (fun n h => putStep_getter h) (fun p hp => ?_) fun j n hj => ?_
  · rw [putStep_waiters]
  · rwa [putStep_putters]
  · exact .inl (putStep_awaits hagain hj).2

lemma Awaited.offerStep {i : ι} {message : α} (hs : s.Awaited)
    (hi : ∀ n, s.producers i ≠ .handing n) : (s.offerStep i message).Awaited := by
  obtain ⟨hreader, hfutures, hgetters, -, -⟩ := s.offerStep_sameFutures i message
  refine hs.of_producer hreader hfutures hgetters (fun j => s.offerStep_waiters_le i j message)
    (fun _ h => h.offerStep hi) (fun n h => offerStep_getter h)
    (fun p hp => mem_offerStep_putters hp) fun j n hj => ?_
  rcases offerStep_awaits hj with ⟨-, hold⟩ | ⟨rfl, rfl, -, -, hsub, hwaiters⟩
  · exact .inl hold
  · exact .inr ⟨le_rfl, by omega, by simp [hsub]⟩

/-- A producer that only leaves its place keeps the rest. -/
lemma Awaited.setProducer_idle {i : ι} (hs : s.Awaited) (hi : ∀ n, s.producers i ≠ .handing n) :
    (s.setProducer i .idle).Awaited := by
  refine hs.of_producer rfl rfl rfl (fun _ => le_rfl) (fun _ h => ?_) (fun n h => .inl h)
    (fun p hp => hp) fun j n hj => .inl ?_
  · refine h.of_sameFutures (s.setProducer_sameFutures i .idle) fun j n hj => ?_
    have hji : j ≠ i := fun hji => hi n (hji ▸ hj)
    exact (Function.update_of_ne hji _ _).trans hj
  · by_cases hji : j = i
    · subst hji
      simp [setProducer] at hj
    · simpa [setProducer, hji] using hj

lemma Awaited.producerStep {i : ι} (hs : s.Awaited) (taken : s.producerStep i = some s') :
    s'.Awaited := by
  rcases producerStep_cases taken with ⟨message, hi, rfl⟩ | ⟨message, hi, rfl⟩ | ⟨getter, hi, rfl⟩ |
    ⟨message, hi, rfl⟩
  · exact hs.putStep (by simp [hi]) rfl
  · refine hs.offerStep fun n hn => ?_
    rcases hi with hi | ⟨k, hi, -⟩ <;> simp [hi] at hn
  · refine hs.of_producer rfl rfl rfl (fun _ => le_rfl) (fun _ h => h.producerStep taken)
      (fun n h => .inl h) (fun p hp => hp) fun j n hj => .inl ?_
    by_cases hji : j = i
    · subst hji
      simp [setProducer] at hj
    · simpa [setProducer, hji] using hj
  · have hcounted : { s with sub := { s.sub with dropped := s.sub.dropped + 1 } }.Awaited :=
      ⟨hs.freshGetter, hs.freshWaiter, hs.parked, hs.waiting⟩
    exact hcounted.setProducer_idle (by simp [hi])

omit [DecidableEq ι] in
/-- A putter that a section of `__anext__` pops is about to be resolved. -/
lemma mem_nextStep_putters {p : ι × ℕ} (h : p ∈ s.sub.putters) :
    p ∈ s.nextStep.sub.putters ∨ s.nextStep.Waking (.waiter p.1 p.2) := by
  rcases s.nextStep_cases with ⟨item, buffer, -, hp⟩ | ⟨-, -, hp⟩ | ⟨-, -, hp⟩
  · cases hputters : s.sub.putters with
    | nil => simp [hputters] at h
    | cons q putters =>
      rw [hputters] at h
      rcases List.mem_cons.mp h with rfl | h
      · refine .inr (.inr (.inr (.inr (.inl ⟨p.1, p.2, ?_, rfl⟩))))
        simp [hp, hputters]
      · exact .inl (by simpa [hp, hputters] using h)
  · exact .inl (by simpa [hp] using h)
  · exact .inl (by simpa [hp] using h)

omit [DecidableEq ι] in
/-- A reader that a section of `__anext__` leaves parked has just put its getter in place. -/
lemma nextStep_parked {n : ℕ} (h : s.nextStep.reader = .parked n) :
    n = s.getters ∧ s.nextStep.getters = n + 1 ∧
      s.nextStep.sub = { s.sub with getter := some n } ∧ s.sub.buffer = [] ∧
      s.sub.closed = false := by
  rcases s.nextStep_cases with ⟨item, buffer, -, hp⟩ | ⟨-, -, hp⟩ | ⟨hbuffer, hopen, hp⟩
  · simp only [hp] at h
    cases hhead : s.sub.putters.head? <;> rw [hhead] at h <;> cases h
  · simp [hp] at h
  · obtain rfl : s.getters = n := by simpa [hp] using h
    refine ⟨rfl, ?_, ?_, hbuffer, hopen⟩ <;> simp [hp]

omit [DecidableEq ι] in
lemma nextStep_getters_le (s : DeliveryState ι α) : s.getters ≤ s.nextStep.getters := by
  unfold DeliveryState.nextStep
  split
  · exact le_rfl
  · exact le_rfl
  · exact Nat.le_succ _

omit [DecidableEq ι] in
lemma Awaited.nextStep (hs : s.Awaited) (hreader : ∀ p, s.reader ≠ .posting p) :
    s.nextStep.Awaited := by
  obtain ⟨hproducers, hfutures, -, -, hwaiters⟩ := s.nextStep_frame
  refine ⟨fun n hn => ?_, fun i n hn => ?_, fun n hn => ?_, fun i n hn => ?_⟩
  · rw [hfutures]
    exact hs.freshGetter n (s.nextStep_getters_le.trans hn)
  · rw [hfutures]
    exact hs.freshWaiter i n (hwaiters ▸ hn)
  · obtain ⟨rfl, hgetters, hsub, -, -⟩ := nextStep_parked hn
    rw [hfutures]
    exact ⟨by omega, hs.freshGetter _ le_rfl, .inl (by rw [hsub])⟩
  · obtain ⟨hlt, hstate, hat⟩ := hs.waiting i n (hproducers ▸ hn)
    refine ⟨hwaiters ▸ hlt, hfutures ▸ hstate, ?_⟩
    rcases hat with hat | hat
    · exact mem_nextStep_putters hat
    · exact .inr (hat.nextStep hreader)

omit [DecidableEq ι] in
lemma Awaited.closeStep (hs : s.Awaited) : s.closeStep.Awaited := by
  have hwaking (future : Future ι) (h : s.Waking future) : s.closeStep.Waking future :=
    h.closeStep
  rcases s.closeStep_cases with ⟨-, hp⟩ | ⟨-, hp⟩
  · rwa [hp]
  · rw [hp] at hwaking ⊢
    refine ⟨hs.freshGetter, hs.freshWaiter, fun n hn => ?_, fun i n hn => ?_⟩
    · obtain ⟨hlt, hstate, hat⟩ := hs.parked n hn
      refine ⟨hlt, hstate, .inr ?_⟩
      rcases hat with hat | hat
      · exact .inr (.inr (.inl (by simp [hat])))
      · exact hwaking _ hat
    · obtain ⟨hlt, hstate, hat⟩ := hs.waiting i n hn
      refine ⟨hlt, hstate, .inr ?_⟩
      rcases hat with hat | hat
      · exact .inr (.inr (.inl (List.mem_append_right _ (List.mem_map.mpr ⟨_, hat, rfl⟩))))
      · exact hwaking _ hat

lemma FutureState.resolve_ne_cancelled {future : FutureState} (h : future ≠ .cancelled) :
    future.resolve ≠ .cancelled := by
  cases future <;> simp_all [FutureState.resolve, FutureState.done]

/-- No step loses a future somebody awaits. -/
theorem Awaited.step (hs : s.Awaited) (taken : s.step a = some s') : s'.Awaited := by
  cases a with
  | emit i message =>
    obtain ⟨hi, rfl⟩ := step_emit taken
    have hoffered : (s.offered message).Awaited :=
      ⟨hs.freshGetter, hs.freshWaiter, hs.parked, hs.waiting⟩
    exact hoffered.putStep (by simp [offered, hi]) rfl
  | emitNowait i message =>
    obtain ⟨hi, rfl⟩ := step_emitNowait taken
    have hoffered : (s.offeredNowait message).Awaited :=
      ⟨hs.freshGetter, hs.freshWaiter, hs.parked, hs.waiting⟩
    exact hoffered.putStep (by simp [offeredNowait, offered, hi]) rfl
  | producer i => exact hs.producerStep taken
  | cancelProducer i =>
    obtain ⟨message, n, hi, rfl⟩ := step_cancelProducer taken
    obtain ⟨hlt, -, -⟩ := hs.waiting i n (by simp [hi, ProducerPc.awaits])
    refine ⟨fun k hk => ?_, fun j k hk => ?_, fun k hk => ?_, fun j k hk => ?_⟩
    · exact hs.freshGetter k hk
    · have hne : (Future.waiter j k : Future ι) ≠ .waiter i n := by
        rintro h
        cases h
        exact absurd hlt (Nat.not_lt.mpr hk)
      exact (Function.update_of_ne hne _ _).trans_ne (hs.freshWaiter j k hk)
    · obtain ⟨hkl, hstate, hat⟩ := hs.parked k hk
      exact ⟨hkl, hstate, hat.imp id fun h => h.step taken hstate⟩
    · have hji : j ≠ i := by
        rintro rfl
        simp [setProducer] at hk
      obtain ⟨hkl, hstate, hat⟩ := hs.waiting j k (by simpa [setProducer, hji] using hk)
      have hne : (Future.waiter j k : Future ι) ≠ .waiter i n := by
        rintro h
        cases h
        exact hji rfl
      exact ⟨hkl, (Function.update_of_ne hne _ _).trans_ne hstate,
        hat.imp id fun h => h.step taken hstate⟩
  | read =>
    obtain ⟨hreader, rfl⟩ := of_guard taken
    exact hs.nextStep (by simp [hreader])
  | reader =>
    rcases readerStep_cases taken with ⟨n, hreader, -, rfl⟩ | ⟨putter, hreader, rfl⟩
    · exact hs.nextStep (by simp [hreader])
    · refine ⟨hs.freshGetter, hs.freshWaiter, fun n hn => by simp at hn, fun i n hn => ?_⟩
      obtain ⟨hlt, hstate, hat⟩ := hs.waiting i n hn
      exact ⟨hlt, hstate, hat.imp id fun h => h.readerStep taken⟩
  | cancelReader =>
    obtain ⟨n, hreader, rfl⟩ := step_cancelReader taken
    obtain ⟨hlt, -, -⟩ := hs.parked n hreader
    refine ⟨fun k hk => ?_, fun j k hk => ?_, fun k hk => by simp at hk, fun j k hk => ?_⟩
    · have hne : (Future.getter k : Future ι) ≠ .getter n := by
        rintro h
        cases h
        exact absurd hlt (Nat.not_lt.mpr hk)
      exact (Function.update_of_ne hne _ _).trans_ne (hs.freshGetter k hk)
    · exact hs.freshWaiter j k hk
    · obtain ⟨hkl, hstate, hat⟩ := hs.waiting j k hk
      exact ⟨hkl, hstate, hat.imp id fun h => h.step taken hstate⟩
  | resolve other =>
    have hkeep {future : Future ι} (h : s.futures future ≠ .cancelled) :
        s'.futures future ≠ .cancelled := by
      obtain ⟨-, rfl⟩ := of_guard taken
      by_cases hother : future = other
      · subst hother
        exact (Function.update_self ..).trans_ne (FutureState.resolve_ne_cancelled h)
      · exact (Function.update_of_ne hother _ _).trans_ne h
    obtain ⟨-, rfl⟩ := of_guard taken
    refine ⟨fun n hn => hkeep (hs.freshGetter n hn), fun i n hn => hkeep (hs.freshWaiter i n hn),
      fun n hn => ?_, fun i n hn => ?_⟩
    · obtain ⟨hlt, hstate, hat⟩ := hs.parked n hn
      exact ⟨hlt, hkeep hstate, hat.imp id fun h => h.step taken hstate⟩
    · obtain ⟨hlt, hstate, hat⟩ := hs.waiting i n hn
      exact ⟨hlt, hkeep hstate, hat.imp id fun h => h.step taken hstate⟩
  | close =>
    cases taken
    exact hs.closeStep
  | release =>
    have hwaking (future : Future ι) (hstate : s.futures future ≠ .cancelled)
        (h : s.Waking future) : s'.Waking future := h.step taken hstate
    obtain ⟨head, closing, -, rfl⟩ := step_release taken
    refine ⟨hs.freshGetter, hs.freshWaiter, fun n hn => ?_, fun i n hn => ?_⟩
    · obtain ⟨hlt, hstate, hat⟩ := hs.parked n hn
      exact ⟨hlt, hstate, hat.imp id (hwaking _ hstate)⟩
    · obtain ⟨hlt, hstate, hat⟩ := hs.waiting i n hn
      exact ⟨hlt, hstate, hat.imp id (hwaking _ hstate)⟩

omit [DecidableEq ι] in
lemma awaited_new (topic : String) (maxsize : ℕ) (maxsize_pos : 0 < maxsize) (policy : Policy) :
    (new topic maxsize maxsize_pos policy : DeliveryState ι α).Awaited := by
  refine ⟨fun _ _ => ?_, fun _ _ _ => ?_, fun _ h => ?_, fun _ _ h => ?_⟩
  · simp [new]
  · simp [new]
  · simp [new] at h
  · simp [new, ] at h

end Handover

end DeliveryState

end Oxbrook
