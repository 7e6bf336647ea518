import Oxbrook.Worker.WakeProtocol

/-!
# The liveness probe of a worker

`WorkerQueue::waiting_for` beside the wake protocol of `Worker/WakeProtocol`.  A probe loads
`notified`, then `notified_at`, then reads the clock, and any number of threads probe at any time.
The clock is the number of milliseconds since `epoch()`; it never goes back, between two operations
of any thread it may advance by any amount, and it stays below `IDLE`, the largest number of 64
bits.  A thread that flipped the flag reads the clock with one operation (`sample`) and stores what
it read with another (`stamp`), so the store may come any time after the reading.

A wake begins when a thread flips the flag, and a drain answers it with the first store of
`clear_notified`.  Both sides of the probe rest on one fact about the states reached: the stamp is
set exactly while the token of the protocol is with a thread that has stored it, in the socket, or
with a drain that has not yet begun to clear it (`WakeState.Stamped`).
-/

namespace Oxbrook

open StepMachine

variable {ι ρ κ χ π : Type*}

/-! ## States and steps -/

/-- Where a thread stands in `waiting_for`: outside, with the flag seen set, with a time stamp
loaded, or back with a result in milliseconds. -/
inductive ProbePc
  | idle
  | flagged
  | loaded (begun : ℕ)
  | returned (waited : Option ℕ)
  deriving DecidableEq

/-- A worker's queue with its threads, the clock, and the threads that probe it. -/
structure ProbeState (ι ρ κ χ π : Type*) where
  worker : WakeState ι ρ κ χ
  clock : ℕ
  -- what a thread inside `wake` has read from the clock and not yet stored
  sampled : Option ι → Option ℕ
  probe : π → ProbePc

/-- One atomic operation.  `worker` is any operation of the wake protocol but the store of
`notified_at`, which is `stamp` here; the last three belong to a probe. -/
inductive ProbeAction (ι ρ κ χ π : Type*)
  | worker (a : WakeAction ι ρ κ χ)
  | tick (ms : ℕ)
  | sample (t : Option ι)
  | stamp (t : Option ι)
  | loadFlag (r : π)
  | loadStamp (r : π)
  | loadClock (r : π)

/-- The store of `notified_at`. -/
def WakeAction.isStamp : WakeAction ι ρ κ χ → Bool
  | .stamp _ _ => true
  | _ => false

/-- The store with which a drain answers a wake. -/
def ProbeAction.answers : ProbeAction ι ρ κ χ π → Bool
  | .worker .storeIdle => true
  | _ => false

/-- An operation of the probe `r`. -/
def ProbeAction.isOf [DecidableEq π] (r : π) : ProbeAction ι ρ κ χ π → Bool
  | .loadFlag r' | .loadStamp r' | .loadClock r' => r' = r
  | _ => false

/-- No drain answers a wake. -/
abbrev Unanswered (_ : ProbeState ι ρ κ χ π) (a : ProbeAction ι ρ κ χ π) : Prop :=
  a.answers = false

/-- Only others than the probe `r` take steps. -/
abbrev Others [DecidableEq π] (r : π) (_ : ProbeState ι ρ κ χ π) (a : ProbeAction ι ρ κ χ π) :
    Prop :=
  a.isOf r = false

namespace ProbeState

/-- A worker that has just started, with no probe running, at any time. -/
def new (pair : WakePair) (limit : ℤ) (clock : ℕ) : ProbeState ι ρ κ χ π where
  worker := WakeState.new pair limit
  clock := clock
  sampled := fun _ => none
  probe := fun _ => .idle

variable [DecidableEq ι] [DecidableEq π]

/-- Move one probe. -/
def setProbe (s : ProbeState ι ρ κ χ π) (r : π) (pc : ProbePc) : ProbeState ι ρ κ χ π :=
  { s with probe := Function.update s.probe r pc }

/-- The step function. -/
def step (s : ProbeState ι ρ κ χ π) : ProbeAction ι ρ κ χ π → Option (ProbeState ι ρ κ χ π)
  | .worker a =>
    if a.isStamp = false then (s.worker.step a).map fun w => { s with worker := w } else none
  | .tick ms => some { s with clock := s.clock + ms }
  | .sample t =>
    if s.worker.pc t = .flipped ∧ s.sampled t = none then
      some { s with sampled := Function.update s.sampled t (some s.clock) } else none
  | .stamp t =>
    match s.sampled t with
    | some now => (s.worker.step (.stamp t now)).map fun w =>
        { s with worker := w, sampled := Function.update s.sampled t none }
    | none => none
  | .loadFlag r =>
    match s.probe r with
    | .idle | .returned _ =>
      some (s.setProbe r (if s.worker.wq.notified then .flagged else .returned none))
    | _ => none
  | .loadStamp r =>
    if s.probe r = .flagged then
      some (s.setProbe r
        (match s.worker.wq.notifiedAt with
        | some begun => .loaded begun
        | none => .returned none)) else none
  | .loadClock r =>
    match s.probe r with
    | .loaded begun => some (s.setProbe r (.returned (some (s.clock - begun))))
    | _ => none

end ProbeState

/-- `Health::stalled` on what `waiting_for` returned for each worker: the workers whose wait is
longer than `stall_after`, which is a number of nanoseconds. -/
def stalled (stallAfter : ℕ) (waits : List (Option ℕ)) : Option (List ℕ) :=
  let loops := (waits.zipIdx.filter fun w => w.1.any fun d => stallAfter < d * 1000000).map Prod.snd
  if loops = [] then none else some loops

/-! ## The stamp and the token -/

section Stamp

/-- The wake under way has its stamp stored, and no drain has begun to clear it. -/
def WakeState.Stamped (s : WakeState ι ρ κ χ) : Prop :=
  (∃ t, s.pc t = .stamped) ∨ 0 < s.wq.pair.unread ∨ s.drain = .emptied

/-- The protocol's invariant together with what `notified_at` shows. -/
structure StampInv (s : WakeState ι ρ κ χ) : Prop where
  wake : WakeInv s
  stamped : s.wq.notifiedAt ≠ none ↔ s.Stamped

variable [DecidableEq ι] {s s' : WakeState ι ρ κ χ}

/-- The threads that have stored the stamp, after one that has not moved. -/
lemma exists_stamped_setPc {t : Option ι} {pc : WakePc} (h : s.pc t ≠ .stamped)
    (hpc : pc ≠ .stamped) : (∃ u, (s.setPc t pc).pc u = .stamped) ↔ ∃ u, s.pc u = .stamped := by
  have same : ∀ u, (s.setPc t pc).pc u = .stamped ↔ s.pc u = .stamped := by
    intro u
    by_cases hu : u = t
    · subst hu
      simp [WakeState.setPc, h, hpc]
    · simp [WakeState.setPc, Function.update_of_ne hu]
  exact exists_congr same

omit [DecidableEq ι] in
/-- A step that leaves the stamp, the socket and the threads that have stored the stamp alone, with
the drain not at its clearing, leaves the stamp as it should be. -/
lemma stamped_congr (h : s.wq.notifiedAt ≠ none ↔ s.Stamped)
    (hat : s'.wq.notifiedAt = s.wq.notifiedAt) (hpair : s'.wq.pair = s.wq.pair)
    (hpc : (∃ u, s'.pc u = .stamped) ↔ ∃ u, s.pc u = .stamped) (hd : s.drain ≠ .emptied)
    (hd' : s'.drain ≠ .emptied) : s'.wq.notifiedAt ≠ none ↔ s'.Stamped := by
  rw [hat, h, WakeState.Stamped, WakeState.Stamped, hpair, hpc]
  simp [hd, hd']

/-- The same for a step of a pushing thread, which does not touch the drain. -/
lemma stamped_setPc {t : Option ι} {pc : WakePc} {wq : WorkerQueue ρ κ χ}
    (h : s.wq.notifiedAt ≠ none ↔ s.Stamped) (hat : wq.notifiedAt = s.wq.notifiedAt)
    (hpair : wq.pair = s.wq.pair) (ht : s.pc t ≠ .stamped) (hpc : pc ≠ .stamped) :
    ({ s with wq := wq }.setPc t pc).wq.notifiedAt ≠ none ↔
      ({ s with wq := wq }.setPc t pc).Stamped := by
  have threads := exists_stamped_setPc (s := s) ht hpc
  rw [setPc_wq, hat, h, WakeState.Stamped, WakeState.Stamped, setPc_wq, hpair, setPc_drain]
  exact or_congr threads.symm Iff.rfl

omit [DecidableEq ι] in
/-- Where the token is while the stamp is stored. -/
lemma Located.of_stamped {token : WakeToken ι} (h : Located s token) (hs : s.Stamped) :
    (∃ t, token = .held t ∧ s.pc t = .stamped) ∨ token = .socket ∨
      (token = .drained ∧ s.drain = .emptied) := by
  rcases hs with ⟨t, ht⟩ | hunread | hd
  · exact Or.inl ⟨t, (h.won t).mp (Or.inr ht), ht⟩
  · have bytes := h.unread
    cases token <;> simp_all [WakeToken.bytes]
  · exact Or.inr (Or.inr ⟨h.clearing.mp (by rw [hd]; trivial), hd⟩)

omit [DecidableEq ι] in
/-- A thread that has flipped the flag and not stored the stamp finds none stored. -/
lemma StampInv.flipped (h : StampInv s) {t : Option ι} (ht : s.pc t = .flipped) :
    s.wq.notifiedAt = none := by
  obtain ⟨token, hl⟩ := h.wake.located
  have held : token = .held t := (hl.won t).mp (Or.inl ht)
  by_contra set
  rcases hl.of_stamped (h.stamped.mp set) with ⟨u, heldBy, hu⟩ | socket | ⟨drained, -⟩
  · obtain rfl : t = u := by simpa [held] using heldBy
    rw [ht] at hu
    cases hu
  · simp [held] at socket
  · simp [held] at drained

omit [DecidableEq ι] in
/-- While the stamp is stored the flag is set. -/
lemma StampInv.notified (h : StampInv s) (set : s.wq.notifiedAt ≠ none) :
    s.wq.notified = true := by
  obtain ⟨token, hl⟩ := h.wake.located
  rw [hl.notified]
  rintro rfl
  rcases hl.of_stamped (h.stamped.mp set) with ⟨u, heldBy, -⟩ | socket | ⟨drained, -⟩
  · cases heldBy
  · cases socket
  · cases drained

omit [DecidableEq ι] in
/-- Nobody has flipped the flag and not written its byte when a drain stores `IDLE`. -/
lemma StampInv.not_won_of_emptied (h : StampInv s) (hd : s.drain = .emptied) (t : Option ι) :
    ¬ s.Won t := by
  obtain ⟨token, hl⟩ := h.wake.located
  have drained : token = .drained := hl.clearing.mp (by rw [hd]; trivial)
  rw [hl.won, drained]
  simp

/-- Every step keeps the stamp as it should be. -/
lemma stampInv_step (a : WakeAction ι ρ κ χ) (h : StampInv s) (hs : s.step a = some s') :
    StampInv s' := by
  refine ⟨wakeInv_step a h.wake hs, ?_⟩
  cases a with
  | push t item =>
    obtain ⟨⟨hidle, -⟩, rfl⟩ := of_guard hs
    cases item <;> exact stamped_setPc h.stamped rfl rfl (by simp [hidle]) (by simp)
  | swap t =>
    obtain ⟨hpushed, rfl⟩ := of_guard hs
    apply stamped_setPc h.stamped rfl rfl
    · simp [hpushed]
    · split <;> simp
  | stamp t now =>
    obtain ⟨hflipped, rfl⟩ := of_guard hs
    have stored : ({ s with wq := { s.wq with notifiedAt := some now } }.setPc t .stamped).Stamped :=
      Or.inl ⟨t, by simp [WakeState.setPc]⟩
    exact iff_of_true (by simp) stored
  | write t =>
    obtain ⟨hstamped, rfl⟩ := of_guard hs
    obtain ⟨token, hl⟩ := h.wake.located
    have held : token = .held t := (hl.won t).mp (Or.inr hstamped)
    subst held
    have unread := WakePair.wake_unread_of_eq_zero hl.unread
    refine iff_of_true (h.stamped.mpr (Or.inl ⟨t, hstamped⟩)) (Or.inr (Or.inl ?_))
    simp [unread]
  | start =>
    obtain ⟨⟨hdrain, -, -⟩, rfl⟩ := of_guard hs
    exact stamped_congr h.stamped rfl rfl Iff.rfl (by simp [hdrain]) (by simp)
  | read =>
    obtain ⟨hdrain, rfl⟩ := of_guard hs
    obtain ⟨token, hl⟩ := h.wake.located
    have socket := hl.reading hdrain
    subst socket
    have one : s.wq.pair.unread = 1 := hl.unread
    have short : s.wq.pair.readSize < WakePair.drainBuffer := by
      simp [WakePair.readSize, one, WakePair.drainBuffer]
    rw [if_pos short]
    refine iff_of_true (h.stamped.mpr (Or.inr (Or.inl ?_))) (Or.inr (Or.inr rfl))
    omega
  | storeIdle =>
    obtain ⟨hdrain, rfl⟩ := of_guard hs
    obtain ⟨token, hl⟩ := (wakeInv_storeIdle h.wake hs).located
    have drained : token = .drained := hl.clearing.mp trivial
    apply iff_of_false (by simp)
    intro stamped
    rcases hl.of_stamped stamped with ⟨u, heldBy, -⟩ | socket | ⟨-, hd⟩
    · simp [drained] at heldBy
    · simp [drained] at socket
    · simp at hd
  | storeNotified =>
    obtain ⟨hdrain, rfl⟩ := of_guard hs
    exact stamped_congr h.stamped rfl rfl Iff.rfl (by simp [hdrain]) (by simp)
  | pop =>
    obtain ⟨-, hpop⟩ := Option.ite_none_right_eq_some.mp hs
    unfold WakeState.popStep at hpop
    split at hpop
    case h_4 => cases hpop
    all_goals
      rename_i hdrain
      split at hpop <;> cases hpop <;>
        exact stamped_congr h.stamped rfl rfl Iff.rfl (by simp [hdrain]) (by simp [hdrain])
  | check =>
    obtain ⟨hidle, hcheck⟩ := Option.ite_none_right_eq_some.mp hs
    unfold WakeState.checkStep at hcheck
    split at hcheck
    case h_4 => cases hcheck
    all_goals
      rename_i hdrain
      split at hcheck <;> cases hcheck
      · exact stamped_congr h.stamped rfl rfl Iff.rfl (by simp [hdrain]) (by simp)
      · have same : s.pc none ≠ .stamped := by simp [hidle]
        have threads : (∃ u, ({ s with drain := .rewaking }.setPc none .pushed).pc u = .stamped) ↔
            ∃ u, s.pc u = .stamped :=
          exists_stamped_setPc (s := { s with drain := .rewaking }) same (by simp)
        exact stamped_congr h.stamped rfl rfl threads (by simp [hdrain]) (by simp)
  | finish =>
    obtain ⟨⟨hdrain, -⟩, rfl⟩ := of_guard hs
    exact stamped_congr h.stamped rfl rfl Iff.rfl (by simp [hdrain]) (by simp)

end Stamp

/-! ## What each step does to the stamp, the threads and the probes -/

section Steps

variable [DecidableEq ι]

/-- The stamp changes when a drain stores `IDLE` and when a thread stores its sample. -/
lemma notifiedAt_of_step {s s' : WakeState ι ρ κ χ} {a : WakeAction ι ρ κ χ}
    (hs : s.step a = some s') :
    s'.wq.notifiedAt = s.wq.notifiedAt ∨ (a = .storeIdle ∧ s'.wq.notifiedAt = none) ∨
      ∃ t now, a = .stamp t now ∧ s.pc t = .flipped ∧ s'.wq.notifiedAt = some now := by
  cases a with
  | push t item =>
    obtain ⟨-, rfl⟩ := of_guard hs
    cases item <;> exact Or.inl rfl
  | stamp t now =>
    obtain ⟨hflipped, rfl⟩ := of_guard hs
    exact Or.inr (Or.inr ⟨t, now, rfl, hflipped, rfl⟩)
  | storeIdle =>
    obtain ⟨-, rfl⟩ := of_guard hs
    exact Or.inr (Or.inl ⟨rfl, rfl⟩)
  | pop =>
    obtain ⟨-, hpop⟩ := Option.ite_none_right_eq_some.mp hs
    unfold WakeState.popStep at hpop
    split at hpop
    case h_4 => cases hpop
    all_goals
      split at hpop <;> cases hpop <;> exact Or.inl rfl
  | check =>
    obtain ⟨-, hcheck⟩ := Option.ite_none_right_eq_some.mp hs
    unfold WakeState.checkStep at hcheck
    split at hcheck
    case h_4 => cases hcheck
    all_goals
      split at hcheck <;> cases hcheck <;> exact Or.inl rfl
  | swap t | write t | start | read | storeNotified | finish =>
    obtain ⟨-, rfl⟩ := of_guard hs
    exact Or.inl rfl

/-- A step moves at most one thread; to the place before the store of the stamp by a swap that found
the flag clear, and from there by that store. -/
lemma threads_of_step {s s' : WakeState ι ρ κ χ} {a : WakeAction ι ρ κ χ}
    (hs : s.step a = some s') :
    s'.pc = s.pc ∨ ∃ u pc, s'.pc = Function.update s.pc u pc ∧
      ((s.pc u ≠ .flipped ∧ pc ≠ .flipped) ∨
        (a = .swap u ∧ s.wq.notified = false ∧ s.pc u = .pushed) ∨
        (∃ now, a = .stamp u now ∧ pc = .stamped)) := by
  cases a with
  | push u item =>
    obtain ⟨⟨hidle, -⟩, rfl⟩ := of_guard hs
    exact Or.inr ⟨u, .pushed, rfl, Or.inl ⟨by simp [hidle], by simp⟩⟩
  | swap u =>
    obtain ⟨hpushed, rfl⟩ := of_guard hs
    by_cases hn : s.wq.notified = true
    · rw [if_pos hn]
      exact Or.inr ⟨u, .idle, rfl, Or.inl ⟨by simp [hpushed], by simp⟩⟩
    · rw [if_neg hn]
      exact Or.inr ⟨u, .flipped, rfl, Or.inr (Or.inl ⟨rfl, by simpa using hn, hpushed⟩)⟩
  | stamp u now =>
    obtain ⟨-, rfl⟩ := of_guard hs
    exact Or.inr ⟨u, .stamped, rfl, Or.inr (Or.inr ⟨now, rfl, rfl⟩)⟩
  | write u =>
    obtain ⟨hstamped, rfl⟩ := of_guard hs
    exact Or.inr ⟨u, .idle, rfl, Or.inl ⟨by simp [hstamped], by simp⟩⟩
  | pop =>
    obtain ⟨-, hpop⟩ := Option.ite_none_right_eq_some.mp hs
    unfold WakeState.popStep at hpop
    split at hpop
    case h_4 => cases hpop
    all_goals
      split at hpop <;> cases hpop <;> exact Or.inl rfl
  | check =>
    obtain ⟨hidle, hcheck⟩ := Option.ite_none_right_eq_some.mp hs
    unfold WakeState.checkStep at hcheck
    split at hcheck
    case h_4 => cases hcheck
    all_goals
      split at hcheck <;> cases hcheck
      · exact Or.inl rfl
      · exact Or.inr ⟨none, .pushed, rfl, Or.inl ⟨by simp [hidle], by simp⟩⟩
  | start | read | storeIdle | storeNotified | finish =>
    obtain ⟨-, rfl⟩ := of_guard hs
    exact Or.inl rfl

/-- A thread comes to be about to store the stamp by a swap that found the flag clear. -/
lemma flipped_of_step {s s' : WakeState ι ρ κ χ} {a : WakeAction ι ρ κ χ}
    (hs : s.step a = some s') {t : Option ι} (ht : s'.pc t = .flipped) :
    s.pc t = .flipped ∨ (a = .swap t ∧ s.wq.notified = false) := by
  rcases threads_of_step hs with same | ⟨u, pc, moved, how⟩
  · rw [same] at ht
    exact Or.inl ht
  · rw [moved] at ht
    by_cases hu : t = u
    · subst hu
      rw [Function.update_self] at ht
      rcases how with ⟨-, other⟩ | ⟨swap, clear, -⟩ | ⟨now, -, stamped⟩
      · exact absurd ht other
      · exact Or.inr ⟨swap, clear⟩
      · simp [ht] at stamped
    · rw [Function.update_of_ne hu] at ht
      exact Or.inl ht

/-- A thread about to store the stamp stays there until it does. -/
lemma flipped_stays {s s' : WakeState ι ρ κ χ} {a : WakeAction ι ρ κ χ}
    (hs : s.step a = some s') {t : Option ι} (ht : s.pc t = .flipped)
    (ha : ∀ now, a ≠ .stamp t now) : s'.pc t = .flipped := by
  rcases threads_of_step hs with same | ⟨u, pc, moved, how⟩
  · rw [same]
    exact ht
  · by_cases hu : t = u
    · subst hu
      rcases how with ⟨other, -⟩ | ⟨-, -, pushed⟩ | ⟨now, stamp, -⟩
      · exact absurd ht other
      · simp [ht] at pushed
      · exact absurd stamp (ha now)
    · rw [moved, Function.update_of_ne hu]
      exact ht

end Steps

/-! ## What a run has recorded -/

namespace ProbeState

variable [DecidableEq ι] [DecidableEq π]

/-- In the run from `s₀` to `s` the thread `t` flipped the flag, and no drain has answered since. -/
def Flipped (s₀ s : ProbeState ι ρ κ χ π) (t : Option ι) : Prop :=
  ∃ s₁ s₁', Reachable step s₀ s₁ ∧ s₁.worker.wq.notified = false ∧
    s₁.step (.worker (.swap t)) = some s₁' ∧ Reaches step Unanswered s₁' s

/-- In the run from `s₀` to `s` the thread `t` flipped the flag, then read `now` from the clock, and
no drain has answered since it flipped the flag. -/
def Begun (s₀ s : ProbeState ι ρ κ χ π) (t : Option ι) (now : ℕ) : Prop :=
  ∃ s₁ s₁', Flipped s₀ s₁ t ∧ s₁.clock = now ∧ s₁.step (.sample t) = some s₁' ∧
    Reaches step Unanswered s₁' s

/-- In the run from `s₀` to `s` the probe `r` read the stamp `begun`, and at that moment a wake begun
at `begun` had not been answered; the probe has done nothing since. -/
def StampRead (s₀ s : ProbeState ι ρ κ χ π) (r : π) (begun : ℕ) : Prop :=
  ∃ s₁ s₁' t, Reachable step s₀ s₁ ∧ s₁.worker.wq.notifiedAt = some begun ∧ Begun s₀ s₁ t begun ∧
    s₁.step (.loadStamp r) = some s₁' ∧ Reaches step (Others r) s₁' s

/-- In the run from `s₀` to `s` the probe `r` read a stamp, as `StampRead` says, then read the clock
and returned the time since the stamp; it has done nothing since. -/
def Measured (s₀ s : ProbeState ι ρ κ χ π) (r : π) (waited : ℕ) : Prop :=
  ∃ s₁ s₁' begun, StampRead s₀ s₁ r begun ∧ s₁.step (.loadClock r) = some s₁' ∧
    waited = s₁.clock - begun ∧ Reaches step (Others r) s₁' s

variable {s₀ s s' : ProbeState ι ρ κ χ π} {a : ProbeAction ι ρ κ χ π}

lemma Flipped.next {t : Option ι} (h : Flipped s₀ s t) (ha : a.answers = false)
    (hs : s.step a = some s') : Flipped s₀ s' t := by
  obtain ⟨s₁, s₁', reached, clear, swapped, run⟩ := h
  exact ⟨s₁, s₁', reached, clear, swapped, run.next a ha hs⟩

lemma Begun.next {t : Option ι} {now : ℕ} (h : Begun s₀ s t now) (ha : a.answers = false)
    (hs : s.step a = some s') : Begun s₀ s' t now := by
  obtain ⟨s₁, s₁', flipped, clock, sampled, run⟩ := h
  exact ⟨s₁, s₁', flipped, clock, sampled, run.next a ha hs⟩

lemma StampRead.next {r : π} {begun : ℕ} (h : StampRead s₀ s r begun) (ha : a.isOf r = false)
    (hs : s.step a = some s') : StampRead s₀ s' r begun := by
  obtain ⟨s₁, s₁', t, reached, stamp, flip, loaded, run⟩ := h
  exact ⟨s₁, s₁', t, reached, stamp, flip, loaded, run.next a ha hs⟩

lemma Measured.next {r : π} {waited : ℕ} (h : Measured s₀ s r waited) (ha : a.isOf r = false)
    (hs : s.step a = some s') : Measured s₀ s' r waited := by
  obtain ⟨s₁, s₁', begun, read, loaded, value, run⟩ := h
  exact ⟨s₁, s₁', begun, read, loaded, value, run.next a ha hs⟩

/-- What the threads and the probes hold is accounted for by what the run has done. -/
structure Recorded (s₀ s : ProbeState ι ρ κ χ π) : Prop where
  reached : Reachable step s₀ s
  inv : StampInv s.worker
  flipped : ∀ t, s.worker.pc t = .flipped → Flipped s₀ s t
  sampled : ∀ t now, s.sampled t = some now → s.worker.pc t = .flipped ∧ Begun s₀ s t now
  stamp : ∀ now, s.worker.wq.notifiedAt = some now → ∃ t, Begun s₀ s t now
  loaded : ∀ r begun, s.probe r = .loaded begun → StampRead s₀ s r begun
  returned : ∀ r waited, s.probe r = .returned (some waited) → Measured s₀ s r waited

/-- A step of the wake protocol keeps the record. -/
lemma Recorded.worker (h : Recorded s₀ s) {b : WakeAction ι ρ κ χ}
    (hs : s.step (.worker b) = some s') : Recorded s₀ s' := by
  have taken := hs
  obtain ⟨hb, hmap⟩ := Option.ite_none_right_eq_some.mp hs
  obtain ⟨w, hw, rfl⟩ := Option.map_eq_some_iff.mp hmap
  -- `storeIdle` is the one step that ends a wake, and then no thread is inside `wake`
  have noneWon : (ProbeAction.worker b : ProbeAction ι ρ κ χ π).answers = true →
      (∀ t, ¬ s.worker.Won t) ∧ w.wq.notifiedAt = none := by
    intro hanswers
    cases b <;> try cases hanswers
    obtain ⟨hd, rfl⟩ := of_guard hw
    exact ⟨h.inv.not_won_of_emptied hd, rfl⟩
  have unanswered : ∀ t, s.worker.pc t = .flipped →
      (ProbeAction.worker b : ProbeAction ι ρ κ χ π).answers = false := by
    intro t ht
    by_contra hanswers
    exact (noneWon (by simpa using hanswers)).1 t (Or.inl ht)
  constructor
  · exact h.reached.next _ trivial taken
  · exact stampInv_step b h.inv hw
  · intro t ht
    rcases flipped_of_step hw ht with ht | ⟨rfl, clear⟩
    · exact (h.flipped t ht).next (unanswered t ht) taken
    · exact ⟨s, _, h.reached, clear, taken, .start⟩
  · intro t now hnow
    obtain ⟨ht, begun⟩ := h.sampled t now hnow
    refine ⟨flipped_stays hw ht ?_, begun.next (unanswered t ht) taken⟩
    rintro now rfl
    cases hb
  · intro now hnow
    have nonzero : (ProbeAction.worker b : ProbeAction ι ρ κ χ π).answers = false := by
      by_contra hanswers
      have clear := (noneWon (by simpa using hanswers)).2
      simp [clear] at hnow
    rcases notifiedAt_of_step hw with same | ⟨-, clear⟩ | ⟨t, now', rfl, -⟩
    · obtain ⟨t, begun⟩ := h.stamp now (same ▸ hnow)
      exact ⟨t, begun.next nonzero taken⟩
    · simp [clear] at hnow
    · cases hb
  · intro r begun hr
    exact (h.loaded r begun hr).next rfl taken
  · intro r waited hr
    exact (h.returned r waited hr).next rfl taken

/-- The store of a sample keeps the record: the stamp is what the sample was. -/
lemma Recorded.stamped (h : Recorded s₀ s) {t : Option ι} (hs : s.step (.stamp t) = some s') :
    Recorded s₀ s' := by
  have taken := hs
  simp only [step] at hs
  split at hs
  case h_2 => cases hs
  case h_1 now hnow =>
    obtain ⟨w, hw, rfl⟩ := Option.map_eq_some_iff.mp hs
    constructor
    · exact h.reached.next _ trivial taken
    · exact stampInv_step _ h.inv hw
    · intro u hu
      rcases flipped_of_step hw hu with hu | ⟨swap, -⟩
      · exact (h.flipped u hu).next rfl taken
      · cases swap
    · intro u now' hu
      by_cases same : u = t
      · subst same
        simp at hu
      · simp only [Function.update_of_ne same] at hu
        obtain ⟨hpc, begun⟩ := h.sampled u now' hu
        refine ⟨flipped_stays hw hpc ?_, begun.next rfl taken⟩
        rintro now'' other
        cases other
        exact same rfl
    · intro now' hnow'
      obtain ⟨-, rfl⟩ := of_guard hw
      obtain rfl : now = now' := by simpa using hnow'
      exact ⟨t, (h.sampled t now hnow).2.next rfl taken⟩
    · intro r begun hr
      exact (h.loaded r begun hr).next rfl taken
    · intro r waited hr
      exact (h.returned r waited hr).next rfl taken

/-- A reading of the clock by a thread inside `wake` keeps the record. -/
lemma Recorded.sample (h : Recorded s₀ s) {t : Option ι} (hs : s.step (.sample t) = some s') :
    Recorded s₀ s' := by
  have taken := hs
  obtain ⟨⟨hflipped, -⟩, rfl⟩ := of_guard hs
  constructor
  · exact h.reached.next _ trivial taken
  · exact h.inv
  · intro u hu
    exact (h.flipped u hu).next rfl taken
  · intro u now hu
    by_cases same : u = t
    · subst same
      obtain rfl : s.clock = now := by simpa using hu
      exact ⟨hflipped, s, _, h.flipped u hflipped, rfl, taken, .start⟩
    · simp only [Function.update_of_ne same] at hu
      obtain ⟨hpc, begun⟩ := h.sampled u now hu
      exact ⟨hpc, begun.next rfl taken⟩
  · intro now hnow
    obtain ⟨u, begun⟩ := h.stamp now hnow
    exact ⟨u, begun.next rfl taken⟩
  · intro r begun hr
    exact (h.loaded r begun hr).next rfl taken
  · intro r waited hr
    exact (h.returned r waited hr).next rfl taken

/-- A step that leaves the worker and the samples alone keeps the record, if what the probes hold is
accounted for. -/
lemma Recorded.of_eq (h : Recorded s₀ s) (hs : s.step a = some s') (ha : a.answers = false)
    (hworker : s'.worker = s.worker) (hsampled : s'.sampled = s.sampled)
    (hloaded : ∀ r begun, s'.probe r = .loaded begun → StampRead s₀ s' r begun)
    (hreturned : ∀ r waited, s'.probe r = .returned (some waited) → Measured s₀ s' r waited) :
    Recorded s₀ s' := by
  refine ⟨h.reached.next a trivial hs, hworker ▸ h.inv, ?_, ?_, ?_, hloaded, hreturned⟩
  · intro t ht
    rw [hworker] at ht
    exact (h.flipped t ht).next ha hs
  · intro t now hnow
    rw [hsampled] at hnow
    obtain ⟨ht, begun⟩ := h.sampled t now hnow
    exact ⟨hworker ▸ ht, begun.next ha hs⟩
  · intro now hnow
    rw [hworker] at hnow
    obtain ⟨t, begun⟩ := h.stamp now hnow
    exact ⟨t, begun.next ha hs⟩

/-- What a probe's own step has to account for is what that probe then holds. -/
lemma Recorded.probe (h : Recorded s₀ s) {r : π} {pc : ProbePc}
    (hs : s.step a = some (s.setProbe r pc))
    (ha : a.answers = false) (hothers : ∀ r', r' ≠ r → a.isOf r' = false)
    (hloaded : ∀ begun, pc = .loaded begun → StampRead s₀ (s.setProbe r pc) r begun)
    (hreturned : ∀ waited, pc = .returned (some waited) → Measured s₀ (s.setProbe r pc) r waited) :
    Recorded s₀ (s.setProbe r pc) := by
  apply h.of_eq hs ha rfl rfl
  · intro r' begun hr'
    by_cases same : r' = r
    · subst same
      exact hloaded begun (by simpa [setProbe] using hr')
    · simp only [setProbe, Function.update_of_ne same] at hr'
      exact (h.loaded r' begun hr').next (hothers r' same) hs
  · intro r' waited hr'
    by_cases same : r' = r
    · subst same
      exact hreturned waited (by simpa [setProbe] using hr')
    · simp only [setProbe, Function.update_of_ne same] at hr'
      exact (h.returned r' waited hr').next (hothers r' same) hs

/-- Every step keeps the record. -/
lemma Recorded.step (h : Recorded s₀ s) (hs : s.step a = some s') : Recorded s₀ s' := by
  cases a with
  | worker b => exact h.worker hs
  | stamp t => exact h.stamped hs
  | sample t => exact h.sample hs
  | tick ms =>
    obtain rfl := Option.some.inj hs
    apply h.of_eq hs rfl rfl rfl
    · intro r begun hr
      exact (h.loaded r begun hr).next rfl hs
    · intro r waited hr
      exact (h.returned r waited hr).next rfl hs
  | loadFlag r =>
    have taken := hs
    simp only [ProbeState.step] at hs
    split at hs
    case h_3 => cases hs
    all_goals
      obtain rfl := Option.some.inj hs
      apply h.probe taken rfl (fun r' hr' => by simp [ProbeAction.isOf, hr'.symm])
      · intro begun hpc
        split at hpc <;> cases hpc
      · intro waited hpc
        split at hpc <;> cases hpc
  | loadStamp r =>
    have taken := hs
    obtain ⟨-, rfl⟩ := of_guard hs
    apply h.probe taken rfl (fun r' hr' => by simp [ProbeAction.isOf, hr'.symm])
    · intro begun hpc
      split at hpc
      case h_1 begun' hat =>
        obtain rfl : begun' = begun := by simpa using hpc
        obtain ⟨t, flip⟩ := h.stamp begun' hat
        refine ⟨s, _, t, h.reached, hat, flip, taken, ?_⟩
        simp only [hat]
        exact .start
      case h_2 => cases hpc
    · intro waited hpc
      split at hpc <;> cases hpc
  | loadClock r =>
    have taken := hs
    simp only [ProbeState.step] at hs
    split at hs
    case h_2 => cases hs
    case h_1 begun hbegun =>
      obtain rfl := Option.some.inj hs
      apply h.probe taken rfl (fun r' hr' => by simp [ProbeAction.isOf, hr'.symm])
      · intro begun' hpc
        cases hpc
      · intro waited hpc
        obtain rfl : s.clock - begun = waited := by simpa using hpc
        exact ⟨s, _, begun, h.loaded r begun hbegun, taken, rfl, .start⟩

/-- Nothing has been recorded when a worker starts. -/
lemma recorded_new (pair : WakePair) (limit : ℤ) (clock : ℕ) :
    Recorded (ProbeState.new pair limit clock : ProbeState ι ρ κ χ π) (.new pair limit clock) where
  reached := .start
  inv := ⟨wakeInv_new pair limit, by
    simp [ProbeState.new, WakeState.new, WorkerQueue.new, WakeState.Stamped]⟩
  flipped := by simp [ProbeState.new, WakeState.new]
  sampled := by simp [ProbeState.new]
  stamp := by simp [ProbeState.new, WakeState.new, WorkerQueue.new]
  loaded := by simp [ProbeState.new]
  returned := by simp [ProbeState.new]

/-- What any run has done is recorded. -/
lemma recorded {pair : WakePair} {limit : ℤ} {clock : ℕ}
    (h : Reachable step (.new pair limit clock) s) : Recorded (.new pair limit clock) s :=
  h.invariant (recorded_new pair limit clock) fun _ _ _ hI taken => hI.step taken

/-! ## Stamps along a run -/

/-- No step sets the clock back. -/
lemma clock_le_step (hs : s.step a = some s') : s.clock ≤ s'.clock := by
  cases a with
  | worker b =>
    obtain ⟨-, hmap⟩ := Option.ite_none_right_eq_some.mp hs
    obtain ⟨w, -, rfl⟩ := Option.map_eq_some_iff.mp hmap
    exact le_rfl
  | tick ms =>
    obtain rfl := Option.some.inj hs
    exact Nat.le_add_right _ _
  | sample u | loadStamp u =>
    obtain ⟨-, rfl⟩ := of_guard hs
    exact le_rfl
  | stamp u =>
    simp only [ProbeState.step] at hs
    split at hs
    case h_2 => cases hs
    case h_1 =>
      obtain ⟨w, -, rfl⟩ := Option.map_eq_some_iff.mp hs
      exact le_rfl
  | loadFlag u | loadClock u =>
    simp only [ProbeState.step] at hs
    split at hs <;> cases hs <;> exact le_rfl

/-- No run sets the clock back. -/
lemma clock_le {ok : ProbeState ι ρ κ χ π → ProbeAction ι ρ κ χ π → Prop}
    (h : Reaches step ok s s') : s.clock ≤ s'.clock :=
  h.invariant (I := fun t => s.clock ≤ t.clock) le_rfl fun _ _ _ earlier _ taken =>
    earlier.trans (clock_le_step taken)

/-- A stamp is not later than the clock. -/
lemma Begun.le {t : Option ι} {now : ℕ} (h : Begun s₀ s t now) : now ≤ s.clock := by
  obtain ⟨s₁, s₁', -, rfl, taken, run⟩ := h
  have later := clock_le run
  obtain ⟨-, rfl⟩ := of_guard taken
  exact later

/-- A step is one of the wake protocol, or leaves the worker alone. -/
lemma worker_of_step (hs : s.step a = some s') : s'.worker = s.worker ∨
    ∃ b, s.worker.step b = some s'.worker ∧ (b = .storeIdle → a.answers = true) := by
  cases a with
  | worker b =>
    obtain ⟨-, hmap⟩ := Option.ite_none_right_eq_some.mp hs
    obtain ⟨w, hw, rfl⟩ := Option.map_eq_some_iff.mp hmap
    refine Or.inr ⟨b, hw, ?_⟩
    rintro rfl
    rfl
  | tick ms =>
    obtain rfl := Option.some.inj hs
    exact Or.inl rfl
  | sample u | loadStamp u =>
    obtain ⟨-, rfl⟩ := of_guard hs
    exact Or.inl rfl
  | stamp u =>
    simp only [ProbeState.step] at hs
    split at hs
    case h_2 => cases hs
    case h_1 =>
      obtain ⟨w, hw, rfl⟩ := Option.map_eq_some_iff.mp hs
      exact Or.inr ⟨_, hw, fun other => by cases other⟩
  | loadFlag u | loadClock u =>
    simp only [ProbeState.step] at hs
    split at hs <;> cases hs <;> exact Or.inl rfl

/-- A step that does not answer the wake leaves a stored stamp alone. -/
lemma stamp_stays_step (h : Recorded s₀ s) (ha : a.answers = false) (hs : s.step a = some s')
    {begun : ℕ} (hat : s.worker.wq.notifiedAt = some begun) :
    s'.worker.wq.notifiedAt = some begun := by
  rcases worker_of_step hs with same | ⟨b, hb, idle⟩
  · rw [same]
    exact hat
  rcases notifiedAt_of_step hb with same | ⟨storeIdle, -⟩ | ⟨t, now, -, flipped, -⟩
  · rw [same, hat]
  · rw [idle storeIdle] at ha
    cases ha
  · have unset := h.inv.flipped flipped
    simp [hat] at unset

/-- So does a run in which no drain answers. -/
lemma stamp_stays (h : Recorded s₀ s) (run : Reaches step Unanswered s s') {begun : ℕ}
    (hat : s.worker.wq.notifiedAt = some begun) :
    Recorded s₀ s' ∧ s'.worker.wq.notifiedAt = some begun := by
  apply run.invariant (I := fun t => Recorded s₀ t ∧ t.worker.wq.notifiedAt = some begun) ⟨h, hat⟩
  rintro t a t' ⟨ht, hat⟩ ha taken
  exact ⟨ht.step taken, stamp_stays_step ht ha taken hat⟩

/-- What a probe holds does not change while others take steps. -/
lemma probe_stays {r : π} (run : Reaches step (Others r) s s') : s'.probe r = s.probe r := by
  apply run.invariant (I := fun t => t.probe r = s.probe r) rfl
  intro t a t' same ha taken
  rw [← same]
  cases a with
  | worker b =>
    obtain ⟨-, hmap⟩ := Option.ite_none_right_eq_some.mp taken
    obtain ⟨w, hw, rfl⟩ := Option.map_eq_some_iff.mp hmap
    rfl
  | tick ms =>
    obtain rfl := Option.some.inj taken
    rfl
  | sample u =>
    obtain ⟨-, rfl⟩ := of_guard taken
    rfl
  | stamp u =>
    simp only [ProbeState.step] at taken
    split at taken
    case h_2 => cases taken
    case h_1 =>
      obtain ⟨w, hw, rfl⟩ := Option.map_eq_some_iff.mp taken
      rfl
  | loadStamp u =>
    obtain ⟨-, rfl⟩ := of_guard taken
    have hu : r ≠ u := by simpa [ProbeAction.isOf, eq_comm] using ha
    exact Function.update_of_ne hu _ _
  | loadFlag u | loadClock u =>
    have hu : r ≠ u := by simpa [ProbeAction.isOf, eq_comm] using ha
    simp only [ProbeState.step] at taken
    split at taken <;> cases taken <;> exact Function.update_of_ne hu _ _

/-- A push that finds a wake outstanding ends there, and the stamp is what it was. -/
lemma push_ends {t : Option ι} (hn : s.worker.wq.notified = true)
    (hs : s.step (.worker (.swap t)) = some s') :
    s'.worker.pc t = .idle ∧ s'.worker.wq.notifiedAt = s.worker.wq.notifiedAt := by
  simp only [ProbeState.step] at hs
  obtain ⟨-, hmap⟩ := Option.ite_none_right_eq_some.mp hs
  obtain ⟨w, hw, rfl⟩ := Option.map_eq_some_iff.mp hmap
  obtain ⟨-, rfl⟩ := of_guard hw
  exact ⟨by simp [WakeState.setPc, hn], rfl⟩

/-- A write leaves its byte in the socket, so the stamp of the wake is stored. -/
lemma stamp_of_write (h : Recorded s₀ s') {t : Option ι}
    (hs : s.step (.worker (.write t)) = some s') : ∃ begun, s'.worker.wq.notifiedAt = some begun := by
  simp only [ProbeState.step] at hs
  obtain ⟨-, hmap⟩ := Option.ite_none_right_eq_some.mp hs
  obtain ⟨w, hw, rfl⟩ := Option.map_eq_some_iff.mp hmap
  apply Option.ne_none_iff_exists'.mp
  rw [h.inv.stamped]
  obtain ⟨-, rfl⟩ := of_guard hw
  refine Or.inr (Or.inl ?_)
  have room := s.worker.wq.pair.capacity_pos
  simp only [setPc_wq, WakePair.wake]
  split
  · exact Nat.succ_pos _
  · omega

/-- A probe that finds the flag set goes on. -/
lemma loadFlag_notified {r : π} (hn : s.worker.wq.notified = true)
    (hs : s.step (.loadFlag r) = some s') : s'.probe r = .flagged := by
  simp only [ProbeState.step, hn] at hs
  split at hs <;> cases hs <;> simp [setProbe]

/-- A probe that finds a stamp goes on with it. -/
lemma loadStamp_stored {r : π} {begun : ℕ} (hr : s.probe r = .flagged)
    (hat : s.worker.wq.notifiedAt = some begun) :
    ∃ s', s.step (.loadStamp r) = some s' ∧ s'.probe r = .loaded begun := by
  refine ⟨s.setProbe r (.loaded begun), ?_, by simp [setProbe]⟩
  simp only [ProbeState.step, if_pos hr, hat]

/-- A probe with a stamp returns the time since. -/
lemma loadClock_loaded {r : π} {begun : ℕ} (hr : s.probe r = .loaded begun) :
    ∃ s', s.step (.loadClock r) = some s' ∧ s'.probe r = .returned (some (s.clock - begun)) := by
  refine ⟨s.setProbe r (.returned (some (s.clock - begun))), ?_, by simp [setProbe]⟩
  simp only [ProbeState.step, hr]

end ProbeState

/-! ## What the probe reports -/

/-- A worker is named as stalled exactly if its wait is longer than `stall_after`. -/
lemma mem_stalled_iff {stallAfter : ℕ} {waits : List (Option ℕ)} {i : ℕ} :
    (∃ loops, stalled stallAfter waits = some loops ∧ i ∈ loops) ↔
      ∃ waited, waits[i]? = some (some waited) ∧ stallAfter < waited * 1000000 := by
  have named : i ∈ (waits.zipIdx.filter fun w => w.1.any fun d => stallAfter < d * 1000000).map
      Prod.snd ↔ ∃ waited, waits[i]? = some (some waited) ∧ stallAfter < waited * 1000000 := by
    simp only [List.mem_map, List.mem_filter, Prod.exists, exists_eq_right,
      List.mem_zipIdx_iff_getElem?, Option.any_eq_true, decide_eq_true_eq]
    constructor
    · rintro ⟨w, hi, waited, rfl, long⟩
      exact ⟨waited, hi, long⟩
    · rintro ⟨waited, hi, long⟩
      exact ⟨some waited, hi, waited, rfl, long⟩
  rw [← named, stalled]
  constructor
  · rintro ⟨loops, hloops, hi⟩
    split at hloops
    · cases hloops
    · obtain rfl := Option.some.inj hloops
      exact hi
  · intro hi
    rw [if_neg (List.ne_nil_of_mem hi)]
    exact ⟨_, rfl, hi⟩

variable [DecidableEq ι] [DecidableEq π]

open ProbeState in
/-- **The probe measures a real unanswered wake.**  For any number of producers and probes and any
interleaving: a wait that was returned is the time since a stamp that was read while a wake begun at
that stamp had not been answered.  A push that finds a wake outstanding stores no stamp, and until a
drain answers the wake its stamp stays what it is.  From the write of a wake's byte until a drain
answers it, every probe finds the flag set, reads that wake's stamp, and returns the time since;
`Health::stalled` then names the loop as soon as that time is longer than `stall_after`. -/
theorem waiting_for_measures (pair : WakePair) (limit : ℤ) (clock : ℕ) :
    let s₀ : ProbeState ι ρ κ χ π := .new pair limit clock
    (∀ s r waited, Reachable step s₀ s → s.probe r = .returned (some waited) →
      Measured s₀ s r waited) ∧
    (∀ s s' t, Reachable step s₀ s → s.worker.wq.notified = true →
      s.step (.worker (.swap t)) = some s' →
      s'.worker.pc t = .idle ∧ s'.worker.wq.notifiedAt = s.worker.wq.notifiedAt) ∧
    (∀ s s' begun, Reachable step s₀ s → s.worker.wq.notifiedAt = some begun →
      Reaches step Unanswered s s' → s'.worker.wq.notifiedAt = some begun) ∧
    (∀ s s' t, Reachable step s₀ s → s.step (.worker (.write t)) = some s' →
      ∃ u begun, s'.worker.wq.notifiedAt = some begun ∧ Begun s₀ s' u begun ∧
      ∀ r s₁ s₁', Reaches step Unanswered s' s₁ → s₁.step (.loadFlag r) = some s₁' →
      s₁'.probe r = .flagged ∧
      ∀ s₂, Reaches step (fun s a => Unanswered s a ∧ Others r s a) s₁' s₂ →
      ∃ s₂', s₂.step (.loadStamp r) = some s₂' ∧
      ∀ s₃, Reaches step (Others r) s₂' s₃ →
      ∃ s₃', s₃.step (.loadClock r) = some s₃' ∧ begun ≤ s₃.clock ∧
        s₃'.probe r = .returned (some (s₃.clock - begun)) ∧
        ∀ stallAfter waits i, waits[i]? = some (some (s₃.clock - begun)) →
          stallAfter < (s₃.clock - begun) * 1000000 →
          ∃ loops, stalled stallAfter waits = some loops ∧ i ∈ loops) := by
  intro s₀
  refine ⟨?_, ?_, ?_, ?_⟩
  · intro s r waited reached hr
    exact (recorded reached).returned r waited hr
  · intro s s' t _ hn hs
    exact push_ends hn hs
  · intro s s' begun reached hat run
    exact (stamp_stays (recorded reached) run hat).2
  · intro s s' t reached hs
    have written := (recorded reached).step hs
    obtain ⟨begun, hat⟩ := stamp_of_write written hs
    obtain ⟨u, flip⟩ := written.stamp begun hat
    refine ⟨u, begun, hat, flip, ?_⟩
    intro r s₁ s₁' run₁ load₁
    obtain ⟨h₁, hat₁⟩ := stamp_stays written run₁ hat
    have set : s₁.worker.wq.notified = true := h₁.inv.notified (by simp [hat₁])
    have flagged := loadFlag_notified set load₁
    refine ⟨flagged, ?_⟩
    intro s₂ run₂
    have hat₁' := stamp_stays_step h₁ rfl load₁ hat₁
    obtain ⟨h₂, hat₂⟩ := stamp_stays (h₁.step load₁) (run₂.mono fun _ _ ok => ok.1) hat₁'
    have flagged₂ := (probe_stays (run₂.mono fun _ _ ok => ok.2)).trans flagged
    obtain ⟨s₂', load₂, loaded⟩ := loadStamp_stored flagged₂ hat₂
    refine ⟨s₂', load₂, ?_⟩
    intro s₃ run₃
    obtain ⟨s₃', load₃, returned⟩ := loadClock_loaded ((probe_stays run₃).trans loaded)
    have passed : begun ≤ s₃.clock :=
      calc begun ≤ s'.clock := flip.le
        _ ≤ s₁.clock := clock_le run₁
        _ ≤ s₁'.clock := clock_le_step load₁
        _ ≤ s₂.clock := clock_le run₂
        _ ≤ s₂'.clock := clock_le_step load₂
        _ ≤ s₃.clock := clock_le run₃
    refine ⟨s₃', load₃, passed, returned, ?_⟩
    intro stallAfter waits i hi long
    exact mem_stalled_iff.mpr ⟨_, hi, long⟩

/-- A wake begun at 5 is unanswered, and a probe that looks while another request is pushed returns
the time since. -/
theorem steady_traffic_is_measured :
    ∃ s : ProbeState (Fin 2) ℕ Unit Unit Unit,
      Reachable ProbeState.step (.new ⟨0, 1, Nat.one_pos⟩ 8 5) s ∧
        s.probe () = .returned (some 40) ∧
        ProbeState.Measured (.new ⟨0, 1, Nat.one_pos⟩ 8 5) s () 40 := by
  have run : Reachable ProbeState.step (.new ⟨0, 1, Nat.one_pos⟩ 8 5)
      (_ : ProbeState (Fin 2) ℕ Unit Unit Unit) :=
    Reachable.of_exec [.worker (.push (some 0) (.request 7)), .worker (.swap (some 0)),
      .sample (some 0), .tick 10, .stamp (some 0), .worker (.write (some 0)), .loadFlag (),
      .worker (.push (some 1) (.request 9)), .worker (.swap (some 1)), .loadStamp (), .tick 30,
      .loadClock ()] rfl
  exact ⟨_, run, rfl, (waiting_for_measures _ _ _).1 _ _ _ run rfl⟩

end Oxbrook
