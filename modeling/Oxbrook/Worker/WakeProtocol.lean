import Mathlib.Data.Set.Card
import Oxbrook.Foundation.Runs
import Oxbrook.Worker.Queue

/-!
# The wake protocol of a worker

`WorkerQueue::wake` and `Drainer::__call__` taken apart into their single atomic operations, run by
any number of threads in any order.  A producer pushes onto one of the three queues, swaps
`notified`, and only if it flipped the flag stores `notified_at` and writes one byte.  The drain
callback starts when a byte is unread; it empties the socket, stores `IDLE`, stores
`notified = false`, pops the three queues until each was seen empty, and re-arms itself if
something is pending.

The threads are `Option ι`: `some i` is a producer, `none` the worker's own thread, which pushes
too, from a callback run inside the drain or from a handler between two drains.  While the worker's
thread is inside a push the drain waits for it, as on the one thread both run on.  The room check of
`try_push` only decides whether a push happens at all, so a push is possible here at any time.

The proof follows one *token*.  The flag `notified` is set exactly while the token exists, and the
token is at every moment in exactly one place (`Located`): held by the thread that flipped the flag,
in the socket as the unread byte, or with the drain that has read the byte and not yet cleared the
flag.
-/

namespace Oxbrook

open StepMachine

variable {ι ρ κ χ : Type*}

/-! ## States and steps -/

/-- Where a thread stands in `try_push`, `push_wakeup` or `push_cancel`, or in the `wake` of
`rewake_if_pending`: outside, about to swap `notified`, about to store `notified_at` after a swap
that returned false, about to write the byte. -/
inductive WakePc
  | idle
  | pushed
  | flipped
  | stamped
  deriving DecidableEq

/-- Where `Drainer::__call__` stands.  The three `checking` places are the three `is_empty` calls of
`rewake_if_pending`, in the order of the source, and `rewaking` is the `wake` it ends in. -/
inductive DrainPc
  | idle
  | reading
  -- the socket is empty and `IDLE` is about to be stored
  | emptied
  -- `notified = false` is about to be stored
  | idleStored
  | poppingWakeups
  | poppingCancels
  | popping
  | checkingQueue
  | checkingWakeups
  | checkingCancels
  | rewaking
  deriving DecidableEq

/-- The three queues. -/
inductive QueueKind
  | request
  | wakeup
  | cancel
  deriving DecidableEq

/-- An item on its way into one of the queues. -/
inductive Push (ρ κ χ : Type*)
  | request (item : ρ)
  | wakeup (callback : κ)
  | cancel (cell : χ)

/-- The bare push of an item, without the `wake` that follows it. -/
def WorkerQueue.append (wq : WorkerQueue ρ κ χ) : Push ρ κ χ → WorkerQueue ρ κ χ
  | .request item => { wq with queue := wq.queue ++ [item] }
  | .wakeup callback => { wq with wakeups := wq.wakeups ++ [callback] }
  | .cancel cell => { wq with cancels := wq.cancels ++ [cell] }

/-- One of the three queues holds something. -/
def WorkerQueue.Holds (wq : WorkerQueue ρ κ χ) : QueueKind → Prop
  | .request => wq.queue ≠ []
  | .wakeup => wq.wakeups ≠ []
  | .cancel => wq.cancels ≠ []

/-- A worker's queue, the threads that push onto it, and its drain callback. -/
structure WakeState (ι ρ κ χ : Type*) where
  wq : WorkerQueue ρ κ χ
  -- `none` is the worker's own thread
  pc : Option ι → WakePc
  drain : DrainPc

/-- One atomic operation.  The first four belong to a thread that pushes, the others to the drain
callback: `start` is the loop that sees the socket readable, `read` one `read` of `reader.drain()`,
`pop` one pop of the queue the drain is at, `check` one `is_empty` of `rewake_if_pending`. -/
inductive WakeAction (ι ρ κ χ : Type*)
  | push (t : Option ι) (item : Push ρ κ χ)
  | swap (t : Option ι)
  | stamp (t : Option ι) (now : ℕ)
  | write (t : Option ι)
  | start
  | read
  | storeIdle
  | storeNotified
  | pop
  | check
  | finish

namespace WakeState

/-- A worker that has just started: nothing queued, nobody pushing, no drain running. -/
def new (pair : WakePair) (limit : ℤ) : WakeState ι ρ κ χ where
  wq := WorkerQueue.new { pair with unread := 0 } limit
  pc := fun _ => .idle
  drain := .idle

/-- The worker's own thread pushes from a callback the drain runs, or while no drain runs; a
producer's thread pushes at any time. -/
def MayPush (s : WakeState ι ρ κ χ) : Option ι → Prop
  | some _ => True
  | none => s.drain = .idle ∨ s.drain = .poppingWakeups ∨ s.drain = .poppingCancels ∨
      s.drain = .popping

instance (s : WakeState ι ρ κ χ) : (t : Option ι) → Decidable (s.MayPush t)
  | some _ => inferInstanceAs (Decidable True)
  | none => inferInstanceAs (Decidable (_ ∨ _ ∨ _ ∨ _))

/-- One pop of the drain callback. -/
def popStep (s : WakeState ι ρ κ χ) : Option (WakeState ι ρ κ χ) :=
  match s.drain with
  | .poppingWakeups =>
    match s.wq.wakeups with
    | [] => some { s with drain := .poppingCancels }
    | _ :: rest => some { s with wq := { s.wq with wakeups := rest } }
  | .poppingCancels =>
    match s.wq.cancels with
    | [] => some { s with drain := .popping }
    | _ :: rest => some { s with wq := { s.wq with cancels := rest } }
  | .popping =>
    match s.wq.queue with
    | [] => some { s with drain := .checkingQueue }
    | _ :: rest => some { s with wq := { s.wq with queue := rest } }
  | _ => none

variable [DecidableEq ι]

/-- Move one thread. -/
def setPc (s : WakeState ι ρ κ χ) (t : Option ι) (pc : WakePc) : WakeState ι ρ κ χ :=
  { s with pc := Function.update s.pc t pc }

/-- One `is_empty` of `rewake_if_pending`.  The disjunction stops at the first queue that holds
something, and the worker's own thread then runs `wake`. -/
def checkStep (s : WakeState ι ρ κ χ) : Option (WakeState ι ρ κ χ) :=
  match s.drain with
  | .checkingQueue =>
    if s.wq.queue.isEmpty then some { s with drain := .checkingWakeups }
    else some ({ s with drain := .rewaking }.setPc none .pushed)
  | .checkingWakeups =>
    if s.wq.wakeups.isEmpty then some { s with drain := .checkingCancels }
    else some ({ s with drain := .rewaking }.setPc none .pushed)
  | .checkingCancels =>
    if s.wq.cancels.isEmpty then some { s with drain := .idle }
    else some ({ s with drain := .rewaking }.setPc none .pushed)
  | _ => none

/-- The step function of the protocol. -/
def step (s : WakeState ι ρ κ χ) : WakeAction ι ρ κ χ → Option (WakeState ι ρ κ χ)
  | .push t item =>
    if s.pc t = .idle ∧ s.MayPush t then
      some ({ s with wq := s.wq.append item }.setPc t .pushed) else none
  | .swap t =>
    if s.pc t = .pushed then
      some ({ s with wq := { s.wq with notified := true } }.setPc t
        (if s.wq.notified then .idle else .flipped)) else none
  | .stamp t now =>
    if s.pc t = .flipped then
      some ({ s with wq := { s.wq with notifiedAt := some now } }.setPc t .stamped) else none
  | .write t =>
    if s.pc t = .stamped then
      some ({ s with wq := { s.wq with pair := s.wq.pair.wake } }.setPc t .idle) else none
  | .start =>
    if s.drain = .idle ∧ s.pc none = .idle ∧ 0 < s.wq.pair.unread then
      some { s with drain := .reading } else none
  | .read =>
    if s.drain = .reading then
      some { s with
        wq := { s.wq with pair := s.wq.pair.read }
        drain := if s.wq.pair.readSize < WakePair.drainBuffer then .emptied else .reading }
    else none
  | .storeIdle =>
    if s.drain = .emptied then
      some { s with wq := { s.wq with notifiedAt := none }, drain := .idleStored } else none
  | .storeNotified =>
    if s.drain = .idleStored then
      some { s with wq := { s.wq with notified := false }, drain := .poppingWakeups } else none
  | .pop => if s.pc none = .idle then s.popStep else none
  | .check => if s.pc none = .idle then s.checkStep else none
  | .finish =>
    if s.drain = .rewaking ∧ s.pc none = .idle then some { s with drain := .idle } else none

/-! ## The token -/

/-- The thread flipped `notified` and has not yet written its byte. -/
def Won (s : WakeState ι ρ κ χ) (t : Option ι) : Prop := s.pc t = .flipped ∨ s.pc t = .stamped

/-- A wake is on its way: a byte is unread, or some thread is between its push and its write. -/
def Waking (s : WakeState ι ρ κ χ) : Prop := 0 < s.wq.pair.unread ∨ ∃ t, s.pc t ≠ .idle

end WakeState

/-- The drain has read the byte and has not yet cleared `notified`. -/
def DrainPc.Clearing : DrainPc → Prop
  | .emptied | .idleStored => True
  | _ => False

/-- The drain still pops this queue before it may return. -/
def DrainPc.WillPop : DrainPc → QueueKind → Prop
  | .reading, _ | .emptied, _ | .idleStored, _ | .poppingWakeups, _ => True
  | .poppingCancels, .cancel | .poppingCancels, .request | .popping, .request => True
  | _, _ => False

/-- Where the wake token is: nowhere while `notified` is false, with the thread that flipped the
flag, in the socket as the unread byte, or with the drain that has read the byte. -/
inductive WakeToken (ι : Type*)
  | absent
  | held (t : Option ι)
  | socket
  | drained

/-- Unread bytes while the token is at a place. -/
def WakeToken.bytes : WakeToken ι → ℕ
  | .socket => 1
  | _ => 0

/-- The token is at `token`, and what the flag, the socket, the threads and the drain show agrees
with that: the flag is set while the token exists, one byte is unread while it is in the socket,
exactly the thread that holds it has won the swap, and the drain that reads the socket finds it
there and keeps it until the flag is cleared. -/
structure Located (s : WakeState ι ρ κ χ) (token : WakeToken ι) : Prop where
  notified : s.wq.notified = true ↔ token ≠ .absent
  unread : s.wq.pair.unread = token.bytes
  won : ∀ t, s.Won t ↔ token = .held t
  reading : s.drain = .reading → token = .socket
  clearing : s.drain.Clearing ↔ token = .drained

/-- The invariant of the protocol: the token is somewhere, and what is queued is going to be popped
by the running drain or has a wake on its way. -/
structure WakeInv (s : WakeState ι ρ κ χ) : Prop where
  located : ∃ token, Located s token
  covered : ∀ kind, s.wq.Holds kind → s.drain.WillPop kind ∨ s.Waking

/-! ## What each step does to the token -/

section Steps

variable [DecidableEq ι] {s s' : WakeState ι ρ κ χ}

/-- Moving a thread leaves the queue alone. -/
@[simp] lemma setPc_wq (s : WakeState ι ρ κ χ) (t : Option ι) (pc : WakePc) :
    (s.setPc t pc).wq = s.wq := rfl

/-- Moving a thread leaves the drain alone. -/
@[simp] lemma setPc_drain (s : WakeState ι ρ κ χ) (t : Option ι) (pc : WakePc) :
    (s.setPc t pc).drain = s.drain := rfl

/-- Who has won the swap after one thread moved. -/
lemma won_setPc (s : WakeState ι ρ κ χ) (t u : Option ι) (pc : WakePc) :
    (s.setPc t pc).Won u ↔ if u = t then pc = .flipped ∨ pc = .stamped else s.Won u := by
  unfold WakeState.Won WakeState.setPc
  by_cases h : u = t <;> simp [h]

/-- A thread that moves to a place other than idle has a wake on its way. -/
lemma waking_setPc (s : WakeState ι ρ κ χ) (t : Option ι) {pc : WakePc} (h : pc ≠ .idle) :
    (s.setPc t pc).Waking :=
  Or.inr ⟨t, by simpa [WakeState.setPc] using h⟩

omit [DecidableEq ι] in
/-- While the flag is set and the drain is not clearing it, a wake is on its way. -/
lemma Located.waking {token : WakeToken ι} (h : Located s token) (hn : s.wq.notified = true)
    (hc : ¬ s.drain.Clearing) : s.Waking := by
  cases token with
  | absent => exact absurd rfl (h.notified.mp hn)
  | held t =>
    refine Or.inr ⟨t, fun hidle => ?_⟩
    have hwon := (h.won t).mpr rfl
    simp [WakeState.Won, hidle] at hwon
  | socket => exact Or.inl (by simp [h.unread, WakeToken.bytes])
  | drained => exact absurd (h.clearing.mpr rfl) hc

/-- A drain that is still clearing the flag pops every queue afterwards. -/
lemma DrainPc.Clearing.willPop {drain : DrainPc} (h : drain.Clearing) (kind : QueueKind) :
    drain.WillPop kind := by
  cases drain <;> simp_all [DrainPc.Clearing, DrainPc.WillPop]

/-- A push puts its thread between the push and the swap. -/
lemma wakeInv_push (h : WakeInv s) {t : Option ι} {item : Push ρ κ χ}
    (hs : s.step (.push t item) = some s') : WakeInv s' := by
  obtain ⟨⟨hidle, -⟩, rfl⟩ := of_guard hs
  obtain ⟨token, hl⟩ := h.located
  have hwon : ¬ s.Won t := by simp [WakeState.Won, hidle]
  refine ⟨⟨token, ?_, ?_, fun u => ?_, hl.reading, hl.clearing⟩, fun _ _ => ?_⟩
  · cases item <;> exact hl.notified
  · cases item <;> exact hl.unread
  · rw [won_setPc, ← hl.won u]
    by_cases hu : u = t
    · simp [hu, hwon]
    · rw [if_neg hu]
      rfl
  · exact Or.inr (waking_setPc _ t (by simp))

/-- The swap of a thread that finds the flag clear hands it the token; one that finds it set learns
that the token is somewhere else. -/
lemma wakeInv_swap (h : WakeInv s) {t : Option ι} (hs : s.step (.swap t) = some s') :
    WakeInv s' := by
  obtain ⟨hpushed, rfl⟩ := of_guard hs
  obtain ⟨token, hl⟩ := h.located
  have hwon : ¬ s.Won t := by simp [WakeState.Won, hpushed]
  by_cases hn : s.wq.notified = true
  · rw [if_pos hn]
    have hl' : Located ({ s with wq := { s.wq with notified := true } }.setPc t .idle) token := by
      refine ⟨by simpa [hn] using hl.notified, hl.unread, fun u => ?_, hl.reading,
        hl.clearing⟩
      rw [won_setPc, ← hl.won u]
      by_cases hu : u = t
      · simp [hu, hwon]
      · rw [if_neg hu]
        rfl
    refine ⟨⟨token, hl'⟩, fun kind _ => ?_⟩
    by_cases hc : s.drain.Clearing
    · exact Or.inl (hc.willPop kind)
    · exact Or.inr (hl'.waking rfl hc)
  · have htoken : token = .absent := by
      by_contra hne
      exact hn (hl.notified.mpr hne)
    subst htoken
    rw [if_neg hn]
    refine ⟨⟨.held t, by simp, hl.unread, fun u => ?_,
      fun hr => absurd (hl.reading hr) (by simp), ?_⟩, fun _ _ => Or.inr (waking_setPc _ t (by simp))⟩
    · rw [won_setPc]
      by_cases hu : u = t
      · simp [hu]
      · rw [if_neg hu]
        have := hl.won u
        simp only [reduceCtorEq, iff_false] at this
        exact iff_of_false this (by simpa using fun hut => hu hut.symm)
    · simpa using hl.clearing

/-- Storing `notified_at` leaves the token with its thread. -/
lemma wakeInv_stamp (h : WakeInv s) {t : Option ι} {now : ℕ}
    (hs : s.step (.stamp t now) = some s') : WakeInv s' := by
  obtain ⟨hflipped, rfl⟩ := of_guard hs
  obtain ⟨token, hl⟩ := h.located
  refine ⟨⟨token, hl.notified, hl.unread, fun u => ?_, hl.reading, hl.clearing⟩,
    fun _ _ => Or.inr (waking_setPc _ t (by simp))⟩
  rw [won_setPc, ← hl.won u]
  by_cases hu : u = t
  · simp [hu, WakeState.Won, hflipped]
  · rw [if_neg hu]
    rfl

/-- The write moves the token from its thread into the socket. -/
lemma wakeInv_write (h : WakeInv s) {t : Option ι} (hs : s.step (.write t) = some s') :
    WakeInv s' := by
  obtain ⟨hstamped, rfl⟩ := of_guard hs
  obtain ⟨token, hl⟩ := h.located
  have htoken : token = .held t := (hl.won t).mp (Or.inr hstamped)
  subst htoken
  have hunread : s.wq.pair.wake.unread = 1 := WakePair.wake_unread_of_eq_zero hl.unread
  refine ⟨⟨.socket, by simpa using hl.notified, hunread, fun u => ?_,
    fun _ => rfl, by simpa using hl.clearing⟩, fun _ _ => Or.inr (Or.inl ?_)⟩
  · rw [won_setPc]
    by_cases hu : u = t
    · simp [hu]
    · rw [if_neg hu]
      exact iff_of_false (fun hw => hu (by simpa using ((hl.won u).mp hw).symm)) (by simp)
  · simp [hunread]

/-- The drain starts with the token in the socket. -/
lemma wakeInv_start (h : WakeInv s) (hs : s.step .start = some s') : WakeInv s' := by
  obtain ⟨⟨hdrain, -, hunread⟩, rfl⟩ := of_guard hs
  obtain ⟨token, hl⟩ := h.located
  have htoken : token = .socket := by
    have hu := hl.unread
    cases token <;> simp_all [WakeToken.bytes]
  subst htoken
  exact ⟨⟨.socket, hl.notified, hl.unread, hl.won, fun _ => rfl, by simp [DrainPc.Clearing]⟩,
    fun _ _ => Or.inl trivial⟩

/-- Reading takes the token out of the socket; there is one byte, so the first read comes back
short. -/
lemma wakeInv_read (h : WakeInv s) (hs : s.step .read = some s') : WakeInv s' := by
  obtain ⟨hdrain, rfl⟩ := of_guard hs
  obtain ⟨token, hl⟩ := h.located
  have htoken := hl.reading hdrain
  subst htoken
  have hone : s.wq.pair.unread = 1 := hl.unread
  have hsize : s.wq.pair.readSize = 1 := by simp [WakePair.readSize, hone, WakePair.drainBuffer]
  have hshort : s.wq.pair.readSize < WakePair.drainBuffer := by simp [hsize, WakePair.drainBuffer]
  rw [if_pos hshort]
  refine ⟨⟨.drained, by simpa using hl.notified, ?_, fun t => ?_, by simp, by
    simp [DrainPc.Clearing]⟩, fun _ _ => Or.inl trivial⟩
  · simp [WakePair.read, hone, hsize, WakeToken.bytes]
  · exact iff_of_false (fun hw => by simpa using (hl.won t).mp hw) (by simp)

/-- Storing `IDLE` leaves the token with the drain. -/
lemma wakeInv_storeIdle (h : WakeInv s) (hs : s.step .storeIdle = some s') : WakeInv s' := by
  obtain ⟨hdrain, rfl⟩ := of_guard hs
  obtain ⟨token, hl⟩ := h.located
  have htoken : token = .drained := hl.clearing.mp (by simp [hdrain, DrainPc.Clearing])
  exact ⟨⟨token, hl.notified, hl.unread, hl.won, by simp, by simp [DrainPc.Clearing, htoken]⟩,
    fun _ _ => Or.inl trivial⟩

/-- Clearing the flag ends the token, and from here on the drain pops all three queues. -/
lemma wakeInv_storeNotified (h : WakeInv s) (hs : s.step .storeNotified = some s') :
    WakeInv s' := by
  obtain ⟨hdrain, rfl⟩ := of_guard hs
  obtain ⟨token, hl⟩ := h.located
  have htoken : token = .drained := hl.clearing.mp (by simp [hdrain, DrainPc.Clearing])
  subst htoken
  refine ⟨⟨.absent, by simp, hl.unread, fun t => ?_, by simp, by simp [DrainPc.Clearing]⟩,
    fun _ _ => Or.inl trivial⟩
  exact iff_of_false (fun hw => by simpa using (hl.won t).mp hw) (by simp)

omit [DecidableEq ι] in
/-- A step that changes neither flag nor socket nor threads leaves the token where it is, if the
drain is outside its clearing phase before and after. -/
lemma Located.of_eq {token : WakeToken ι} (h : Located s token)
    (hnotified : s'.wq.notified = s.wq.notified) (hpair : s'.wq.pair = s.wq.pair)
    (hpc : ∀ t, s'.Won t ↔ s.Won t) (hc : ¬ s.drain.Clearing) (hr' : s'.drain ≠ .reading)
    (hc' : ¬ s'.drain.Clearing) : Located s' token where
  notified := hnotified ▸ h.notified
  unread := hpair ▸ h.unread
  won t := (hpc t).trans (h.won t)
  reading hr := absurd hr hr'
  clearing := iff_of_false hc' fun ht => hc (h.clearing.mpr ht)

omit [DecidableEq ι] in
/-- A step of the drain between clearing the flag and returning that changes neither flag nor
socket nor threads keeps the invariant, if every queue that holds something is still to be popped
or was already covered by a wake. -/
lemma WakeInv.of_eq (h : WakeInv s) (hnotified : s'.wq.notified = s.wq.notified)
    (hpair : s'.wq.pair = s.wq.pair) (hpc : s'.pc = s.pc) (hc : ¬ s.drain.Clearing)
    (hr' : s'.drain ≠ .reading) (hc' : ¬ s'.drain.Clearing)
    (hcovered : ∀ kind, s'.wq.Holds kind → s'.drain.WillPop kind ∨ s.Waking) : WakeInv s' := by
  obtain ⟨token, hl⟩ := h.located
  have hwaking : s.Waking → s'.Waking := by
    rw [WakeState.Waking, WakeState.Waking, hpair, hpc]
    exact id
  refine ⟨⟨token, hl.of_eq hnotified hpair (fun t => ?_) hc hr' hc'⟩,
    fun kind hk => (hcovered kind hk).imp_right hwaking⟩
  rw [WakeState.Won, WakeState.Won, hpc]

/-- A pop takes an item away or moves the drain past a queue it has seen empty. -/
lemma wakeInv_pop (h : WakeInv s) (hs : s.step .pop = some s') : WakeInv s' := by
  obtain ⟨-, hpop⟩ := Option.ite_none_right_eq_some.mp hs
  unfold WakeState.popStep at hpop
  split at hpop
  case h_1 hdrain =>
    have hc : ¬ s.drain.Clearing := by simp [hdrain, DrainPc.Clearing]
    split at hpop <;> cases hpop
    case h_1 hempty =>
      refine h.of_eq rfl rfl rfl hc (by simp) (by simp [DrainPc.Clearing]) fun kind hk => ?_
      cases kind with
      | wakeup => exact absurd hempty hk
      | cancel => exact Or.inl trivial
      | request => exact Or.inl trivial
    case h_2 =>
      exact h.of_eq rfl rfl rfl hc (by simp [hdrain]) hc fun kind _ =>
        Or.inl (by simp [hdrain, DrainPc.WillPop])
  case h_2 hdrain =>
    have hc : ¬ s.drain.Clearing := by simp [hdrain, DrainPc.Clearing]
    have hwakeup : s.wq.Holds .wakeup → s.Waking := fun hk =>
      (h.covered .wakeup hk).resolve_left (by simp [hdrain, DrainPc.WillPop])
    split at hpop <;> cases hpop
    case h_1 hempty =>
      refine h.of_eq rfl rfl rfl hc (by simp) (by simp [DrainPc.Clearing]) fun kind hk => ?_
      cases kind with
      | wakeup => exact Or.inr (hwakeup hk)
      | cancel => exact absurd hempty hk
      | request => exact Or.inl trivial
    case h_2 =>
      refine h.of_eq rfl rfl rfl hc (by simp [hdrain]) hc fun kind hk => ?_
      cases kind with
      | wakeup => exact Or.inr (hwakeup hk)
      | cancel => exact Or.inl (by simp [hdrain, DrainPc.WillPop])
      | request => exact Or.inl (by simp [hdrain, DrainPc.WillPop])
  case h_3 hdrain =>
    have hc : ¬ s.drain.Clearing := by simp [hdrain, DrainPc.Clearing]
    have hother : ∀ kind, kind ≠ .request → s.wq.Holds kind → s.Waking := by
      intro kind hkind hk
      refine (h.covered kind hk).resolve_left ?_
      cases kind <;> simp_all [DrainPc.WillPop]
    split at hpop <;> cases hpop
    case h_1 hempty =>
      refine h.of_eq rfl rfl rfl hc (by simp) (by simp [DrainPc.Clearing]) fun kind hk => ?_
      cases kind with
      | wakeup => exact Or.inr (hother .wakeup (by simp) hk)
      | cancel => exact Or.inr (hother .cancel (by simp) hk)
      | request => exact absurd hempty hk
    case h_2 =>
      refine h.of_eq rfl rfl rfl hc (by simp [hdrain]) hc fun kind hk => ?_
      cases kind with
      | wakeup => exact Or.inr (hother .wakeup (by simp) hk)
      | cancel => exact Or.inr (hother .cancel (by simp) hk)
      | request => exact Or.inl (by simp [hdrain, DrainPc.WillPop])
  case h_4 => cases hpop

omit [DecidableEq ι] in
/-- Past the three loops the drain relies on the wakes of the producers alone, and moving on within
`rewake_if_pending` keeps that. -/
lemma WakeInv.move {drain : DrainPc} (h : WakeInv s) (hold : ∀ kind, ¬ s.drain.WillPop kind)
    (hr : drain ≠ .reading) (hc : ¬ drain.Clearing) : WakeInv { s with drain := drain } :=
  h.of_eq rfl rfl rfl (fun hclear => hold .request (hclear.willPop .request)) hr hc
    fun kind hk => Or.inr ((h.covered kind hk).resolve_left (hold kind))

/-- The worker's own thread enters the `wake` of `rewake_if_pending`. -/
lemma WakeInv.rewake (h : WakeInv s) (hold : ∀ kind, ¬ s.drain.WillPop kind)
    (hidle : s.pc none = .idle) : WakeInv ({ s with drain := .rewaking }.setPc none .pushed) := by
  obtain ⟨token, hl⟩ := h.located
  have hcs : ¬ s.drain.Clearing := fun hclear => hold .request (hclear.willPop .request)
  refine ⟨⟨token, hl.of_eq rfl rfl (fun t => ?_) hcs (by simp) (by simp [DrainPc.Clearing])⟩,
    fun _ _ => Or.inr (waking_setPc _ none (by simp))⟩
  rw [won_setPc]
  by_cases ht : t = none
  · simp [ht, WakeState.Won, hidle]
  · rw [if_neg ht]
    rfl

/-- Each `is_empty` of `rewake_if_pending` moves the drain on or sends it into `wake`. -/
lemma wakeInv_check (h : WakeInv s) (hs : s.step .check = some s') : WakeInv s' := by
  obtain ⟨hidle, hcheck⟩ := Option.ite_none_right_eq_some.mp hs
  unfold WakeState.checkStep at hcheck
  split at hcheck
  case h_4 => cases hcheck
  all_goals
    rename_i hdrain
    have hold : ∀ kind, ¬ s.drain.WillPop kind := by simp [hdrain, DrainPc.WillPop]
    split at hcheck <;> cases hcheck
    · exact h.move hold (by simp) (by simp [DrainPc.Clearing])
    · exact h.rewake hold hidle

/-- The callback returns from its own `wake`. -/
lemma wakeInv_finish (h : WakeInv s) (hs : s.step .finish = some s') : WakeInv s' := by
  obtain ⟨⟨hdrain, -⟩, rfl⟩ := of_guard hs
  exact h.move (by simp [hdrain, DrainPc.WillPop]) (by simp) (by simp [DrainPc.Clearing])

/-- Every step keeps the invariant. -/
lemma wakeInv_step (a : WakeAction ι ρ κ χ) (h : WakeInv s) (hs : s.step a = some s') :
    WakeInv s' := by
  cases a with
  | push t item => exact wakeInv_push h hs
  | swap t => exact wakeInv_swap h hs
  | stamp t now => exact wakeInv_stamp h hs
  | write t => exact wakeInv_write h hs
  | start => exact wakeInv_start h hs
  | read => exact wakeInv_read h hs
  | storeIdle => exact wakeInv_storeIdle h hs
  | storeNotified => exact wakeInv_storeNotified h hs
  | pop => exact wakeInv_pop h hs
  | check => exact wakeInv_check h hs
  | finish => exact wakeInv_finish h hs

end Steps

/-! ## No wakeup is lost -/

/-- A worker that has just started satisfies the invariant: there is no token. -/
lemma wakeInv_new (pair : WakePair) (limit : ℤ) :
    WakeInv (WakeState.new pair limit : WakeState ι ρ κ χ) where
  located := ⟨.absent, by simp [WakeState.new, WorkerQueue.new], rfl,
    by simp [WakeState.new, WakeState.Won], by simp [WakeState.new],
    by simp [WakeState.new, DrainPc.Clearing]⟩
  covered kind := by cases kind <;> simp [WakeState.new, WorkerQueue.new, WorkerQueue.Holds]

/-- The unread bytes and the threads that are about to write one number at most one: they are all
the token. -/
lemma Located.unread_add_winners_le {s : WakeState ι ρ κ χ} {token : WakeToken ι}
    (h : Located s token) : (s.wq.pair.unread : ℕ∞) + {t | s.Won t}.encard ≤ 1 := by
  have hwinners : {t | s.Won t} = {t | token = .held t} := Set.ext h.won
  rw [h.unread, hwinners]
  cases token with
  | held t => simp [WakeToken.bytes]
  | absent => simp [WakeToken.bytes]
  | socket => simp [WakeToken.bytes]
  | drained => simp [WakeToken.bytes]

variable [DecidableEq ι]

/-- **No wakeup is lost.**  For any number of producers, any pushes and any interleaving: while no
drain callback runs, a queue that holds something has a wake byte unread or some thread between its
push and its byte write; and the unread bytes together with the threads that won the swap and have
not yet written number at most one, so the socket buffer cannot fill. -/
theorem wake_not_lost (pair : WakePair) (limit : ℤ) {s : WakeState ι ρ κ χ}
    (h : Reachable WakeState.step (WakeState.new pair limit) s) :
    (s.drain = .idle → s.wq.queue ≠ [] ∨ s.wq.wakeups ≠ [] ∨ s.wq.cancels ≠ [] →
      0 < s.wq.pair.unread ∨ ∃ t, s.pc t ≠ .idle) ∧
    (s.wq.pair.unread : ℕ∞) + {t | s.pc t = .flipped ∨ s.pc t = .stamped}.encard ≤ 1 := by
  have hinv : WakeInv s :=
    h.invariant (wakeInv_new pair limit) fun _ a _ hI taken => wakeInv_step a hI taken
  obtain ⟨token, hl⟩ := hinv.located
  refine ⟨fun hidle hpending => ?_, hl.unread_add_winners_le⟩
  have hnot : ∀ kind, ¬ s.drain.WillPop kind := by simp [hidle, DrainPc.WillPop]
  rcases hpending with hq | hw | hc
  · exact (hinv.covered .request hq).resolve_left (hnot _)
  · exact (hinv.covered .wakeup hw).resolve_left (hnot _)
  · exact (hinv.covered .cancel hc).resolve_left (hnot _)

/-- Two producers push, one of them wins the swap and writes; a byte is unread for both items. -/
theorem wake_not_lost_two_producers :
    ∃ s : WakeState (Fin 2) ℕ Unit Unit,
      Reachable WakeState.step (WakeState.new ⟨0, 1, Nat.one_pos⟩ 8) s ∧
        s.drain = .idle ∧ s.wq.queue = [7, 9] ∧
        (0 < s.wq.pair.unread ∨ ∃ t, s.pc t ≠ .idle) := by
  have run : Reachable WakeState.step (WakeState.new ⟨0, 1, Nat.one_pos⟩ 8)
      (_ : WakeState (Fin 2) ℕ Unit Unit) :=
    Reachable.of_exec [.push (some 0) (.request 7), .push (some 1) (.request 9),
      .swap (some 1), .swap (some 0), .stamp (some 1) 3, .write (some 1)] rfl
  exact ⟨_, run, rfl, rfl, (wake_not_lost _ _ run).1 rfl (Or.inl (List.cons_ne_nil 7 [9]))⟩

end Oxbrook
