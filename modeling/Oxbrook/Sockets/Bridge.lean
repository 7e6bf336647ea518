import Mathlib.Data.List.ReduceOption
import Oxbrook.Foundation.Runs

/-!
# The receiving side of a WebSocket

`Shared` in `src/websocket.rs` bridges the tokio task that owns a socket and the handler on a worker's
loop.  The task pushes each frame onto `incoming` and then takes and schedules the callback in the single
`waiter` slot; `mark_closed` stores the flag, does the same, and then takes and schedules all of
`close_waiters`.  `WebSocket.receive` pops a frame if there is one, and otherwise installs a callback that
resolves a new future, checks once more, and waits for the future.

Every lock section and every access of the flag is a step.  One reader at a time calls `receive`, and each
call may be cancelled while it waits, which leaves its callback in the slot.  `on_close` may be called any
number of times, and calls `mark_closed` itself when the socket closed under it.  The worker's loop runs
what was scheduled at any later time.  The handler may run before the queue of its worker is bound to the
socket; the socket's task is only spawned after.
-/

namespace Oxbrook

open StepMachine

variable {κ : Type*}

/-! ## The shared state -/

/-- What a peer sends to a handler: `str` or `bytes` in Python. -/
inductive SocketMessage
  | text (s : String)
  | binary (bytes : List UInt8)
  deriving DecidableEq

/-- `Frame`. -/
inductive SocketFrame
  | message (m : SocketMessage)
  | close (status : Option (ℕ × String))
  deriving DecidableEq

/-- A callback: the one of the `receive` that waits for a future, or one given to `on_close`. -/
inductive SocketCallback (κ : Type*)
  | resolve (future : ℕ)
  | close (k : κ)
  deriving DecidableEq

/-- The socket's task: between two frames, between the push of a frame and the take of `wake`, with the
callback it took in hand, or in `mark_closed`. -/
inductive TaskPc
  | idle
  | waking
  | scheduling (future : ℕ)
  | closing
  deriving DecidableEq

/-- A call of `mark_closed`. -/
inductive MarkPc (κ : Type*)
  | absent
  | storing
  | waking
  | scheduling (future : ℕ)
  | taking
  | handing (rest : List κ)
  | over
  deriving DecidableEq

/-- A call of `receive`. -/
inductive ReceivePc
  | idle
  -- `try_receive`
  | checking
  -- the getter `closed`: its load, then its look at the queue
  | asking
  | confirming
  -- `notify`: the install, the look at the queue, the load, the take, the call of the loop
  | installing
  | looking (future : ℕ)
  | loading (future : ℕ)
  | taking (future : ℕ)
  | calling (future taken : ℕ)
  | awaiting (future : ℕ)
  deriving DecidableEq

/-- A call of `on_close`. -/
inductive OnClosePc
  | idle
  | testing
  -- found the socket closed: the callback goes to the loop
  | direct
  | pushing
  | rechecking
  | marking
  | done
  deriving DecidableEq

/-- A socket, its handler and its worker's loop.  `marks none` is the task's call of `mark_closed`,
`marks (some k)` the one made by the `on_close` that registers `k`. -/
structure Bridge (κ : Type*) where
  incoming : List SocketFrame
  waiter : Option ℕ
  closeWaiters : List κ
  closed : Bool
  -- the worker's queue is known
  bound : Bool
  -- callbacks in the worker's queue, and given to `call_soon_threadsafe`
  wakeups : List (SocketCallback κ)
  soon : List (SocketCallback κ)
  task : TaskPc
  marks : Option κ → MarkPc κ
  reader : ReceivePc
  next : ℕ
  -- the future of the current call is done
  resolved : Bool
  calls : κ → OnClosePc
  -- what the peer sent, what the calls of `receive` returned, how often each callback ran
  delivered : List SocketMessage
  returned : List (Option SocketMessage)
  ran : κ → ℕ

inductive BridgeAction (κ : Type*)
  | bind
  | frame (m : SocketMessage)
  | close
  | task
  | mark (j : Option κ)
  | receive
  | read
  | cancel
  | onClose (k : κ)
  | register (k : κ)
  | runWakeup
  | runSoon

/-- The future a call of `receive` will wait for or waits for. -/
def ReceivePc.future : ReceivePc → Option ℕ
  | .looking f | .loading f | .taking f | .calling f _ | .awaiting f => some f
  | _ => none

namespace Bridge

/-- A socket handed to a worker. -/
def new : Bridge κ where
  incoming := []
  waiter := none
  closeWaiters := []
  closed := false
  bound := false
  wakeups := []
  soon := []
  task := .idle
  marks _ := .absent
  reader := .idle
  next := 0
  resolved := false
  calls _ := .idle
  delivered := []
  returned := []
  ran _ := 0

/-- `Shared::schedule`. -/
def schedule (s : Bridge κ) (c : SocketCallback κ) : Bridge κ :=
  if s.bound then { s with wakeups := s.wakeups ++ [c] } else s

variable [DecidableEq κ]

/-- Move a call of `mark_closed`. -/
def setMark (s : Bridge κ) (j : Option κ) (pc : MarkPc κ) : Bridge κ :=
  { s with marks := Function.update s.marks j pc }

/-- Move a call of `on_close`. -/
def setCall (s : Bridge κ) (k : κ) (pc : OnClosePc) : Bridge κ :=
  { s with calls := Function.update s.calls k pc }

/-- `Shared::wake` in `deliver`, after the push. -/
def taskStep (s : Bridge κ) : Option (Bridge κ) :=
  match s.task with
  | .waking =>
    match s.waiter with
    | none => some { s with task := .idle }
    | some f => some { s with waiter := none, task := .scheduling f }
  | .scheduling f => some { s.schedule (.resolve f) with task := .idle }
  | .idle | .closing => none

/-- `Shared::mark_closed`. -/
def markStep (s : Bridge κ) (j : Option κ) : Option (Bridge κ) :=
  match s.marks j with
  | .storing => some ({ s with closed := true }.setMark j .waking)
  | .waking =>
    match s.waiter with
    | none => some (s.setMark j .taking)
    | some f => some ({ s with waiter := none }.setMark j (.scheduling f))
  | .scheduling f => some ((s.schedule (.resolve f)).setMark j .taking)
  | .taking => some ({ s with closeWaiters := [] }.setMark j (.handing s.closeWaiters))
  | .handing (k :: rest) => some ((s.schedule (.close k)).setMark j (.handing rest))
  | .handing [] => some (s.setMark j .over)
  | .absent | .over => none

/-- `WebSocket.receive`, with `try_receive`, `closed` and `notify` of the bridge. -/
def readStep (s : Bridge κ) : Option (Bridge κ) :=
  match s.reader with
  | .idle => none
  | .checking =>
    match s.incoming with
    | [] => some { s with reader := .asking }
    | .message m :: rest =>
      some { s with incoming := rest, returned := s.returned ++ [some m], reader := .idle }
    | .close _ :: rest => some { s with incoming := rest, reader := .asking }
  | .asking => some { s with reader := if s.closed then .confirming else .installing }
  | .confirming =>
    if s.incoming = [] then some { s with returned := s.returned ++ [none], reader := .idle }
    else some { s with reader := .installing }
  | .installing =>
    -- `create_future` and the install
    some { s with waiter := some s.next, reader := .looking s.next, next := s.next + 1,
                  resolved := false }
  | .looking f => some { s with reader := if s.incoming = [] then .loading f else .taking f }
  | .loading f => some { s with reader := if s.closed then .taking f else .awaiting f }
  | .taking f =>
    match s.waiter with
    | none => some { s with reader := .awaiting f }
    | some g => some { s with waiter := none, reader := .calling f g }
  | .calling f g => some { s with soon := s.soon ++ [.resolve g], reader := .awaiting f }
  | .awaiting _ => if s.resolved then some { s with reader := .checking } else none

/-- `WebSocket::on_close`. -/
def registerStep (s : Bridge κ) (k : κ) : Option (Bridge κ) :=
  match s.calls k with
  | .testing => some (s.setCall k (if s.closed then .direct else .pushing))
  | .direct => some (setCall { s with soon := s.soon ++ [.close k] } k .done)
  | .pushing => some ({ s with closeWaiters := s.closeWaiters ++ [k] }.setCall k .rechecking)
  | .rechecking =>
    if s.closed then some ((s.setMark (some k) .storing).setCall k .marking)
    else some (s.setCall k .done)
  | .idle | .marking | .done => none

/-- The loop runs a callback.  Resolving a future that is not the current one does nothing: the call that
made it was cancelled or has gone on. -/
def run (s : Bridge κ) : SocketCallback κ → Bridge κ
  | .resolve f => { s with resolved := s.resolved || decide (s.reader.future = some f) }
  | .close k => { s with ran := Function.update s.ran k (s.ran k + 1) }

/-- The step function. -/
def step (s : Bridge κ) : BridgeAction κ → Option (Bridge κ)
  | .bind => if s.bound = false then some { s with bound := true } else none
  | .frame m =>
    if s.bound = true ∧ s.task = .idle then
      some { s with incoming := s.incoming ++ [.message m], delivered := s.delivered ++ [m],
                    task := .waking }
    else none
  | .close =>
    if s.bound = true ∧ s.task = .idle then some ({ s with task := .closing }.setMark none .storing)
    else none
  | .task => s.taskStep
  | .mark j => s.markStep j
  | .receive => if s.reader = .idle then some { s with reader := .checking } else none
  | .read => s.readStep
  | .cancel =>
    match s.reader with
    | .awaiting _ => some { s with reader := .idle }
    | _ => none
  | .onClose k => if s.calls k = .idle then some (s.setCall k .testing) else none
  | .register k => s.registerStep k
  | .runWakeup =>
    match s.wakeups with
    | [] => none
    | c :: rest => some ({ s with wakeups := rest }.run c)
  | .runSoon =>
    match s.soon with
    | [] => none
    | c :: rest => some ({ s with soon := rest }.run c)

end Bridge

/-! ## Calls of `mark_closed` -/

/-- The socket is marked closed by the call: it is past the store. -/
def MarkPc.Stored : MarkPc κ → Prop
  | .absent | .storing => False
  | _ => True

/-- The flag, the queue of the worker and the calls of `mark_closed` agree. -/
structure Bridge.Marking (s : Bridge κ) : Prop where
  closing : s.task = .closing ↔ s.marks none ≠ .absent
  stored : s.closed = true ↔ (s.marks none).Stored
  others : ∀ k, s.marks (some k) ≠ .absent → s.closed = true ∧ s.calls k = .marking
  bound : s.bound = false → s.task = .idle

namespace Bridge

theorem marking_new : (new : Bridge κ).Marking := by
  constructor <;> simp [new, MarkPc.Stored]

section Fields

variable (s : Bridge κ) (c : SocketCallback κ)

@[simp] lemma schedule_task : (s.schedule c).task = s.task := by unfold schedule; split <;> rfl
@[simp] lemma schedule_marks : (s.schedule c).marks = s.marks := by unfold schedule; split <;> rfl
@[simp] lemma schedule_closed : (s.schedule c).closed = s.closed := by unfold schedule; split <;> rfl
@[simp] lemma schedule_bound : (s.schedule c).bound = s.bound := by unfold schedule; split <;> rfl
@[simp] lemma schedule_calls : (s.schedule c).calls = s.calls := by unfold schedule; split <;> rfl

lemma schedule_of_bound (h : s.bound = true) :
    s.schedule c = { s with wakeups := s.wakeups ++ [c] } := if_pos h

variable [DecidableEq κ]

@[simp] lemma run_task : (s.run c).task = s.task := by cases c <;> rfl
@[simp] lemma run_marks : (s.run c).marks = s.marks := by cases c <;> rfl
@[simp] lemma run_closed : (s.run c).closed = s.closed := by cases c <;> rfl
@[simp] lemma run_bound : (s.run c).bound = s.bound := by cases c <;> rfl
@[simp] lemma run_calls : (s.run c).calls = s.calls := by cases c <;> rfl

end Fields

variable {s t : Bridge κ}

/-- A step that does not concern `mark_closed`. -/
lemma Marking.congr (h : s.Marking) (marks : t.marks = s.marks) (closed : t.closed = s.closed)
    (task : t.task = .closing ↔ s.task = .closing) (bound : t.bound = false → t.task = .idle)
    (calls : ∀ k, s.calls k = .marking → t.calls k = .marking) : t.Marking where
  closing := by rw [task, marks, h.closing]
  stored := by rw [closed, marks, h.stored]
  others k hk := by
    rw [marks] at hk
    rw [closed]
    exact ⟨(h.others k hk).1, calls k (h.others k hk).2⟩
  bound := bound

/-- Every call past its store finds the flag set. -/
lemma Marking.closed_of_stored (h : s.Marking) {j : Option κ} (stored : (s.marks j).Stored) :
    s.closed = true := by
  cases j with
  | none => exact h.stored.mpr stored
  | some k =>
    refine (h.others k fun habsent => ?_).1
    rw [habsent] at stored
    exact stored

lemma Marking.bound_of_mark (h : s.Marking) {j : Option κ} (present : s.marks j ≠ .absent) :
    s.bound = true := by
  have hclosing : s.task = .closing := by
    cases j with
    | none => exact h.closing.mpr present
    | some k =>
      refine h.closing.mpr fun habsent => ?_
      have hstored := h.stored.mp (h.others k present).1
      rw [habsent] at hstored
      exact hstored
  by_contra hbound
  cases hclosing.symm.trans (h.bound (by simpa using hbound))

/-- What `receive` leaves alone. -/
lemma readStep_frame (taken : s.readStep = some t) :
    t.marks = s.marks ∧ t.closed = s.closed ∧ t.task = s.task ∧ t.bound = s.bound ∧
      t.calls = s.calls := by
  unfold readStep at taken
  grind

variable [DecidableEq κ]

/-- A call of `mark_closed` goes on. -/
lemma Marking.mark (h : s.Marking) (j : Option κ) (pc : MarkPc κ) (present : s.marks j ≠ .absent)
    (stored : pc.Stored) (marks : t.marks = Function.update s.marks j pc) (closed : t.closed = true)
    (task : t.task = s.task) (bound : t.bound = s.bound) (calls : t.calls = s.calls) : t.Marking := by
  have hpc : pc ≠ .absent := by
    rintro rfl
    exact stored
  refine ⟨?_, ?_, fun k hk => ⟨closed, ?_⟩, by rw [bound, task]; exact h.bound⟩
  · rw [task, marks, h.closing]
    cases j with
    | none => simpa [hpc] using present
    | some k => simp
  · rw [closed, marks]
    cases j with
    | none => simpa using stored
    | some k => simpa using h.stored.mp (h.others k present).1
  · rw [calls]
    rw [marks] at hk
    by_cases hj : some k = j
    · exact (h.others k (hj ▸ present)).2
    · rw [Function.update_of_ne hj] at hk
      exact (h.others k hk).2

/-- A call of `on_close` that is not in `mark_closed` moves, and no other. -/
lemma calls_setCall {k : κ} {pc : OnClosePc} (before : s.calls k ≠ .marking) (j : κ)
    (hj : s.calls j = .marking) : (s.setCall k pc).calls j = .marking := by
  have hne : j ≠ k := by
    rintro rfl
    exact before hj
  simpa [setCall, Function.update_of_ne hne] using hj

theorem Marking.step (h : s.Marking) {a : BridgeAction κ} (taken : s.step a = some t) :
    t.Marking := by
  cases a with
  | bind =>
    obtain ⟨-, rfl⟩ := of_guard taken
    exact h.congr rfl rfl Iff.rfl nofun fun _ => id
  | frame m =>
    obtain ⟨⟨hbound, hidle⟩, rfl⟩ := of_guard taken
    exact h.congr rfl rfl (by simp [hidle]) (by simp [hbound]) fun _ => id
  | close =>
    obtain ⟨⟨hbound, hidle⟩, rfl⟩ := of_guard taken
    have habsent : s.marks none = .absent := by simpa [hidle] using h.closing
    have hopen : s.closed = false := by simpa [habsent, MarkPc.Stored] using h.stored
    refine ⟨by simp [setMark], by simp [setMark, MarkPc.Stored, hopen], ?_, by simp [setMark, hbound]⟩
    intro k hk
    exact h.others k (by simpa [setMark] using hk)
  | task =>
    simp only [Bridge.step, taskStep] at taken
    split at taken
    case h_1 htask =>
      split at taken
      all_goals
        cases taken
        exact h.congr rfl rfl (by simp [htask])
          (fun hbound => by cases htask.symm.trans (h.bound hbound)) fun _ => id
    case h_2 f htask =>
      cases taken
      exact h.congr (by simp) (by simp) (by simp [htask]) (fun _ => rfl) fun _ => by simp
    case h_3 => cases taken
    case h_4 => cases taken
  | mark j =>
    simp only [Bridge.step, markStep] at taken
    split at taken
    case h_1 hmark =>
      cases taken
      exact h.mark j .waking (by simp [hmark]) trivial rfl rfl rfl rfl rfl
    case h_2 hmark =>
      have hclosed := h.closed_of_stored (j := j) (by rw [hmark]; trivial)
      split at taken
      · cases taken
        exact h.mark j .taking (by simp [hmark]) trivial rfl hclosed rfl rfl rfl
      case h_2 f _ =>
        cases taken
        exact h.mark j (.scheduling f) (by simp [hmark]) trivial rfl hclosed rfl rfl rfl
    case h_3 f hmark =>
      have hclosed := h.closed_of_stored (j := j) (by rw [hmark]; trivial)
      cases taken
      exact h.mark j .taking (by simp [hmark]) trivial (by simp [setMark])
        (by simpa [setMark] using hclosed) (by simp [setMark]) (by simp [setMark]) (by simp [setMark])
    case h_4 hmark =>
      have hclosed := h.closed_of_stored (j := j) (by rw [hmark]; trivial)
      cases taken
      exact h.mark j (.handing s.closeWaiters) (by simp [hmark]) trivial rfl hclosed rfl rfl rfl
    case h_5 k rest hmark =>
      have hclosed := h.closed_of_stored (j := j) (by rw [hmark]; trivial)
      cases taken
      exact h.mark j (.handing rest) (by simp [hmark]) trivial (by simp [setMark])
        (by simpa [setMark] using hclosed) (by simp [setMark]) (by simp [setMark]) (by simp [setMark])
    case h_6 hmark =>
      have hclosed := h.closed_of_stored (j := j) (by rw [hmark]; trivial)
      cases taken
      exact h.mark j .over (by simp [hmark]) trivial rfl hclosed rfl rfl rfl
    case h_7 => cases taken
    case h_8 => cases taken
  | receive =>
    obtain ⟨-, rfl⟩ := of_guard taken
    exact h.congr rfl rfl Iff.rfl h.bound fun _ => id
  | read =>
    obtain ⟨hmarks, hclosed, htask, hbound, hcalls⟩ := readStep_frame taken
    exact h.congr hmarks hclosed (by rw [htask]) (by rw [hbound, htask]; exact h.bound)
      fun k hk => by rw [hcalls]; exact hk
  | cancel =>
    simp only [Bridge.step] at taken
    split at taken
    · cases taken
      exact h.congr rfl rfl Iff.rfl h.bound fun _ => id
    · cases taken
  | onClose k =>
    obtain ⟨hidle, rfl⟩ := of_guard taken
    exact h.congr rfl rfl Iff.rfl h.bound (calls_setCall (by simp [hidle]))
  | register k =>
    simp only [Bridge.step, registerStep] at taken
    split at taken
    case h_1 hcall =>
      cases taken
      exact h.congr rfl rfl Iff.rfl h.bound (calls_setCall (by simp [hcall]))
    case h_2 hcall =>
      cases taken
      exact h.congr rfl rfl Iff.rfl h.bound (calls_setCall (by simp [hcall]))
    case h_3 hcall =>
      cases taken
      exact h.congr rfl rfl Iff.rfl h.bound (calls_setCall (by simp [hcall]))
    case h_4 hcall =>
      split at taken
      case isTrue hclosed =>
        cases taken
        refine ⟨by simpa [setMark, setCall] using h.closing,
          by simpa [setMark, setCall] using h.stored, fun j hj => ⟨hclosed, ?_⟩, h.bound⟩
        by_cases hjk : j = k
        · simp [setMark, setCall, hjk]
        · have hmark : s.marks (some j) ≠ .absent := by simpa [setMark, setCall, hjk] using hj
          simpa [setMark, setCall, hjk] using (h.others j hmark).2
      case isFalse =>
        cases taken
        exact h.congr rfl rfl Iff.rfl h.bound (calls_setCall (by simp [hcall]))
    case h_5 => cases taken
    case h_6 => cases taken
    case h_7 => cases taken
  | runWakeup =>
    simp only [Bridge.step] at taken
    split at taken
    · cases taken
    · cases taken
      exact h.congr (by simp) (by simp) (by simp) (by simpa using h.bound) fun _ => by simp
  | runSoon =>
    simp only [Bridge.step] at taken
    split at taken
    · cases taken
    · cases taken
      exact h.congr (by simp) (by simp) (by simp) (by simpa using h.bound) fun _ => by simp

end Bridge

/-! ## The reader -/

/-- The callback of a future was taken from the slot and has not run. -/
def Bridge.OnItsWay (s : Bridge κ) (f : ℕ) : Prop :=
  s.task = .scheduling f ∨ (∃ j, s.marks j = .scheduling f) ∨ .resolve f ∈ s.wakeups ∨
    .resolve f ∈ s.soon ∨ s.reader = .calling f f

/-- The invariant of the receiving side.  A call that waits with its callback in the slot waits for a frame
or a close that has not come, or that is on the point of taking the slot. -/
structure Bridge.Receiving (s : Bridge κ) : Prop where
  order : s.delivered.map .message = s.returned.reduceOption.map .message ++ s.incoming
  slot : ∀ f g, s.reader.future = some f → s.waiter = some g → g = f
  called : ∀ f g, s.reader = .calling f g → g = f ∧ s.waiter = none
  kept : ∀ f, s.reader.future = some f → s.resolved = false → s.waiter = some f ∨ s.OnItsWay f
  frames : ∀ f, s.reader = .loading f ∨ s.reader = .awaiting f → s.waiter = some f →
    s.incoming = [] ∨ s.task = .waking
  flag : ∀ f, s.reader = .awaiting f → s.waiter = some f → s.closed = false ∨ s.marks none = .waking
  asked : s.reader = .confirming → s.closed = true
  ended : none ∈ s.returned → s.closed = true ∧ s.incoming = []

namespace Bridge

theorem receiving_new : (new : Bridge κ).Receiving := by
  constructor <;> simp [new, ReceivePc.future]

section Reader

variable {s t : Bridge κ}

/-- A step that does not touch the reader, the queue or the slot. -/
lemma Receiving.congr (h : s.Receiving) (incoming : t.incoming = s.incoming)
    (waiter : t.waiter = s.waiter) (reader : t.reader = s.reader)
    (delivered : t.delivered = s.delivered) (returned : t.returned = s.returned)
    (resolved : t.resolved = false → s.resolved = false)
    (way : ∀ f, s.OnItsWay f → t.resolved = false → t.reader.future = some f → t.OnItsWay f)
    (task : s.task = .waking → t.task = .waking) (closed : t.closed = s.closed)
    (mark : s.marks none = .waking → t.marks none = .waking) : t.Receiving where
  order := by rw [delivered, returned, incoming]; exact h.order
  slot := by rw [reader, waiter]; exact h.slot
  called := by rw [reader, waiter]; exact h.called
  kept f hf hresolved := by
    rw [waiter]
    have hkept := h.kept f (reader ▸ hf) (resolved hresolved)
    exact hkept.imp id fun hway => way f hway hresolved hf
  frames f hf hw := by
    rw [reader] at hf
    rw [waiter] at hw
    rw [incoming]
    exact (h.frames f hf hw).imp id task
  flag f hf hw := by
    rw [reader] at hf
    rw [waiter] at hw
    rw [closed]
    exact (h.flag f hf hw).imp id mark
  asked := by rw [reader, closed]; exact h.asked
  ended := by rw [returned, closed, incoming]; exact h.ended

/-- A waker takes the callback out of the slot, or finds the slot empty. -/
lemma Receiving.take (h : s.Receiving) (waiter : t.waiter = none)
    (incoming : t.incoming = s.incoming) (reader : t.reader = s.reader)
    (delivered : t.delivered = s.delivered) (returned : t.returned = s.returned)
    (resolved : t.resolved = s.resolved) (closed : t.closed = s.closed)
    (taken : ∀ f, s.waiter = some f → t.OnItsWay f) (way : ∀ f, s.OnItsWay f → t.OnItsWay f) :
    t.Receiving where
  order := by rw [delivered, returned, incoming]; exact h.order
  slot := by simp [waiter]
  called f g hf := ⟨(h.called f g (reader ▸ hf)).1, waiter⟩
  kept f hf hresolved := by
    obtain hslot | hway := h.kept f (reader ▸ hf) (resolved ▸ hresolved)
    · exact .inr (taken f hslot)
    · exact .inr (way f hway)
  frames := by simp [waiter]
  flag := by simp [waiter]
  asked := by rw [reader, closed]; exact h.asked
  ended := by rw [returned, closed, incoming]; exact h.ended

/-- The reader moves, and leaves the slot alone. -/
lemma Receiving.move (h : s.Receiving) {pc : ReceivePc} (future : pc.future = s.reader.future)
    (calling : ∀ f g, pc ≠ .calling f g) (calling' : ∀ f g, s.reader ≠ .calling f g)
    (frames : ∀ f, pc = .loading f ∨ pc = .awaiting f → s.waiter = some f →
      s.incoming = [] ∨ s.task = .waking)
    (flag : ∀ f, pc = .awaiting f → s.waiter = some f → s.closed = false ∨ s.marks none = .waking)
    (asked : pc = .confirming → s.closed = true) : Receiving { s with reader := pc } where
  order := h.order
  slot := by
    change ∀ f g, pc.future = some f → s.waiter = some g → g = f
    rw [future]
    exact h.slot
  called f g hf := absurd hf (calling f g)
  kept f hf hresolved := by
    refine (h.kept f (future ▸ hf) hresolved).imp id ?_
    rintro (hway | hway | hway | hway | hway)
    · exact .inl hway
    · exact .inr (.inl hway)
    · exact .inr (.inr (.inl hway))
    · exact .inr (.inr (.inr (.inl hway)))
    · exact absurd hway (calling' f f)
  frames := frames
  flag := flag
  asked := asked
  ended := h.ended

/-- `receive` keeps the invariant. -/
theorem Receiving.readStep (h : s.Receiving) (taken : s.readStep = some t) : t.Receiving := by
  unfold Bridge.readStep at taken
  split at taken
  case h_1 => cases taken
  case h_2 hreader =>
    split at taken
    case h_1 hincoming =>
      cases taken
      exact h.move (by simp [ReceivePc.future, hreader]) nofun (by simp [hreader]) nofun nofun nofun
    case h_2 m rest hincoming =>
      cases taken
      refine ⟨?_, nofun, nofun, nofun, nofun, nofun, nofun, ?_⟩
      · simpa [hincoming, List.reduceOption_append] using h.order
      · intro hnone
        have hended := h.ended (by simpa using hnone)
        simp [hincoming] at hended
    case h_3 status rest hincoming =>
      -- `drive` delivers no such frame
      have horder := h.order
      rw [hincoming] at horder
      have hmem : SocketFrame.close status ∈ s.delivered.map .message := by simp [horder]
      simp at hmem
  case h_3 hreader =>
    by_cases hclosed : s.closed = true
    · rw [if_pos hclosed] at taken
      cases taken
      exact h.move (by simp [ReceivePc.future, hreader]) nofun (by simp [hreader]) nofun nofun
        fun _ => hclosed
    · rw [if_neg hclosed] at taken
      cases taken
      exact h.move (by simp [ReceivePc.future, hreader]) nofun (by simp [hreader]) nofun nofun nofun
  case h_4 hreader =>
    split at taken
    case isTrue hempty =>
      cases taken
      refine ⟨?_, nofun, nofun, nofun, nofun, nofun, nofun, fun _ => ⟨h.asked hreader, hempty⟩⟩
      simpa [List.reduceOption_append] using h.order
    case isFalse =>
      cases taken
      exact h.move (by simp [ReceivePc.future, hreader]) nofun (by simp [hreader]) nofun nofun nofun
  case h_5 hreader =>
    cases taken
    refine ⟨h.order, ?_, nofun, ?_, nofun, nofun, nofun, h.ended⟩
    · intro f g hf hg
      cases hf
      cases hg
      rfl
    · intro f hf _
      cases hf
      exact .inl rfl
  case h_6 f hreader =>
    by_cases hempty : s.incoming = []
    · rw [if_pos hempty] at taken
      cases taken
      exact h.move (by simp [ReceivePc.future, hreader]) nofun (by simp [hreader])
        (fun _ _ _ => .inl hempty) nofun nofun
    · rw [if_neg hempty] at taken
      cases taken
      exact h.move (by simp [ReceivePc.future, hreader]) nofun (by simp [hreader]) nofun nofun nofun
  case h_7 f hreader =>
    by_cases hclosed : s.closed = true
    · rw [if_pos hclosed] at taken
      cases taken
      exact h.move (by simp [ReceivePc.future, hreader]) nofun (by simp [hreader]) nofun nofun nofun
    · rw [if_neg hclosed] at taken
      cases taken
      refine h.move (by simp [ReceivePc.future, hreader]) nofun (by simp [hreader]) ?_ ?_ nofun
      · intro g hg hw
        have hgf : g = f := by simpa [eq_comm] using hg
        exact h.frames g (.inl (hgf ▸ hreader)) hw
      · intro g _ _
        exact .inl (by simpa using hclosed)
  case h_8 f hreader =>
    split at taken
    case h_1 hwaiter =>
      cases taken
      exact h.move (by simp [ReceivePc.future, hreader]) nofun (by simp [hreader])
        (by simp [hwaiter]) (by simp [hwaiter]) nofun
    case h_2 g hwaiter =>
      cases taken
      have hg : g = f := h.slot f g (by simp [hreader, ReceivePc.future]) hwaiter
      refine ⟨h.order, nofun, ?_, ?_, nofun, nofun, nofun, h.ended⟩
      · intro f' g' hcalling
        cases hcalling
        exact ⟨hg, rfl⟩
      · intro f' hf' _
        cases hf'
        subst hg
        exact .inr (.inr (.inr (.inr (.inr rfl))))
  case h_9 f g hreader =>
    cases taken
    obtain ⟨rfl, hwaiter⟩ := h.called f g hreader
    refine ⟨h.order, by simp [hwaiter], nofun, ?_, by simp [hwaiter], by simp [hwaiter], nofun, h.ended⟩
    intro f hf _
    cases hf
    exact .inr (.inr (.inr (.inr (.inl (by simp)))))
  case h_10 f hreader =>
    obtain ⟨-, rfl⟩ := of_guard taken
    refine ⟨h.order, nofun, nofun, nofun, nofun, nofun, nofun, h.ended⟩

/-- A callback that is on its way stays so, as long as it is only handed on. -/
lemma OnItsWay.mono {f : ℕ} (h : s.OnItsWay f)
    (task : s.task = .scheduling f → t.task = .scheduling f ∨ .resolve f ∈ t.wakeups)
    (marks : ∀ j, s.marks j = .scheduling f → t.marks j = .scheduling f ∨ .resolve f ∈ t.wakeups)
    (wakeups : .resolve f ∈ s.wakeups → .resolve f ∈ t.wakeups)
    (soon : .resolve f ∈ s.soon → .resolve f ∈ t.soon) (reader : t.reader = s.reader) :
    t.OnItsWay f := by
  obtain htask | ⟨j, hj⟩ | hwakeups | hsoon | hreader := h
  · obtain htask | hwakeups := task htask
    · exact .inl htask
    · exact .inr (.inr (.inl hwakeups))
  · obtain hj | hwakeups := marks j hj
    · exact .inr (.inl ⟨j, hj⟩)
    · exact .inr (.inr (.inl hwakeups))
  · exact .inr (.inr (.inl (wakeups hwakeups)))
  · exact .inr (.inr (.inr (.inl (soon hsoon))))
  · exact .inr (.inr (.inr (.inr (reader.trans hreader))))

variable [DecidableEq κ]

lemma marks_update {m : Option κ → MarkPc κ} {j : Option κ} {pc : MarkPc κ} {f : ℕ}
    (before : m j ≠ .scheduling f) {i : Option κ} (hi : m i = .scheduling f) :
    Function.update m j pc i = .scheduling f := by
  by_cases hij : i = j
  · exact absurd (hij ▸ hi) before
  · rw [Function.update_of_ne hij]
    exact hi

lemma mark_setMark {j : Option κ} {pc : MarkPc κ} (before : s.marks j ≠ .waking)
    (hmark : s.marks none = .waking) : (s.setMark j pc).marks none = .waking := by
  have hne : none ≠ j := by
    rintro rfl
    exact before hmark
  simpa [setMark, hne] using hmark

/-- The loop runs a callback.  One that resolves the current future ends the wait. -/
lemma Receiving.run (h : s.Receiving) (t : Bridge κ) (c : SocketCallback κ)
    (incoming : t.incoming = s.incoming) (waiter : t.waiter = s.waiter) (reader : t.reader = s.reader)
    (delivered : t.delivered = s.delivered) (returned : t.returned = s.returned)
    (resolved : t.resolved = s.resolved) (task : t.task = s.task) (closed : t.closed = s.closed)
    (marks : t.marks = s.marks)
    (way : ∀ f, s.OnItsWay f → .resolve f ≠ c → t.OnItsWay f) : (t.run c).Receiving := by
  cases c with
  | resolve g =>
    refine h.congr incoming waiter reader delivered returned ?_ ?_ (fun hw => task.trans hw) closed
      fun hm => by rw [run_marks, marks]; exact hm
    · intro hfalse
      rw [← resolved]
      exact (Bool.or_eq_false_iff.mp hfalse).1
    · intro f hway hfalse hf
      refine way f hway fun hc => ?_
      have hgf : f = g := by simpa using hc
      have hother := (Bool.or_eq_false_iff.mp hfalse).2
      rw [decide_eq_false_iff_not] at hother
      exact hother (hgf ▸ hf)
  | close k =>
    exact h.congr incoming waiter reader delivered returned (fun hf => resolved ▸ hf)
      (fun f hway _ _ => way f hway nofun) (fun hw => task.trans hw) closed
      fun hm => by rw [run_marks, marks]; exact hm

/-- Every step keeps the invariant. -/
theorem Receiving.step (h : s.Receiving) (marking : s.Marking) {a : BridgeAction κ}
    (taken : s.step a = some t) : t.Receiving := by
  cases a with
  | bind =>
    obtain ⟨-, rfl⟩ := of_guard taken
    exact h.congr rfl rfl rfl rfl rfl id (fun _ hway _ _ => hway) id rfl id
  | frame m =>
    obtain ⟨⟨-, hidle⟩, rfl⟩ := of_guard taken
    have hopen : s.closed = false := by
      have habsent : s.marks none = .absent := by simpa [hidle] using marking.closing
      simpa [habsent, MarkPc.Stored] using marking.stored
    refine ⟨?_, h.slot, h.called, ?_, fun _ _ _ => .inr rfl, fun _ _ _ => .inl hopen, h.asked, ?_⟩
    · simp [h.order]
    · intro f hf hresolved
      refine (h.kept f hf hresolved).imp id fun hway => ?_
      exact hway.mono (by simp [hidle]) (fun _ => .inl) id id rfl
    · intro hnone
      cases hopen.symm.trans (h.ended hnone).1
  | close =>
    obtain ⟨⟨-, hidle⟩, rfl⟩ := of_guard taken
    have habsent : s.marks none = .absent := by simpa [hidle] using marking.closing
    refine h.congr rfl rfl rfl rfl rfl id ?_ (by simp [hidle]) rfl (by simp [habsent])
    intro f hway _ _
    refine hway.mono (by simp [hidle]) (fun j hj => .inl ?_) id id rfl
    cases j with
    | none => cases habsent.symm.trans hj
    | some k => simpa [setMark] using hj
  | task =>
    simp only [Bridge.step, taskStep] at taken
    split at taken
    case h_1 htask =>
      split at taken
      case h_1 hwaiter =>
        cases taken
        refine h.take hwaiter rfl rfl rfl rfl rfl rfl (by simp [hwaiter]) fun f hway => ?_
        exact hway.mono (by simp [htask]) (fun _ => .inl) id id rfl
      case h_2 g hwaiter =>
        cases taken
        refine h.take rfl rfl rfl rfl rfl rfl rfl (fun f hf => ?_) fun f hway => ?_
        · exact .inl (by simpa [hwaiter] using hf)
        · exact hway.mono (by simp [htask]) (fun _ => .inl) id id rfl
    case h_2 g htask =>
      cases taken
      have hbound : s.bound = true := by
        by_contra hfalse
        cases htask.symm.trans (marking.bound (by simpa using hfalse))
      rw [schedule_of_bound s _ hbound]
      refine h.congr rfl rfl rfl rfl rfl id ?_ (by simp [htask]) rfl id
      intro f hway _ _
      refine hway.mono (fun hf => .inr ?_) (fun _ => .inl) (List.mem_append_left _) id rfl
      have hgf : g = f := by simpa [htask] using hf
      simp [hgf]
    case h_3 => cases taken
    case h_4 => cases taken
  | mark j =>
    simp only [Bridge.step, markStep] at taken
    split at taken
    case h_1 hmark =>
      cases taken
      refine ⟨h.order, h.slot, h.called, ?_, h.frames, ?_, fun _ => rfl,
        fun hnone => ⟨rfl, (h.ended hnone).2⟩⟩
      · intro f hf hresolved
        refine (h.kept f hf hresolved).imp id fun hway => ?_
        exact hway.mono .inl (fun _ hi => .inl (marks_update (by simp [hmark]) hi)) id id rfl
      · intro f hf hwaiter
        refine .inr ?_
        cases j with
        | none => simp [setMark]
        | some k =>
          -- an `on_close` only marks a socket that is marked already
          have hclosed := (marking.others k (by simp [hmark])).1
          have hmarking := h.flag f hf hwaiter
          simpa [setMark, hclosed] using hmarking
    case h_2 hmark =>
      split at taken
      case h_1 hwaiter =>
        cases taken
        refine h.take hwaiter rfl rfl rfl rfl rfl rfl (by simp [hwaiter]) fun f hway => ?_
        exact hway.mono .inl (fun _ hi => .inl (marks_update (by simp [hmark]) hi)) id id rfl
      case h_2 g hwaiter =>
        cases taken
        refine h.take rfl rfl rfl rfl rfl rfl rfl (fun f hf => ?_) fun f hway => ?_
        · have hgf : g = f := by simpa [hwaiter] using hf
          exact .inr (.inl ⟨j, by simp [setMark, hgf]⟩)
        · exact hway.mono .inl (fun _ hi => .inl (marks_update (by simp [hmark]) hi)) id id rfl
    case h_3 g hmark =>
      cases taken
      rw [schedule_of_bound s _ (marking.bound_of_mark (j := j) (by simp [hmark]))]
      refine h.congr rfl rfl rfl rfl rfl id ?_ id rfl (mark_setMark (by simp [hmark]))
      intro f hway _ _
      refine hway.mono .inl (fun i hi => ?_) (List.mem_append_left _) id rfl
      by_cases hij : i = j
      · have hgf : g = f := by simpa [hij, hmark] using hi
        exact .inr (by simp [setMark, hgf])
      · exact .inl (by simpa [setMark, hij] using hi)
    case h_4 hmark =>
      cases taken
      refine h.congr rfl rfl rfl rfl rfl id ?_ id rfl (mark_setMark (by simp [hmark]))
      intro f hway _ _
      exact hway.mono .inl (fun _ hi => .inl (marks_update (by simp [hmark]) hi)) id id rfl
    case h_5 k rest hmark =>
      cases taken
      rw [schedule_of_bound s _ (marking.bound_of_mark (j := j) (by simp [hmark]))]
      refine h.congr rfl rfl rfl rfl rfl id ?_ id rfl (mark_setMark (by simp [hmark]))
      intro f hway _ _
      exact hway.mono .inl (fun _ hi => .inl (marks_update (by simp [hmark]) hi)) (List.mem_append_left _) id rfl
    case h_6 hmark =>
      cases taken
      refine h.congr rfl rfl rfl rfl rfl id ?_ id rfl (mark_setMark (by simp [hmark]))
      intro f hway _ _
      exact hway.mono .inl (fun _ hi => .inl (marks_update (by simp [hmark]) hi)) id id rfl
    case h_7 => cases taken
    case h_8 => cases taken
  | receive =>
    obtain ⟨hidle, rfl⟩ := of_guard taken
    exact h.move (by simp [ReceivePc.future, hidle]) nofun (by simp [hidle]) nofun nofun nofun
  | read => exact h.readStep taken
  | cancel =>
    simp only [Bridge.step] at taken
    split at taken
    · cases taken
      exact ⟨h.order, nofun, nofun, nofun, nofun, nofun, nofun, h.ended⟩
    · cases taken
  | onClose k =>
    obtain ⟨-, rfl⟩ := of_guard taken
    exact h.congr rfl rfl rfl rfl rfl id (fun _ hway _ _ => hway) id rfl id
  | register k =>
    simp only [Bridge.step, registerStep] at taken
    split at taken
    case h_1 =>
      cases taken
      exact h.congr rfl rfl rfl rfl rfl id (fun _ hway _ _ => hway) id rfl id
    case h_2 =>
      cases taken
      refine h.congr rfl rfl rfl rfl rfl id ?_ id rfl id
      intro f hway _ _
      exact hway.mono .inl (fun _ => .inl) id (List.mem_append_left _) rfl
    case h_3 =>
      cases taken
      exact h.congr rfl rfl rfl rfl rfl id (fun _ hway _ _ => hway) id rfl id
    case h_4 hcall =>
      split at taken
      case isTrue =>
        cases taken
        have habsent : s.marks (some k) = .absent := by
          by_contra hpresent
          cases hcall.symm.trans (marking.others k hpresent).2
        refine h.congr rfl rfl rfl rfl rfl id ?_ id rfl (by simp [setMark, setCall])
        intro f hway _ _
        exact hway.mono .inl (fun _ hi => .inl (marks_update (by simp [habsent]) hi)) id id rfl
      case isFalse =>
        cases taken
        exact h.congr rfl rfl rfl rfl rfl id (fun _ hway _ _ => hway) id rfl id
    case h_5 => cases taken
    case h_6 => cases taken
    case h_7 => cases taken
  | runWakeup =>
    simp only [Bridge.step] at taken
    split at taken
    case h_1 => cases taken
    case h_2 c rest hwakeups =>
      cases taken
      refine h.run { s with wakeups := rest } c rfl rfl rfl rfl rfl rfl rfl rfl rfl fun f hway hc => ?_
      exact hway.mono .inl (fun _ => .inl) (fun hf => by simpa [hwakeups, hc] using hf) id rfl
  | runSoon =>
    simp only [Bridge.step] at taken
    split at taken
    case h_1 => cases taken
    case h_2 c rest hsoon =>
      cases taken
      refine h.run { s with soon := rest } c rfl rfl rfl rfl rfl rfl rfl rfl rfl fun f hway hc => ?_
      exact hway.mono .inl (fun _ => .inl) id (fun hf => by simpa [hsoon, hc] using hf) rfl

end Reader

end Bridge

end Oxbrook
