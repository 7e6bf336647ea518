import Mathlib.Algebra.Order.Group.Int
import Mathlib.Data.List.Basic

/-!
# The worker's queue and its wake pair

The data of `src/queue.rs` and `src/wake.rs`.  A `WorkerQueue` holds three lock-free queues (the
requests, the callbacks to run on the loop, the cancellation notices), the flag `notified` that
collapses a burst of pushes into one wake byte, the time `notified_at` of the last flip, the wake
pair and the in-flight count.

The operations below are the source's methods run without interruption; they are what the worker's
own thread sees when nothing else runs.  `Worker/WakeProtocol` takes the same methods apart into
their single atomic operations.
-/

namespace Oxbrook

/-! ## The wake pair -/

/-- The two ends of the wake socket as one object: the bytes written and not yet read, and the size
of the kernel's buffer between the ends. -/
structure WakePair where
  unread : ℕ
  capacity : ℕ
  capacity_pos : 0 < capacity
  deriving DecidableEq

namespace WakePair

/-- `WakeWriter::wake`: write one byte.  The socket does not block, so the write fails on a full
buffer, and the result of the write is ignored. -/
def wake (pair : WakePair) : WakePair :=
  if pair.unread < pair.capacity then { pair with unread := pair.unread + 1 } else pair

/-- The size of the buffer `WakeReader::drain` reads into. -/
def drainBuffer : ℕ := 64

/-- What one `read` of `WakeReader::drain` returns. -/
def readSize (pair : WakePair) : ℕ := min pair.unread drainBuffer

/-- The socket after one `read` of `WakeReader::drain`. -/
def read (pair : WakePair) : WakePair := { pair with unread := pair.unread - pair.readSize }

/-- `WakeReader::drain`: read until a read comes back short. -/
def drain (pair : WakePair) : WakePair :=
  if pair.readSize < drainBuffer then pair.read else drain pair.read
termination_by pair.unread
decreasing_by
  simp only [readSize, read, drainBuffer] at *
  omega

/-- A byte written to a socket that holds none is there to be read. -/
lemma wake_unread_of_eq_zero {pair : WakePair} (h : pair.unread = 0) : pair.wake.unread = 1 := by
  have hroom : pair.unread < pair.capacity := h ▸ pair.capacity_pos
  rw [wake, if_pos hroom, h]

/-- Writing never takes a byte away. -/
lemma unread_le_wake (pair : WakePair) : pair.unread ≤ pair.wake.unread := by
  unfold wake
  split <;> simp

/-- Draining leaves nothing unread. -/
lemma drain_unread (pair : WakePair) : pair.drain.unread = 0 := by
  induction pair using drain.induct with
  | case1 pair hshort =>
    rw [drain, if_pos hshort]
    simp only [readSize, read, drainBuffer] at *
    omega
  | case2 pair hfull ih =>
    rw [drain, if_neg hfull]
    exact ih

end WakePair

/-! ## The queue -/

/-- `WorkerQueue`, with `ρ` the type of queued requests, `κ` of callbacks and `χ` of cancellation
cells.  Each queue is a list with its oldest item first.  The histogram of queue waits and the
flag that stamps arrivals are left out: they only measure. -/
structure WorkerQueue (ρ κ χ : Type*) where
  queue : List ρ
  wakeups : List κ
  cancels : List χ
  notified : Bool
  -- `none` is the source's `IDLE`
  notifiedAt : Option ℕ
  pair : WakePair
  inflight : ℤ
  limit : ℤ
  deriving DecidableEq

namespace WorkerQueue

variable {ρ κ χ : Type*}

/-- `WorkerQueue::new`. -/
def new (pair : WakePair) (limit : ℤ) : WorkerQueue ρ κ χ where
  queue := []
  wakeups := []
  cancels := []
  notified := false
  notifiedAt := none
  pair := pair
  inflight := 0
  limit := limit

/-- `WorkerQueue::load`. -/
def load (wq : WorkerQueue ρ κ χ) : ℤ := wq.queue.length + wq.inflight

/-- `WorkerQueue::has_room`. -/
def hasRoom (wq : WorkerQueue ρ κ χ) : Bool := decide (wq.load < wq.limit)

/-- `WorkerQueue::claim`: a popped request becomes in-flight. -/
def claim (wq : WorkerQueue ρ κ χ) : WorkerQueue ρ κ χ := { wq with inflight := wq.inflight + 1 }

/-- `WorkerQueue::release`. -/
def release (wq : WorkerQueue ρ κ χ) : WorkerQueue ρ κ χ := { wq with inflight := wq.inflight - 1 }

/-- `WorkerQueue::wake` at the time `now`: only the caller that flips `notified` stamps the time
and writes the byte. -/
def wake (wq : WorkerQueue ρ κ χ) (now : ℕ) : WorkerQueue ρ κ χ :=
  if wq.notified then wq
  else { wq with notified := true, notifiedAt := some now, pair := wq.pair.wake }

/-- `WorkerQueue::try_push`; `none` gives the request back because the worker is at its limit. -/
def tryPush (wq : WorkerQueue ρ κ χ) (item : ρ) (now : ℕ) : Option (WorkerQueue ρ κ χ) :=
  if wq.hasRoom then some (wake { wq with queue := wq.queue ++ [item] } now) else none

/-- `WorkerQueue::push_wakeup`. -/
def pushWakeup (wq : WorkerQueue ρ κ χ) (callback : κ) (now : ℕ) : WorkerQueue ρ κ χ :=
  wake { wq with wakeups := wq.wakeups ++ [callback] } now

/-- `WorkerQueue::push_cancel`. -/
def pushCancel (wq : WorkerQueue ρ κ χ) (cell : χ) (now : ℕ) : WorkerQueue ρ κ χ :=
  wake { wq with cancels := wq.cancels ++ [cell] } now

/-- `WorkerQueue::clear_notified`. -/
def clearNotified (wq : WorkerQueue ρ κ χ) : WorkerQueue ρ κ χ :=
  { wq with notifiedAt := none, notified := false }

/-- Whether any of the three queues holds something. -/
def hasPending (wq : WorkerQueue ρ κ χ) : Bool :=
  !wq.queue.isEmpty || !wq.wakeups.isEmpty || !wq.cancels.isEmpty

/-- `WorkerQueue::rewake_if_pending`. -/
def rewakeIfPending (wq : WorkerQueue ρ κ χ) (now : ℕ) : WorkerQueue ρ κ χ :=
  if wq.hasPending then wq.wake now else wq

end WorkerQueue

end Oxbrook
