import Mathlib.Data.List.Nodup
import Oxbrook.Foundation.Runs

/-!
# Cancelling abandoned requests

The protocol of `src/cancel.rs`.  A cancellable request has a cell shared by three parties: the tokio
task that waits for its reply holds an `Abandon`, which, dropped while armed, flags the request as
abandoned and then queues a notice for the worker; the drain callback of the worker pops notices and
requests, drops a request flagged by then, and attaches the task it creates to the cell; the responder
flags the request as answered when it delivers a reply and empties the cell when it releases the
request.  The flag is written by compare-exchange from `running`, the task slot under a lock.

Each atomic operation is a step, in any order and for any number of requests.  The handler only runs
between two callbacks of its loop, so its responder is not used while the drain is still starting it.
-/

namespace Oxbrook

open StepMachine

variable {ι : Type*}

/-! ## A cancellable request -/

/-- `Cancel::state`. -/
inductive CancelFlag
  | running
  | abandoned
  | answered
  deriving DecidableEq

/-- The tokio side: it has not queued the request, holds the armed `Abandon`, has won the
compare-exchange of its drop and not yet pushed the notice, or is done. -/
inductive WaiterPc
  | unsent
  | armed
  | noticing
  | over
  deriving DecidableEq

/-- What the drain has done with the `Pending` of a request: queued, popped, found not abandoned,
`create_task` called, the task stored in the cell, the flag found set after that.  At the end it was
dropped without a task, abandoned or because a call raised, or its handler runs. -/
inductive StartPc
  | unsent
  | queued
  | popped
  | claimed
  | created
  | stored
  | seen
  | dropped
  | running
  deriving DecidableEq

/-- The notice of an abandoned request. -/
inductive NoticePc
  | none
  | queued
  | popped
  | drained
  deriving DecidableEq

/-- The responder: not there yet, live, past the swap of `released`, past the `answer` of `forget`, done
with the release. -/
inductive ResponderPc
  | none
  | live
  | releasing
  | forgetting
  | released
  deriving DecidableEq

/-- A request and its `Cancel`. -/
structure Cancellable where
  flag : CancelFlag
  -- whether the slot holds the task
  task : Bool
  waiter : WaiterPc
  start : StartPc
  notice : NoticePc
  responder : ResponderPc
  -- the sender of the reply was taken, and the reply sent
  taken : Bool
  replied : Bool
  -- calls of the task's `cancel`
  cancelled : ℕ
  deriving DecidableEq

namespace Cancellable

/-- A request that has not been made. -/
def new : Cancellable := ⟨.running, false, .unsent, .unsent, .none, .none, false, false, 0⟩

/-- `Cancel::answer`. -/
def answer (c : Cancellable) : Cancellable :=
  if c.flag = .running then { c with flag := .answered } else c

/-- `Cancel::cancel`: take the task out of the slot and cancel it. -/
def cancel (c : Cancellable) : Cancellable :=
  if c.task then { c with task := false, cancelled := c.cancelled + 1 } else c

/-- The compare-exchange in the drop of an armed `Abandon`. -/
def abandon (c : Cancellable) : Cancellable :=
  if c.flag = .running then { c with flag := .abandoned, waiter := .noticing }
  else { c with waiter := .over }

/-- `Responder::deliver` up to the send; `full` says that the reply is complete and no work was left for
after it. -/
def deliver (c : Cancellable) (full : Bool) : Cancellable :=
  { c.answer with taken := true, responder := if full then .releasing else c.answer.responder }

end Cancellable

/-! ## A worker and its requests -/

/-- Where the drain callback stands. -/
inductive CancelDrain (ι : Type*)
  | idle
  | notices
  | cancelling (i : ι)
  | requests
  | starting (i : ι)

/-- The requests of a worker, its queues and its drain. -/
structure CancelState (ι : Type*) where
  req : ι → Cancellable
  queue : List ι
  cancels : List ι
  drain : CancelDrain ι

/-- One atomic operation: of the tokio side, of the drain, of a responder. -/
inductive CancelAction (ι : Type*)
  | send (i : ι)
  | abandon (i : ι)
  | notice (i : ι)
  | disarm (i : ι)
  | start
  | popNotice
  | cancelTask
  | pop
  | test
  | fail (built : Bool)
  | create
  | store
  | check
  | cancelNow
  | deliver (i : ι) (full : Bool)
  | release (i : ι)
  | forgetAnswer (i : ι)
  | forgetTake (i : ι)
  | reply (i : ι)

namespace CancelState

/-- A worker without requests. -/
def new : CancelState ι := ⟨fun _ => .new, [], [], .idle⟩

variable [DecidableEq ι]

/-- Change one request. -/
def set (s : CancelState ι) (i : ι) (c : Cancellable) : CancelState ι :=
  { s with req := Function.update s.req i c }

/-- One step of the drain on the request it is starting. -/
def startStep (s : CancelState ι) (i : ι) (before : StartPc) (next : Cancellable)
    (drain : CancelDrain ι) : Option (CancelState ι) :=
  if (s.req i).start = before then some ({ s with drain := drain }.set i next) else none

/-- The step function. -/
def step (s : CancelState ι) : CancelAction ι → Option (CancelState ι)
  | .send i =>
    if (s.req i).waiter = .unsent ∧ (s.req i).start = .unsent then
      some ({ s with queue := s.queue ++ [i] }.set i
        { s.req i with waiter := .armed, start := .queued }) else none
  | .abandon i => if (s.req i).waiter = .armed then some (s.set i (s.req i).abandon) else none
  | .notice i =>
    if (s.req i).waiter = .noticing then
      some ({ s with cancels := s.cancels ++ [i] }.set i
        { s.req i with waiter := .over, notice := .queued }) else none
  | .disarm i =>
    if (s.req i).waiter = .armed ∧ (s.req i).replied = true then
      some (s.set i { s.req i with waiter := .over }) else none
  | .start =>
    match s.drain with
    | .idle => some { s with drain := .notices }
    | _ => none
  | .popNotice =>
    match s.drain, s.cancels with
    | .notices, [] => some { s with drain := .requests }
    | .notices, i :: rest =>
      some ({ s with cancels := rest, drain := .cancelling i }.set i
        { s.req i with notice := .popped })
    | _, _ => none
  | .cancelTask =>
    match s.drain with
    | .cancelling i =>
      some ({ s with drain := .notices }.set i { (s.req i).cancel with notice := .drained })
    | _ => none
  | .pop =>
    match s.drain, s.queue with
    | .requests, [] => some { s with drain := .idle }
    | .requests, i :: rest =>
      some ({ s with queue := rest, drain := .starting i }.set i { s.req i with start := .popped })
    | _, _ => none
  | .test =>
    match s.drain with
    | .starting i =>
      if (s.req i).flag = .abandoned then
        s.startStep i .popped { s.req i with start := .dropped } .requests
      else s.startStep i .popped { s.req i with start := .claimed } (.starting i)
    | _ => none
  | .fail built =>
    -- a call before `create_task` or that one raises: the drain ends, and a responder built by then
    -- is dropped
    match s.drain with
    | .starting i =>
      s.startStep i .claimed
        { s.req i with start := .dropped, responder := if built then .releasing else .none } .idle
    | _ => none
  | .create =>
    match s.drain with
    | .starting i =>
      s.startStep i .claimed { s.req i with start := .created, responder := .live } (.starting i)
    | _ => none
  | .store =>
    match s.drain with
    | .starting i =>
      s.startStep i .created { s.req i with start := .stored, task := true } (.starting i)
    | _ => none
  | .check =>
    match s.drain with
    | .starting i =>
      if (s.req i).flag = .abandoned then
        s.startStep i .stored { s.req i with start := .seen } (.starting i)
      else s.startStep i .stored { s.req i with start := .running } .requests
    | _ => none
  | .cancelNow =>
    match s.drain with
    | .starting i => s.startStep i .seen { (s.req i).cancel with start := .running } .requests
    | _ => none
  | .deliver i full =>
    if (s.req i).start = .running ∧ (s.req i).responder = .live ∧ (s.req i).taken = false then
      some (s.set i ((s.req i).deliver full)) else none
  | .release i =>
    if (s.req i).start = .running ∧ (s.req i).responder = .live then
      some (s.set i { s.req i with responder := .releasing }) else none
  | .forgetAnswer i =>
    if (s.req i).responder = .releasing then
      some (s.set i { (s.req i).answer with responder := .forgetting }) else none
  | .forgetTake i =>
    if (s.req i).responder = .forgetting then
      some (s.set i { s.req i with task := false, responder := .released }) else none
  | .reply i =>
    if (s.req i).taken = true ∧ (s.req i).replied = false ∧
        ((s.req i).responder = .live ∨ (s.req i).responder = .released) then
      some (s.set i { s.req i with replied := true }) else none

end CancelState

/-! ## What holds of one request -/

/-- The drain is between popping the `Pending` and being done with it. -/
@[grind]
def StartPc.Midway : StartPc → Prop
  | .popped | .claimed | .created | .stored | .seen => True
  | _ => False

/-- The task exists and its handle was put into the slot. -/
@[grind]
def StartPc.Started : StartPc → Prop
  | .stored | .seen | .running => True
  | _ => False

namespace Cancellable

/-- The responder is past the swap of `released`. -/
@[grind]
def Releasing (c : Cancellable) : Prop :=
  c.responder = .releasing ∨ c.responder = .forgetting ∨ c.responder = .released

/-- The invariant of one request. -/
@[grind cases]
structure Sound (c : Cancellable) : Prop where
  noticed : c.waiter = .noticing ∨ c.notice ≠ .none ↔ c.flag = .abandoned
  waiting : c.waiter ≠ .over → c.notice = .none
  unsent : c.waiter = .unsent ↔ c.start = .unsent
  justified : 0 < c.cancelled → c.flag = .abandoned
  once : c.cancelled + (if c.task then 1 else 0) ≤ 1
  early : ¬ c.start.Started → c.task = false ∧ c.cancelled = 0
  settled : c.Releasing → c.start = .running ∨ c.start = .dropped
  seen : c.start = .seen → c.flag = .abandoned
  held : c.start.Started → c.task = true ∨ c.cancelled = 1 ∨ c.responder = .released
  emptied : c.responder = .released → c.task = false
  missed : c.notice = .drained → c.task = false
  ordered : c.notice = .drained → c.start.Midway → c.start = .popped

section Fields

variable (c : Cancellable) (full : Bool)

@[simp, grind =] lemma answer_start : c.answer.start = c.start := by unfold answer; split <;> rfl
@[simp, grind =] lemma answer_notice : c.answer.notice = c.notice := by unfold answer; split <;> rfl
@[simp, grind =] lemma answer_responder : c.answer.responder = c.responder := by
  unfold answer; split <;> rfl
@[simp] lemma deliver_start : (c.deliver full).start = c.start := c.answer_start
@[simp] lemma deliver_notice : (c.deliver full).notice = c.notice := c.answer_notice
@[simp] lemma cancel_flag : c.cancel.flag = c.flag := by unfold cancel; split <;> rfl
@[simp] lemma cancel_responder : c.cancel.responder = c.responder := by
  unfold cancel; split <;> rfl
@[simp] lemma cancel_start : c.cancel.start = c.start := by unfold cancel; split <;> rfl
@[simp] lemma cancel_notice : c.cancel.notice = c.notice := by unfold cancel; split <;> rfl
@[simp] lemma abandon_start : c.abandon.start = c.start := by unfold abandon; split <;> rfl
@[simp] lemma abandon_notice : c.abandon.notice = c.notice := by unfold abandon; split <;> rfl

end Fields

/-- What is decided for good: that the reply won the flag, and that the responder released the request. -/
structure Kept (c d : Cancellable) : Prop where
  answered : c.flag = .answered → d.flag = .answered
  released : c.responder = .released → d.responder = .released

lemma Kept.refl (c : Cancellable) : c.Kept c := ⟨id, id⟩

lemma Kept.trans {c d e : Cancellable} (first : c.Kept d) (second : d.Kept e) : c.Kept e :=
  ⟨fun h => second.answered (first.answered h), fun h => second.released (first.released h)⟩

lemma answer_flag (c : Cancellable) (h : c.flag = .answered) : c.answer.flag = .answered := by
  simp [answer, h]

lemma kept_abandon (c : Cancellable) : c.Kept c.abandon := by
  unfold abandon
  split
  case isTrue hrunning => exact ⟨by simp [hrunning], id⟩
  case isFalse => exact ⟨id, id⟩

/-- The invariant of a request that has not been made. -/
theorem sound_new : new.Sound := by
  constructor <;> simp [new, StartPc.Started, StartPc.Midway, Releasing]

namespace Sound

variable {c : Cancellable}

/-! One lemma for each operation on a request.  The flag is only ever written from `running`, and a
notice only exists once it reads `abandoned`, so an `answer` touches no request that has a notice. -/

lemma send (h : c.Sound) (fresh : c.waiter = .unsent) :
    Sound { c with waiter := .armed, start := .queued } := by
  constructor <;> grind

lemma abandon (h : c.Sound) (armed : c.waiter = .armed) : c.abandon.Sound := by
  unfold Cancellable.abandon
  split
  · constructor <;> grind
  · constructor <;> grind

lemma notice (h : c.Sound) (pending : c.waiter = .noticing) :
    Sound { c with waiter := .over, notice := .queued } := by
  constructor <;> grind

lemma disarm (h : c.Sound) (armed : c.waiter = .armed) : Sound { c with waiter := .over } := by
  constructor <;> grind

lemma popNotice (h : c.Sound) (queued : c.notice = .queued) :
    Sound { c with notice := .popped } := by
  constructor <;> grind

/-- The drain is not starting the request while it works on a notice, so a task created later was
tested against the flag first. -/
lemma cancelTask (h : c.Sound) (popped : c.notice = .popped) (apart : ¬ c.start.Midway) :
    Sound { c.cancel with notice := .drained } := by
  unfold Cancellable.cancel
  split
  · constructor <;> grind
  · constructor <;> grind

lemma pop (h : c.Sound) (queued : c.start = .queued) : Sound { c with start := .popped } := by
  constructor <;> grind

lemma drop (h : c.Sound) (popped : c.start = .popped) : Sound { c with start := .dropped } := by
  constructor <;> grind

/-- A request found not abandoned has no notice yet. -/
lemma claim (h : c.Sound) (popped : c.start = .popped) (kept : c.flag ≠ .abandoned) :
    Sound { c with start := .claimed } := by
  constructor <;> grind

lemma create (h : c.Sound) (claimed : c.start = .claimed) :
    Sound { c with start := .created, responder := .live } := by
  constructor <;> grind

lemma fail (h : c.Sound) (claimed : c.start = .claimed) (built : Bool) :
    Sound { c with start := .dropped, responder := if built then .releasing else .none } := by
  constructor <;> grind

lemma store (h : c.Sound) (created : c.start = .created) :
    Sound { c with start := .stored, task := true } := by
  constructor <;> grind

/-- The flag is read after the task is stored: whatever it reads, the task is in the slot. -/
lemma check (h : c.Sound) (stored : c.start = .stored) {next : StartPc}
    (outcome : next = .seen ∧ c.flag = .abandoned ∨ next = .running) :
    Sound { c with start := next } := by
  constructor <;> grind

lemma cancelNow (h : c.Sound) (seen : c.start = .seen) :
    Sound { c.cancel with start := .running } := by
  unfold Cancellable.cancel
  split
  · constructor <;> grind
  · constructor <;> grind

lemma answer (h : c.Sound) : c.answer.Sound := by
  unfold Cancellable.answer
  split
  · constructor <;> grind
  · exact h

lemma deliver (h : c.Sound) (running : c.start = .running) (full : Bool)
    (live : c.responder = .live) : (c.deliver full).Sound := by
  have hanswer := h.answer
  unfold Cancellable.deliver
  constructor <;> grind

lemma forgetAnswer (h : c.Sound) (releasing : c.responder = .releasing) :
    Sound { c.answer with responder := .forgetting } := by
  have hanswer := h.answer
  constructor <;> grind

lemma release (h : c.Sound) (running : c.start = .running) (live : c.responder = .live) :
    Sound { c with responder := .releasing } := by
  constructor <;> grind

lemma forgetTake (h : c.Sound) (forgetting : c.responder = .forgetting) :
    Sound { c with task := false, responder := .released } := by
  constructor <;> grind

lemma reply (h : c.Sound) : Sound { c with replied := true } := by
  constructor <;> grind

end Sound

end Cancellable

/-! ## What holds of the worker -/

namespace CancelState

/-- Every request is sound, the queues hold each request at most once and exactly those whose record says
so, and so for what the drain has in hand. -/
structure Consistent (s : CancelState ι) : Prop where
  sound : ∀ j, (s.req j).Sound
  queue_nodup : s.queue.Nodup
  cancels_nodup : s.cancels.Nodup
  mem_queue : ∀ j, j ∈ s.queue ↔ (s.req j).start = .queued
  mem_cancels : ∀ j, j ∈ s.cancels ↔ (s.req j).notice = .queued
  cancelling : ∀ j, s.drain = .cancelling j ↔ (s.req j).notice = .popped
  starting : ∀ j, s.drain = .starting j ↔ (s.req j).start.Midway

/-- What a step leads to. -/
def Follows (s t : CancelState ι) : Prop := t.Consistent ∧ ∀ j, (s.req j).Kept (t.req j)

theorem consistent_new : (new : CancelState ι).Consistent := by
  refine ⟨fun _ => Cancellable.sound_new, ?_, ?_, ?_, ?_, ?_, ?_⟩
  all_goals simp [new, Cancellable.new, StartPc.Midway]

variable {s t : CancelState ι}

/-- The drain turns to its next loop with nothing in hand. -/
lemma Consistent.idle (h : s.Consistent) {drain : CancelDrain ι}
    (before : ∀ j, s.drain ≠ .cancelling j) (before' : ∀ j, s.drain ≠ .starting j)
    (after : ∀ j, drain ≠ .cancelling j) (after' : ∀ j, drain ≠ .starting j) :
    s.Follows { s with drain := drain } := by
  refine ⟨⟨h.sound, h.queue_nodup, h.cancels_nodup, h.mem_queue, h.mem_cancels, ?_, ?_⟩, fun j => .refl _⟩
  · intro j
    rw [← h.cancelling]
    exact iff_of_false (after j) (before j)
  · intro j
    rw [← h.starting]
    exact iff_of_false (after' j) (before' j)

/-- A handler whose notice is drained was cancelled or released. -/
lemma Consistent.drained (h : s.Consistent) {i : ι} (drained : (s.req i).notice = .drained)
    (running : (s.req i).start = .running) :
    (s.req i).cancelled = 1 ∨ (s.req i).responder = .released := by
  obtain hheld | hsettled := (h.sound i).held (by rw [running]; trivial)
  · cases ((h.sound i).missed drained).symm.trans hheld
  · exact hsettled

/-- An abandoned handler that runs on has its notice on the way. -/
lemma Consistent.on_the_way (h : s.Consistent) (i : ι) (flag : (s.req i).flag = .abandoned)
    (running : (s.req i).start = .running) (spared : (s.req i).cancelled = 0)
    (held : (s.req i).responder ≠ .released) :
    (s.req i).waiter = .noticing ∨ i ∈ s.cancels ∨ s.drain = .cancelling i := by
  have hsound := h.sound i
  rw [h.mem_cancels, h.cancelling]
  obtain hwaiter | hnotice := hsound.noticed.mpr flag
  · exact .inl hwaiter
  · refine .inr ?_
    cases hcase : (s.req i).notice with
    | none => exact absurd hcase hnotice
    | queued => exact .inl rfl
    | popped => exact .inr rfl
    | drained =>
      obtain hcancelled | hreleased := h.drained hcase running
      · omega
      · exact absurd hreleased held

variable [DecidableEq ι]

/-- A step on one request: what is to be shown of the others is that they stay where they are. -/
lemma Consistent.move (h : s.Consistent) (i : ι) (c : Cancellable)
    (req : t.req = Function.update s.req i c) (sound : c.Sound) (kept : (s.req i).Kept c)
    (nodup : t.queue.Nodup ∧ t.cancels.Nodup)
    (others : ∀ j, j ≠ i → (j ∈ t.queue ↔ j ∈ s.queue) ∧ (j ∈ t.cancels ↔ j ∈ s.cancels) ∧
      (t.drain = .cancelling j ↔ s.drain = .cancelling j) ∧
      (t.drain = .starting j ↔ s.drain = .starting j))
    (own : (i ∈ t.queue ↔ c.start = .queued) ∧ (i ∈ t.cancels ↔ c.notice = .queued) ∧
      (t.drain = .cancelling i ↔ c.notice = .popped) ∧
      (t.drain = .starting i ↔ c.start.Midway)) : s.Follows t := by
  have hself : t.req i = c := by rw [req, Function.update_self]
  have hother : ∀ j, j ≠ i → t.req j = s.req j := fun j hj => by
    rw [req, Function.update_of_ne hj]
  refine ⟨⟨?_, nodup.1, nodup.2, ?_, ?_, ?_, ?_⟩, ?_⟩
  all_goals
    intro j
    by_cases hj : j = i
    · rw [hj, hself]
      simp only [own, sound, kept]
    · rw [hother j hj]
      simp only [others j hj, h.sound, h.mem_queue, h.mem_cancels, h.cancelling, h.starting,
        Cancellable.Kept.refl]

/-- A step that leaves the queues, the drain and the request's place in them alone. -/
lemma Consistent.set (h : s.Consistent) (i : ι) (c : Cancellable) (sound : c.Sound)
    (kept : (s.req i).Kept c) (start : c.start = (s.req i).start)
    (notice : c.notice = (s.req i).notice) : s.Follows (s.set i c) := by
  refine h.move i c rfl sound kept ⟨h.queue_nodup, h.cancels_nodup⟩ (fun j _ => ?_) ?_
  · exact ⟨Iff.rfl, Iff.rfl, Iff.rfl, Iff.rfl⟩
  · rw [start, notice]
    exact ⟨h.mem_queue i, h.mem_cancels i, h.cancelling i, h.starting i⟩

/-- A step of the drain on the request it is starting. -/
lemma Consistent.startStep (h : s.Consistent) {i : ι} {before : StartPc} {next : Cancellable}
    {drain : CancelDrain ι} (busy : s.drain = .starting i)
    (taken : s.startStep i before next drain = some t)
    (sound : (s.req i).start = before → next.Sound) (flag : next.flag = (s.req i).flag)
    (notice : next.notice = (s.req i).notice)
    (away : next.start ≠ .queued) (idle : ∀ j, drain ≠ .cancelling j)
    (hand : ∀ j, drain = .starting j ↔ j = i ∧ next.start.Midway) : s.Follows t := by
  obtain ⟨hbefore, rfl⟩ := of_guard taken
  have hmidway : (s.req i).start.Midway := (h.starting i).mp busy
  have hkept : (s.req i).Kept next := by
    refine ⟨fun hanswered => flag.trans hanswered, fun hreleased => absurd hmidway ?_⟩
    obtain hstart | hstart := (h.sound i).settled (.inr (.inr hreleased)) <;>
      simp [hstart, StartPc.Midway]
  refine h.move i next rfl (sound hbefore) hkept ⟨h.queue_nodup, h.cancels_nodup⟩
    (fun j hj => ?_) ?_
  · have hfirst : ¬ s.drain = .cancelling j := by simp [busy]
    have hsecond : ¬ s.drain = .starting j := by simpa [busy] using Ne.symm hj
    simp [CancelState.set, hand, idle, hj, hfirst, hsecond]
  · have hqueue : i ∉ s.queue := by
      rw [h.mem_queue]
      intro hqueued
      rw [hqueued] at hmidway
      exact hmidway
    have hpopped : ¬ (s.req i).notice = .popped := by
      rw [← h.cancelling, busy]
      nofun
    simp [CancelState.set, hand, idle, hqueue, away, hpopped, h.mem_cancels, notice]

/-- Every step keeps the worker consistent and what is decided. -/
theorem Consistent.step (h : s.Consistent) {a : CancelAction ι} (taken : s.step a = some t) :
    s.Follows t := by
  cases a with
  | send i =>
    obtain ⟨⟨hwaiter, hstart⟩, rfl⟩ := of_guard taken
    have hqueue : i ∉ s.queue := by rw [h.mem_queue, hstart]; nofun
    have hstarting : s.drain ≠ .starting i := by
      rw [Ne, h.starting, hstart]
      exact id
    refine h.move i _ rfl ((h.sound i).send hwaiter) ⟨id, id⟩ ⟨?_, h.cancels_nodup⟩ (fun j hj => ?_) ?_
    · exact List.nodup_append.mpr ⟨h.queue_nodup, List.nodup_singleton i, by grind⟩
    · simp [CancelState.set, hj]
    · simp [CancelState.set, h.mem_cancels, h.cancelling, hstarting, StartPc.Midway]
  | abandon i =>
    obtain ⟨harmed, rfl⟩ := of_guard taken
    exact h.set i _ ((h.sound i).abandon harmed) (s.req i).kept_abandon (by simp) (by simp)
  | notice i =>
    obtain ⟨hnoticing, rfl⟩ := of_guard taken
    have hnone : (s.req i).notice = .none := (h.sound i).waiting (by rw [hnoticing]; nofun)
    have hcancels : i ∉ s.cancels := by rw [h.mem_cancels, hnone]; nofun
    have hcancelling : s.drain ≠ .cancelling i := by rw [Ne, h.cancelling, hnone]; nofun
    refine h.move i _ rfl ((h.sound i).notice hnoticing) ⟨id, id⟩ ⟨h.queue_nodup, ?_⟩ (fun j hj => ?_) ?_
    · exact List.nodup_append.mpr ⟨h.cancels_nodup, List.nodup_singleton i, by grind⟩
    · simp [CancelState.set, hj]
    · simp [CancelState.set, h.mem_queue, h.starting, hcancelling]
  | disarm i =>
    obtain ⟨⟨harmed, -⟩, rfl⟩ := of_guard taken
    exact h.set i _ ((h.sound i).disarm harmed) ⟨id, id⟩ rfl rfl
  | start =>
    simp only [CancelState.step] at taken
    split at taken
    case h_1 hdrain =>
      cases taken
      exact h.idle (by simp [hdrain]) (by simp [hdrain]) (by simp) (by simp)
    case h_2 => cases taken
  | popNotice =>
    simp only [CancelState.step] at taken
    split at taken
    case h_1 hdrain _ =>
      cases taken
      exact h.idle (by simp [hdrain]) (by simp [hdrain]) (by simp) (by simp)
    case h_2 i rest hdrain hcancels =>
      cases taken
      have hqueued : (s.req i).notice = .queued := (h.mem_cancels i).mp (by simp [hcancels])
      have hnodup : (i :: rest).Nodup := hcancels ▸ h.cancels_nodup
      have hapart : ¬ (s.req i).start.Midway := by simp [← h.starting, hdrain]
      refine h.move i _ rfl ((h.sound i).popNotice hqueued) ⟨id, id⟩
        ⟨h.queue_nodup, hnodup.of_cons⟩ (fun j hj => ?_) ?_
      · simp [CancelState.set, hcancels, hdrain, hj, Ne.symm hj]
      · simp [CancelState.set, h.mem_queue, hapart, hnodup.notMem]
    case h_3 => cases taken
  | cancelTask =>
    simp only [CancelState.step] at taken
    split at taken
    case h_1 i hdrain =>
      cases taken
      have hpopped : (s.req i).notice = .popped := (h.cancelling i).mp hdrain
      have hapart : ¬ (s.req i).start.Midway := by simp [← h.starting, hdrain]
      refine h.move i _ rfl ((h.sound i).cancelTask hpopped hapart) ⟨by simp, by simp⟩
        ⟨h.queue_nodup, h.cancels_nodup⟩ (fun j hj => ?_) ?_
      · simpa [CancelState.set, hdrain] using hj.symm
      · simp [CancelState.set, h.mem_queue, hapart, h.mem_cancels, hpopped]
    case h_2 => cases taken
  | pop =>
    simp only [CancelState.step] at taken
    split at taken
    case h_1 hdrain _ =>
      cases taken
      exact h.idle (by simp [hdrain]) (by simp [hdrain]) (by simp) (by simp)
    case h_2 i rest hdrain hqueue =>
      cases taken
      have hqueued : (s.req i).start = .queued := (h.mem_queue i).mp (by simp [hqueue])
      have hnodup : (i :: rest).Nodup := hqueue ▸ h.queue_nodup
      have hpopped : ¬ (s.req i).notice = .popped := by simp [← h.cancelling, hdrain]
      refine h.move i _ rfl ((h.sound i).pop hqueued) ⟨id, id⟩
        ⟨hnodup.of_cons, h.cancels_nodup⟩ (fun j hj => ?_) ?_
      · simp [CancelState.set, hqueue, hdrain, hj, Ne.symm hj]
      · simp [CancelState.set, h.mem_cancels, hpopped, hnodup.notMem, StartPc.Midway]
    case h_3 => cases taken
  | test =>
    simp only [CancelState.step] at taken
    split at taken
    case h_1 i hdrain =>
      split at taken
      · exact h.startStep hdrain taken (h.sound i).drop rfl rfl nofun (by simp) (by simp [StartPc.Midway])
      case isFalse hflag =>
        exact h.startStep hdrain taken (fun hpopped => (h.sound i).claim hpopped hflag) rfl rfl nofun
          (by simp) (by simp [StartPc.Midway, eq_comm])
    case h_2 => cases taken
  | fail built =>
    simp only [CancelState.step] at taken
    split at taken
    case h_1 i hdrain =>
      exact h.startStep hdrain taken (fun hclaimed => (h.sound i).fail hclaimed built) rfl rfl nofun
        (by simp) (by simp [StartPc.Midway])
    case h_2 => cases taken
  | create =>
    simp only [CancelState.step] at taken
    split at taken
    case h_1 i hdrain =>
      exact h.startStep hdrain taken (h.sound i).create rfl rfl nofun (by simp)
        (by simp [StartPc.Midway, eq_comm])
    case h_2 => cases taken
  | store =>
    simp only [CancelState.step] at taken
    split at taken
    case h_1 i hdrain =>
      exact h.startStep hdrain taken (h.sound i).store rfl rfl nofun (by simp)
        (by simp [StartPc.Midway, eq_comm])
    case h_2 => cases taken
  | check =>
    simp only [CancelState.step] at taken
    split at taken
    case h_1 i hdrain =>
      split at taken
      case isTrue hflag =>
        exact h.startStep hdrain taken (fun hstored => (h.sound i).check hstored (.inl ⟨rfl, hflag⟩))
          rfl rfl nofun (by simp) (by simp [StartPc.Midway, eq_comm])
      case isFalse =>
        exact h.startStep hdrain taken (fun hstored => (h.sound i).check hstored (.inr rfl))
          rfl rfl nofun (by simp) (by simp [StartPc.Midway])
    case h_2 => cases taken
  | cancelNow =>
    simp only [CancelState.step] at taken
    split at taken
    case h_1 i hdrain =>
      exact h.startStep hdrain taken (h.sound i).cancelNow (by simp) (by simp) nofun (by simp)
        (by simp [StartPc.Midway])
    case h_2 => cases taken
  | deliver i full =>
    obtain ⟨⟨hrunning, hlive, -⟩, rfl⟩ := of_guard taken
    exact h.set i _ ((h.sound i).deliver hrunning full hlive)
      ⟨(s.req i).answer_flag, by simp [hlive]⟩ (by simp) (by simp)
  | release i =>
    obtain ⟨⟨hrunning, hlive⟩, rfl⟩ := of_guard taken
    exact h.set i _ ((h.sound i).release hrunning hlive) ⟨id, by simp [hlive]⟩ rfl rfl
  | forgetAnswer i =>
    obtain ⟨hreleasing, rfl⟩ := of_guard taken
    exact h.set i _ ((h.sound i).forgetAnswer hreleasing)
      ⟨(s.req i).answer_flag, by simp [hreleasing]⟩ (by simp) (by simp)
  | forgetTake i =>
    obtain ⟨hforgetting, rfl⟩ := of_guard taken
    exact h.set i _ ((h.sound i).forgetTake hforgetting) ⟨id, fun _ => rfl⟩ rfl rfl
  | reply i =>
    obtain ⟨-, rfl⟩ := of_guard taken
    exact h.set i _ (h.sound i).reply ⟨id, id⟩ rfl rfl

/-- So does every run. -/
theorem Consistent.run (h : s.Consistent) (run : Reachable CancelState.step s t) : s.Follows t := by
  refine Reachable.invariant run ⟨h, fun j => .refl _⟩ ?_
  intro u a v hu taken
  obtain ⟨hv, hkept⟩ := hu.1.step taken
  exact ⟨hv, fun j => (hu.2 j).trans (hkept j)⟩

/-- A request abandoned whose notice is drained and whose `Pending` is popped was dropped, cancelled or
released, or the drain is at the test that drops it. -/
lemma Consistent.abandoned (h : s.Consistent) (i : ι) (flag : (s.req i).flag = .abandoned)
    (drained : (s.req i).notice = .drained) (sent : (s.req i).start ≠ .unsent)
    (popped : (s.req i).start ≠ .queued) :
    (s.req i).start = .dropped ∨ (s.req i).cancelled = 1 ∨ (s.req i).responder = .released ∨
      ∃ t, s.step .test = some t ∧ (t.req i).start = .dropped := by
  have hsound := h.sound i
  by_cases hmidway : (s.req i).start.Midway
  · have hstart : (s.req i).start = .popped := hsound.ordered drained hmidway
    have hdrain : s.drain = .starting i := (h.starting i).mpr hmidway
    refine .inr (.inr (.inr ⟨{ s with drain := .requests }.set i
      { s.req i with start := .dropped }, ?_, ?_⟩))
    · simp [CancelState.step, hdrain, flag, CancelState.startStep, hstart]
    · simp [CancelState.set]
  · cases hstart : (s.req i).start with
    | running =>
      obtain hcancelled | hreleased := h.drained drained hstart
      · exact .inr (.inl hcancelled)
      · exact .inr (.inr (.inl hreleased))
    | dropped => exact .inl rfl
    | unsent => exact absurd hstart sent
    | queued => exact absurd hstart popped
    | popped | claimed | created | stored | seen =>
      rw [hstart] at hmidway
      exact absurd trivial hmidway

end CancelState

section Run

variable [DecidableEq ι] {s t : CancelState ι}

/-- **Cancellation.**  In every interleaving, a task is cancelled at most once, never once the reply has won
the flag, and not kept in the cell after the release.  When a request was abandoned, its notice drained and
its `Pending` popped, it was dropped without a task ever being there, or its task was cancelled, or it was
released; only between the pop and the test of the flag it is still to be dropped, and that test drops it.
An abandoned handler that runs on uncancelled and unreleased has its notice on the way. -/
theorem abandoned_handler_cancelled (before : Reachable CancelState.step CancelState.new s)
    (after : Reachable CancelState.step s t) (i : ι) :
    (t.req i).cancelled ≤ 1 ∧
    ((s.req i).flag = .answered → (t.req i).cancelled = 0) ∧
    ((s.req i).responder = .released → (t.req i).task = false) ∧
    ((t.req i).start = .dropped → (t.req i).task = false ∧ (t.req i).cancelled = 0) ∧
    ((t.req i).flag = .abandoned → (t.req i).notice = .drained →
      (t.req i).start ≠ .unsent → (t.req i).start ≠ .queued →
      (t.req i).start = .dropped ∨ (t.req i).cancelled = 1 ∨ (t.req i).responder = .released ∨
        ∃ u, t.step .test = some u ∧ (u.req i).start = .dropped) ∧
    ((t.req i).flag = .abandoned → (t.req i).start = .running → (t.req i).cancelled = 0 →
      (t.req i).responder ≠ .released →
      (t.req i).waiter = .noticing ∨ i ∈ t.cancels ∨ t.drain = .cancelling i) := by
  obtain ⟨hs, -⟩ := CancelState.consistent_new.run before
  obtain ⟨ht, hkept⟩ := hs.run after
  have hsound := ht.sound i
  refine ⟨?_, ?_, ?_, ?_, ht.abandoned i, ht.on_the_way i⟩
  · have honce := hsound.once
    omega
  · intro hanswered
    by_contra hcancelled
    have hflag := hsound.justified (by omega)
    cases hflag.symm.trans ((hkept i).answered hanswered)
  · intro hreleased
    exact hsound.emptied ((hkept i).released hreleased)
  · intro hdropped
    exact hsound.early (by rw [hdropped]; exact id)

end Run

/-- A request is popped, and its client leaves right after its task is created. -/
def leftAtCreate : List (CancelAction ℕ) :=
  [.send 0, .start, .popNotice, .pop, .test, .create, .abandon 0]

/-- The check after the task is stored cancels it, and the notice finds the slot empty. -/
theorem abandoned_handler_cancelled_attach :
    ∃ s t : CancelState ℕ, Reachable CancelState.step CancelState.new s ∧
      Reachable CancelState.step s t ∧ (s.req 0).start = .created ∧ (t.req 0).notice = .drained ∧
      (t.req 0).start = .running ∧ (t.req 0).cancelled = 1 ∧ (t.req 0).cancelled ≤ 1 := by
  obtain ⟨s, hs⟩ : ∃ s, exec CancelState.step (fun _ _ => True) CancelState.new leftAtCreate = some s :=
    ⟨_, rfl⟩
  obtain ⟨t, ht⟩ : ∃ t, exec CancelState.step (fun _ _ => True) s
      [.store, .check, .notice 0, .cancelNow, .pop, .start, .popNotice, .cancelTask] = some t := by
    cases hs
    exact ⟨_, rfl⟩
  have before := Reachable.of_exec leftAtCreate hs
  have after := Reachable.of_exec _ ht
  refine ⟨s, t, before, after, ?_, ?_, ?_, ?_, (abandoned_handler_cancelled before after 0).1⟩
  all_goals
    cases hs
    cases ht
    rfl

end Oxbrook
