import Oxbrook.Foundation.Runs
import Oxbrook.Routing.Construct
import Oxbrook.Worker.WakeProtocol

/-!
# The drain callback and its early exits

`Drainer::__call__` as the worker's thread runs it: it empties the wake socket, clears the flag, runs
the callbacks and the cancellations, then pops requests one by one and starts a task for each.  While
it runs, other threads (and the callbacks it runs) push onto the three queues, at any point.

A request is claimed as soon as it is popped, but its in-flight slot and its place in the count of an
HTTP/2 connection only have an owner once the `Responder` exists.  Every call between the claim and
the end of the loop may raise, and the `?` after it leaves the callback at once: before the
`Responder` exists nobody gives the slot and the place back, and whatever the stage, the re-arming at
the end of the callback is skipped.  `drain_contained_iff` says when this does no harm to anything but
the request itself.

Only what the callback itself does to the counts is followed here: other threads change them too, and
their changes commute with these.
-/

namespace Oxbrook

open StepMachine

variable {F γ κ χ : Type*}

/-! ## Requests -/

/-- `Pending`, without the fields the callback only moves into the request object. -/
structure Pending (F γ χ : Type*) where
  route : ℕ
  params : List (ParamValue F)
  websocket : Bool
  gate : Bool
  -- the HTTP/2 connection it came on
  connection : Option γ
  -- set for a route that is cancelled when its client leaves
  cancel : Option χ

/-- The calls of the loop that may raise, in the order it makes them: the parameters, the request
object, the responder, the socket object, the handler's coroutine, its task, and the cancellation of a
task whose client left meanwhile. -/
inductive CallStage
  | params
  | request
  | responder
  | socket
  | coroutine
  | task
  | attach
  deriving DecidableEq

/-- What the callback calls: the router's parameters of a route, the constructors of Python, which
calls raise for other reasons than a parameter that cannot be built, and whether the client of a
request had left when it was popped. -/
structure Host (F γ χ : Type*) where
  spec : ℕ → List ParamSpec
  other : OtherForms
  raises : CallStage → Pending F γ χ → Bool
  abandoned : χ → Bool

namespace Host

/-- The keyword arguments of a handler; a route without parameters has none, and a parameter left out
on purpose is not among them.  `none` is a constructor that raised. -/
def arguments (host : Host F γ χ) (item : Pending F γ χ) :
    Option (Option (List (String × PyValue F))) :=
  let spec := host.spec item.route
  if spec.isEmpty then some none
  else
    let given := (spec.zip item.params).filter fun entry => match entry.2 with
      | .omit => false
      | _ => true
    (given.mapM fun entry => (toPython host.other entry.2).map (entry.1.name, ·)).map some

/-- The client left while the request waited in the queue. -/
def isAbandoned (host : Host F γ χ) (item : Pending F γ χ) : Bool :=
  item.cancel.any host.abandoned

/-- Whether a call of the loop raises on a request. -/
def raisesAt (host : Host F γ χ) (item : Pending F γ χ) : CallStage → Bool
  | .params => (host.arguments item).isNone || host.raises .params item
  | .socket => item.websocket && host.raises .socket item
  | .attach => item.cancel.isSome && host.raises .attach item
  | stage => host.raises stage item

/-- The stages in the order of the loop. -/
def stages : List CallStage := [.params, .request, .responder, .socket, .coroutine, .task, .attach]

/-- The first call that raises on a request, if one does. -/
def firstRaise (host : Host F γ χ) (item : Pending F γ χ) : Option CallStage :=
  stages.find? (host.raisesAt item)

end Host

/-- The stages at which the slot and the place of a request have an owner, the responder. -/
def CallStage.owned : CallStage → Bool
  | .params => false
  | .request => false
  | _ => true

/-! ## The callback -/

/-- Where the callback stands. -/
inductive CallPc
  | idle
  -- the socket has been read
  | emptied
  | wakeups
  | cancels
  | requests
  -- no request was left
  | rewaking
  | returned
  | raised
  deriving DecidableEq

/-- A worker inside its drain callback: its queue, the counts of the HTTP/2 connections, and what
became of the requests popped so far. -/
structure CallState (F γ κ χ : Type*) where
  wq : WorkerQueue (Pending F γ χ) κ χ
  load : γ → ℤ
  pc : CallPc
  -- a task was created
  started : List (Pending F γ χ)
  -- the client had left
  dropped : List (Pending F γ χ)
  -- a call raised before there was a task
  failed : List (Pending F γ χ)

inductive CallAction (F γ κ χ : Type*)
  -- a whole `try_push`, `push_wakeup` or `push_cancel`
  | push (item : Push (Pending F γ χ) κ χ) (now : ℕ)
  | read
  | clear
  | popWakeup
  | popCancel
  | pop
  | rewake (now : ℕ)

namespace CallState

variable [DecidableEq γ]

/-- Give back the place of a request in the count of its connection. -/
def leave (s : CallState F γ κ χ) (item : Pending F γ χ) : CallState F γ κ χ :=
  match item.connection with
  | some c => { s with load := Function.update s.load c (s.load c - 1) }
  | none => s

/-- `Responder::release_once` of a responder that is dropped with the failed request. -/
def releaseOnce (s : CallState F γ κ χ) (item : Pending F γ χ) : CallState F γ κ χ :=
  leave { s with wq := s.wq.release } item

/-- One pass of the request loop, for a request that was popped.  The second component tells whether
a call raised. -/
def start (host : Host F γ χ) (s : CallState F γ κ χ) (item : Pending F γ χ) :
    CallState F γ κ χ × Bool :=
  if host.isAbandoned item then ({ s.leave item with dropped := s.dropped ++ [item] }, false)
  else
    let s := { s with wq := s.wq.claim }
    let failing := { s with failed := s.failed ++ [item] }
    -- the item is dropped, and with it a handle on the count, not a place in it
    if host.raisesAt item .params then (failing, true)
    else if host.raisesAt item .request then (failing, true)
    -- the responder owns the slot and the place, and goes with the coroutine
    else if host.raisesAt item .responder then (failing.releaseOnce item, true)
    else if host.raisesAt item .socket then (failing.releaseOnce item, true)
    else if host.raisesAt item .coroutine then (failing.releaseOnce item, true)
    else if host.raisesAt item .task then (failing.releaseOnce item, true)
    else ({ s with started := s.started ++ [item] }, host.raisesAt item .attach)

/-- One step of the callback, or a push that happens while it runs. -/
def step (host : Host F γ χ) (s : CallState F γ κ χ) :
    CallAction F γ κ χ → Option (CallState F γ κ χ)
  | .push item now =>
    if s.pc ≠ .returned ∧ s.pc ≠ .raised then some { s with wq := (s.wq.append item).wake now }
    else none
  | .read =>
    if s.pc = .idle then
      some { s with wq := { s.wq with pair := s.wq.pair.drain }, pc := .emptied } else none
  | .clear =>
    if s.pc = .emptied then some { s with wq := s.wq.clearNotified, pc := .wakeups } else none
  | .popWakeup =>
    if s.pc = .wakeups then
      match s.wq.wakeups with
      | [] => some { s with pc := .cancels }
      -- an exception of the callback is written off
      | _ :: rest => some { s with wq := { s.wq with wakeups := rest } }
    else none
  | .popCancel =>
    if s.pc = .cancels then
      match s.wq.cancels with
      | [] => some { s with pc := .requests }
      | _ :: rest => some { s with wq := { s.wq with cancels := rest } }
    else none
  | .pop =>
    if s.pc = .requests then
      match s.wq.queue with
      | [] => some { s with pc := .rewaking }
      | item :: rest =>
        let after := start host { s with wq := { s.wq with queue := rest } } item
        some (if after.2 then { after.1 with pc := .raised } else after.1)
    else none
  | .rewake now =>
    if s.pc = .rewaking then some { s with wq := s.wq.rewakeIfPending now, pc := .returned }
    else none

/-- A worker at the start of the callback. -/
def enter (wq : WorkerQueue (Pending F γ χ) κ χ) (load : γ → ℤ) : CallState F γ κ χ where
  wq := wq
  load := load
  pc := .idle
  started := []
  dropped := []
  failed := []

/-- The callback is over. -/
def Ended (s : CallState F γ κ χ) : Prop := s.pc = .returned ∨ s.pc = .raised

/-- A failing request has hurt only itself: the slots taken are those of the tasks, every request
without a task has given its place back, and what is queued has a wake on its way. -/
structure Contained (s₀ s : CallState F γ κ χ) : Prop where
  slots : s.wq.inflight = s₀.wq.inflight + s.started.length
  places : ∀ c, s.load c +
    ((s.dropped ++ s.failed).countP fun item => decide (item.connection = some c)) = s₀.load c
  woken : s.wq.hasPending = true → s.wq.notified = true ∧ 0 < s.wq.pair.unread

/-- A step does not take the branch that does harm: the request it pops, if a call raises on it, has a
responder by then, and either nothing is left behind it or something was pushed since the flag was
cleared. -/
def EndsWell (host : Host F γ χ) (s : CallState F γ κ χ) : CallAction F γ κ χ → Prop
  | .pop => ∀ item rest, s.wq.queue = item :: rest → host.isAbandoned item = false →
      ∀ stage, host.firstRaise item = some stage → stage.owned = true ∧
        (s.wq.notified = true ∨ (rest = [] ∧ s.wq.wakeups = [] ∧ s.wq.cancels = []))
  | _ => True

/-! ## One request -/

section Start

variable (host : Host F γ χ) (s : CallState F γ κ χ) (item : Pending F γ χ)

/-- What one pass of the loop does, by the first call that raises. -/
lemma start_cases :
    (host.isAbandoned item = true ∧
      start host s item = ({ s.leave item with dropped := s.dropped ++ [item] }, false)) ∨
    (host.isAbandoned item = false ∧ host.firstRaise item = none ∧
      start host s item = ({ s with wq := s.wq.claim, started := s.started ++ [item] }, false)) ∨
    (host.isAbandoned item = false ∧ host.firstRaise item = some .attach ∧
      start host s item = ({ s with wq := s.wq.claim, started := s.started ++ [item] }, true)) ∨
    (host.isAbandoned item = false ∧ ∃ stage, host.firstRaise item = some stage ∧
      stage.owned = true ∧ start host s item =
        (releaseOnce { s with wq := s.wq.claim, failed := s.failed ++ [item] } item, true)) ∨
    (host.isAbandoned item = false ∧ ∃ stage, host.firstRaise item = some stage ∧
      stage.owned = false ∧
      start host s item = ({ s with wq := s.wq.claim, failed := s.failed ++ [item] }, true)) := by
  by_cases habandoned : host.isAbandoned item = true
  · exact .inl ⟨habandoned, by simp [start, habandoned]⟩
  · rw [Bool.not_eq_true] at habandoned
    refine .inr ?_
    by_cases hparams : host.raisesAt item .params = true
    · refine .inr (.inr (.inr ⟨habandoned, .params, ?_, rfl, ?_⟩))
      · simp [Host.firstRaise, Host.stages, hparams]
      · simp [start, habandoned, hparams]
    by_cases hrequest : host.raisesAt item .request = true
    · refine .inr (.inr (.inr ⟨habandoned, .request, ?_, rfl, ?_⟩))
      · simp [Host.firstRaise, Host.stages, hparams, hrequest]
      · simp [start, habandoned, hparams, hrequest]
    by_cases hresponder : host.raisesAt item .responder = true
    · refine .inr (.inr (.inl ⟨habandoned, .responder, ?_, rfl, ?_⟩))
      · simp [Host.firstRaise, Host.stages, hparams, hrequest, hresponder]
      · simp [start, habandoned, hparams, hrequest, hresponder]
    by_cases hsocket : host.raisesAt item .socket = true
    · refine .inr (.inr (.inl ⟨habandoned, .socket, ?_, rfl, ?_⟩))
      · simp [Host.firstRaise, Host.stages, hparams, hrequest, hresponder, hsocket]
      · simp [start, habandoned, hparams, hrequest, hresponder, hsocket]
    by_cases hcoroutine : host.raisesAt item .coroutine = true
    · refine .inr (.inr (.inl ⟨habandoned, .coroutine, ?_, rfl, ?_⟩))
      · simp [Host.firstRaise, Host.stages, hparams, hrequest, hresponder, hsocket, hcoroutine]
      · simp [start, habandoned, hparams, hrequest, hresponder, hsocket, hcoroutine]
    by_cases htask : host.raisesAt item .task = true
    · refine .inr (.inr (.inl ⟨habandoned, .task, ?_, rfl, ?_⟩))
      · simp [Host.firstRaise, Host.stages, hparams, hrequest, hresponder, hsocket, hcoroutine, htask]
      · simp [start, habandoned, hparams, hrequest, hresponder, hsocket, hcoroutine, htask]
    by_cases hattach : host.raisesAt item .attach = true
    · refine .inr (.inl ⟨habandoned, ?_, ?_⟩)
      · simp [Host.firstRaise, Host.stages, hparams, hrequest, hresponder, hsocket, hcoroutine, htask,
          hattach]
      · simp [start, habandoned, hparams, hrequest, hresponder, hsocket, hcoroutine, htask, hattach]
    · refine .inl ⟨habandoned, ?_, ?_⟩
      · simp [Host.firstRaise, Host.stages, hparams, hrequest, hresponder, hsocket, hcoroutine, htask,
          hattach]
      · simp [start, habandoned, hparams, hrequest, hresponder, hsocket, hcoroutine, htask, hattach]

lemma leave_wq : (s.leave item).wq = s.wq := by
  unfold leave
  split <;> rfl

lemma leave_started : (s.leave item).started = s.started := by
  unfold leave
  split <;> rfl

lemma leave_dropped : (s.leave item).dropped = s.dropped := by
  unfold leave
  split <;> rfl

lemma leave_failed : (s.leave item).failed = s.failed := by
  unfold leave
  split <;> rfl

lemma leave_pc : (s.leave item).pc = s.pc := by
  unfold leave
  split <;> rfl

/-- One place is given back, in the count of the request's connection. -/
lemma leave_load (c : γ) :
    (s.leave item).load c + ([item].countP fun item => decide (item.connection = some c)) =
      s.load c := by
  unfold leave
  cases hconnection : item.connection with
  | none => simp [hconnection]
  | some d =>
    by_cases hc : d = c
    · subst hc
      simp [hconnection]
    · have hne : c ≠ d := fun h => hc h.symm
      simp [hconnection, hc, Function.update_of_ne hne]

/-- Of the queue, one pass of the loop changes only the in-flight count. -/
lemma start_wq : ∃ n, (start host s item).1.wq = { s.wq with inflight := n } := by
  rcases start_cases host s item with
    ⟨-, hstart⟩ | ⟨-, -, hstart⟩ | ⟨-, -, hstart⟩ | ⟨-, -, -, -, hstart⟩ | ⟨-, -, -, -, hstart⟩
  · exact ⟨s.wq.inflight, by rw [hstart]; exact leave_wq s item⟩
  · exact ⟨s.wq.inflight + 1, by rw [hstart]; rfl⟩
  · exact ⟨s.wq.inflight + 1, by rw [hstart]; rfl⟩
  · exact ⟨s.wq.inflight + 1 - 1, by rw [hstart]; exact leave_wq _ item⟩
  · exact ⟨s.wq.inflight + 1, by rw [hstart]; rfl⟩

lemma start_pc : (start host s item).1.pc = s.pc := by
  rcases start_cases host s item with
    ⟨-, hstart⟩ | ⟨-, -, hstart⟩ | ⟨-, -, hstart⟩ | ⟨-, -, -, -, hstart⟩ | ⟨-, -, -, -, hstart⟩
  · rw [hstart]
    exact leave_pc s item
  · rw [hstart]
  · rw [hstart]
  · rw [hstart]
    exact leave_pc _ item
  · rw [hstart]

end Start

/-! ## The run -/

section Run

variable {host : Host F γ χ} {s₀ s s' : CallState F γ κ χ} {a : CallAction F γ κ χ}

/-- What holds until the callback ends: no call has raised. -/
structure Underway (s₀ s : CallState F γ κ χ) : Prop where
  slots : s.wq.inflight = s₀.wq.inflight + s.started.length
  places : ∀ c, s.load c +
    (s.dropped.countP fun item => decide (item.connection = some c)) = s₀.load c
  failed : s.failed = []
  -- from the clearing of the flag on, a set flag is a byte in the socket
  byte : s.pc ≠ .idle → s.pc ≠ .emptied → s.wq.notified = true → 0 < s.wq.pair.unread

lemma underway_enter (wq : WorkerQueue (Pending F γ χ) κ χ) (load : γ → ℤ) :
    Underway (enter wq load) (enter wq load) where
  slots := by simp [enter]
  places _ := by simp [enter]
  failed := rfl
  byte h := absurd rfl h

omit [DecidableEq γ] in
/-- `wake` leaves a byte in the socket. -/
lemma wake_pending {wq : WorkerQueue (Pending F γ χ) κ χ}
    (h : wq.notified = true → 0 < wq.pair.unread) (now : ℕ) :
    (wq.wake now).notified = true ∧ 0 < (wq.wake now).pair.unread := by
  unfold WorkerQueue.wake
  split
  case isTrue hset => exact ⟨hset, h hset⟩
  case isFalse =>
    refine ⟨rfl, ?_⟩
    change 0 < wq.pair.wake.unread
    unfold WakePair.wake
    have := wq.pair.capacity_pos
    split
    · exact Nat.succ_pos _
    · omega

omit [DecidableEq γ] in
lemma wake_inflight (wq : WorkerQueue (Pending F γ χ) κ χ) (now : ℕ) :
    (wq.wake now).inflight = wq.inflight := by
  unfold WorkerQueue.wake
  split <;> rfl

/-- A push that completes while the callback runs. -/
lemma Underway.push (h : Underway s₀ s) (item : Push (Pending F γ χ) κ χ) (now : ℕ) :
    Underway s₀ { s with wq := (s.wq.append item).wake now } where
  slots := by
    rw [← h.slots]
    change ((s.wq.append item).wake now).inflight = _
    rw [wake_inflight]
    cases item <;> rfl
  places := h.places
  failed := h.failed
  byte hidle hemptied _ := by
    refine (wake_pending (fun hset => ?_) now).2
    cases item <;> exact h.byte hidle hemptied hset

/-- Only a callback that has not ended takes a step. -/
lemma not_ended_of_step (taken : step host s a = some s') : ¬ s.Ended := by
  intro hended
  cases a <;> rcases hended with h | h <;> simp [step, h] at taken

/-- A request popped without a raise. -/
lemma Underway.started (h : Underway s₀ s) (rest : List (Pending F γ χ)) (item : Pending F γ χ)
    (hclear : s.pc = .requests) :
    Underway s₀ { s with
      wq := WorkerQueue.claim { s.wq with queue := rest }, started := s.started ++ [item] } where
  slots := by
    change s.wq.inflight + 1 = _
    rw [h.slots, List.length_append, List.length_singleton]
    push_cast
    ring
  places := h.places
  failed := h.failed
  byte _ _ hset := h.byte (by rw [hclear]; decide) (by rw [hclear]; decide) hset

/-- A request whose client had left. -/
lemma Underway.dropped (h : Underway s₀ s) (rest : List (Pending F γ χ)) (item : Pending F γ χ)
    (hclear : s.pc = .requests) :
    Underway s₀ { leave { s with wq := { s.wq with queue := rest } } item with
      dropped := s.dropped ++ [item] } where
  slots := by
    rw [leave_wq, leave_started]
    exact h.slots
  places c := by
    have hleave := leave_load { s with wq := { s.wq with queue := rest } } item c
    have hplaces := h.places c
    rw [List.countP_append]
    push_cast
    simp only at hleave
    omega
  failed := by
    rw [leave_failed]
    exact h.failed
  byte _ _ hset := by
    rw [leave_wq] at hset ⊢
    exact h.byte (by rw [hclear]; decide) (by rw [hclear]; decide) hset

/-- A step that does not end the callback. -/
lemma Underway.step (h : Underway s₀ s) (taken : step host s a = some s') (hopen : ¬ s'.Ended) :
    Underway s₀ s' := by
  cases a with
  | push item now =>
    obtain ⟨-, rfl⟩ := of_guard taken
    exact h.push item now
  | read =>
    obtain ⟨-, rfl⟩ := of_guard taken
    exact ⟨h.slots, h.places, h.failed, fun _ hne => absurd rfl hne⟩
  | clear =>
    obtain ⟨-, rfl⟩ := of_guard taken
    exact ⟨h.slots, h.places, h.failed, fun _ _ hset => nomatch hset⟩
  | popWakeup =>
    obtain ⟨hpc, taken⟩ := Option.ite_none_right_eq_some.mp taken
    have hbyte := h.byte (by rw [hpc]; decide) (by rw [hpc]; decide)
    split at taken
    · rw [← Option.some.inj taken]
      exact ⟨h.slots, h.places, h.failed, fun _ _ => hbyte⟩
    · rw [← Option.some.inj taken]
      exact ⟨h.slots, h.places, h.failed, fun _ _ => hbyte⟩
  | popCancel =>
    obtain ⟨hpc, taken⟩ := Option.ite_none_right_eq_some.mp taken
    have hbyte := h.byte (by rw [hpc]; decide) (by rw [hpc]; decide)
    split at taken
    · rw [← Option.some.inj taken]
      exact ⟨h.slots, h.places, h.failed, fun _ _ => hbyte⟩
    · rw [← Option.some.inj taken]
      exact ⟨h.slots, h.places, h.failed, fun _ _ => hbyte⟩
  | pop =>
    obtain ⟨hpc, taken⟩ := Option.ite_none_right_eq_some.mp taken
    have hbyte := h.byte (by rw [hpc]; decide) (by rw [hpc]; decide)
    split at taken
    · rw [← Option.some.inj taken]
      exact ⟨h.slots, h.places, h.failed, fun _ _ => hbyte⟩
    case h_2 item rest _ =>
      obtain rfl := Option.some.inj taken
      rcases start_cases host { s with wq := { s.wq with queue := rest } } item with
        ⟨-, hstart⟩ | ⟨-, -, hstart⟩ | ⟨-, -, hstart⟩ | ⟨-, -, -, -, hstart⟩ | ⟨-, -, -, -, hstart⟩
      · rw [hstart]
        exact h.dropped rest item hpc
      · rw [hstart]
        exact h.started rest item hpc
      all_goals exact absurd (.inr (by rw [hstart]; rfl)) hopen
  | rewake now =>
    obtain ⟨-, rfl⟩ := of_guard taken
    exact absurd (.inl rfl) hopen

omit [DecidableEq γ] in
/-- The request loop is left by a raise: what is queued stays queued, and nothing re-arms the wake. -/
lemma woken_iff {wq : WorkerQueue (Pending F γ χ) κ χ} (rest : List (Pending F γ χ)) (n : ℤ)
    (hbyte : wq.notified = true → 0 < wq.pair.unread) :
    (({ wq with queue := rest, inflight := n }.hasPending = true) →
        wq.notified = true ∧ 0 < wq.pair.unread) ↔
      (wq.notified = true ∨ (rest = [] ∧ wq.wakeups = [] ∧ wq.cancels = [])) := by
  have hpending : ({ wq with queue := rest, inflight := n }.hasPending = true) ↔
      ¬ (rest = [] ∧ wq.wakeups = [] ∧ wq.cancels = []) := by
    unfold WorkerQueue.hasPending
    simp only [Bool.or_eq_true, Bool.not_eq_true', List.isEmpty_eq_false_iff]
    tauto
  rw [hpending]
  tauto

omit [DecidableEq γ] in
/-- The condition on the pop of a request on which a call raises. -/
lemma endsWell_pop {item : Pending F γ χ} {rest : List (Pending F γ χ)} {stage : CallStage}
    (hqueue : s.wq.queue = item :: rest) (habandoned : host.isAbandoned item = false)
    (hraise : host.firstRaise item = some stage) :
    EndsWell host s .pop ↔ stage.owned = true ∧
      (s.wq.notified = true ∨ (rest = [] ∧ s.wq.wakeups = [] ∧ s.wq.cancels = [])) := by
  constructor
  · intro hwell
    exact hwell item rest hqueue habandoned stage hraise
  · intro hend item' rest' hqueue' _ stage' hraise'
    obtain ⟨rfl, rfl⟩ := List.cons.inj (hqueue.symm.trans hqueue')
    obtain rfl := Option.some.inj (hraise.symm.trans hraise')
    exact hend

/-- The counts are right after a raise just when a responder was there to give them back. -/
lemma Underway.counts_iff (h : Underway s₀ s) (hpc : s.pc = .requests) {item : Pending F γ χ}
    (rest : List (Pending F γ χ)) {stage : CallStage} (habandoned : host.isAbandoned item = false)
    (hraise : host.firstRaise item = some stage) {t : CallState F γ κ χ}
    (ht : (start host { s with wq := { s.wq with queue := rest } } item).1 = t) :
    (t.wq.inflight = s₀.wq.inflight + t.started.length ∧ ∀ c, t.load c +
      ((t.dropped ++ t.failed).countP fun item => decide (item.connection = some c)) = s₀.load c) ↔
      stage.owned = true := by
  rcases start_cases host { s with wq := { s.wq with queue := rest } } item with
    ⟨hleft, -⟩ | ⟨-, hnone, -⟩ | ⟨-, hraise', hstart⟩ |
      ⟨-, stage', hraise', howned, hstart⟩ | ⟨-, stage', hraise', howned, hstart⟩
  · rw [habandoned] at hleft
    cases hleft
  · rw [hraise] at hnone
    cases hnone
  · -- there is a task, which holds the slot
    obtain rfl := Option.some.inj (hraise.symm.trans hraise')
    refine iff_of_true ⟨?_, fun c => ?_⟩ rfl
    · rw [← ht, hstart]
      exact (h.started rest item hpc).slots
    · rw [← ht, hstart, h.failed, List.append_nil]
      exact h.places c
  · -- the responder gave both back as it was dropped
    obtain rfl := Option.some.inj (hraise.symm.trans hraise')
    refine iff_of_true ⟨?_, fun c => ?_⟩ howned
    · rw [← ht, hstart, releaseOnce, leave_wq, leave_started]
      change s.wq.inflight + 1 - 1 = _
      rw [add_sub_cancel_right]
      exact h.slots
    · rw [← ht, hstart, releaseOnce, leave_dropped, leave_failed, List.countP_append]
      have hleave := leave_load { s with
        wq := WorkerQueue.release (WorkerQueue.claim { s.wq with queue := rest }),
        failed := s.failed ++ [item] } item c
      have hplaces := h.places c
      simp only [h.failed, List.nil_append] at hleave ⊢
      push_cast
      omega
  · -- the slot was claimed, and nobody gives it back
    obtain rfl := Option.some.inj (hraise.symm.trans hraise')
    refine iff_of_false (fun hcounts => ?_) (by simp [howned])
    have hslots := hcounts.1
    have hbefore := h.slots
    rw [← ht, hstart] at hslots
    simp only [WorkerQueue.claim] at hslots
    omega

/-- The pop that ends the callback. -/
lemma Underway.contained_pop (h : Underway s₀ s) (hpc : s.pc = .requests) {item : Pending F γ χ}
    {rest : List (Pending F γ χ)} (hqueue : s.wq.queue = item :: rest) {stage : CallStage}
    (habandoned : host.isAbandoned item = false) (hraise : host.firstRaise item = some stage) :
    Contained s₀ { (start host { s with wq := { s.wq with queue := rest } } item).1 with
      pc := .raised } ↔ EndsWell host s .pop := by
  have hbyte := h.byte (by rw [hpc]; decide) (by rw [hpc]; decide)
  have hcounts := h.counts_iff hpc rest habandoned hraise rfl
  obtain ⟨n, hwq⟩ := start_wq host { s with wq := { s.wq with queue := rest } } item
  rw [endsWell_pop hqueue habandoned hraise, ← hcounts]
  generalize (start host { s with wq := { s.wq with queue := rest } } item).1 = t at hwq
  rw [← woken_iff rest n hbyte]
  constructor
  · intro hcontained
    have hwoken := hcontained.woken
    simp only [hwq] at hwoken
    exact ⟨⟨hcontained.slots, hcontained.places⟩, hwoken⟩
  · intro hend
    refine ⟨hend.1.1, hend.1.2, ?_⟩
    simp only [hwq]
    exact hend.2

/-- The step that ends the callback. -/
lemma Underway.contained_iff (h : Underway s₀ s) (taken : CallState.step host s a = some s')
    (hended : s'.Ended) : Contained s₀ s' ↔ EndsWell host s a := by
  cases a with
  | push item now =>
    obtain ⟨⟨hreturned, hraised⟩, rfl⟩ := of_guard taken
    exact absurd hended (not_or.mpr ⟨hreturned, hraised⟩)
  | read | clear =>
    obtain ⟨-, rfl⟩ := of_guard taken
    rcases hended with hended | hended <;> cases hended
  | popWakeup | popCancel =>
    obtain ⟨hpc, taken⟩ := Option.ite_none_right_eq_some.mp taken
    split at taken
    all_goals
      rw [← Option.some.inj taken] at hended
      rcases hended with hended | hended <;> simp [hpc] at hended
  | pop =>
    obtain ⟨hpc, taken⟩ := Option.ite_none_right_eq_some.mp taken
    split at taken
    · rw [← Option.some.inj taken] at hended
      rcases hended with hended | hended <;> cases hended
    case h_2 item rest hqueue =>
      obtain rfl := Option.some.inj taken
      by_cases hraised : (start host { s with wq := { s.wq with queue := rest } } item).2 = true
      · rw [if_pos hraised]
        rcases start_cases host { s with wq := { s.wq with queue := rest } } item with
          ⟨-, hstart⟩ | ⟨-, -, hstart⟩ | ⟨habandoned, hraise, -⟩ | ⟨habandoned, stage, hraise, -⟩ |
            ⟨habandoned, stage, hraise, -⟩
        · simp [hstart] at hraised
        · simp [hstart] at hraised
        all_goals exact h.contained_pop hpc hqueue habandoned hraise
      · rw [if_neg hraised] at hended
        have hstart := (start_pc host { s with wq := { s.wq with queue := rest } } item).trans hpc
        rcases hended with hended | hended <;> exact absurd (hstart.symm.trans hended) (by decide)
  | rewake now =>
    obtain ⟨hpc, rfl⟩ := of_guard taken
    have hbyte := h.byte (by rw [hpc]; decide) (by rw [hpc]; decide)
    refine iff_of_true ⟨?_, ?_, ?_⟩ trivial
    · refine Eq.trans ?_ h.slots
      change (s.wq.rewakeIfPending now).inflight = _
      unfold WorkerQueue.rewakeIfPending
      split
      · exact wake_inflight _ _
      · rfl
    · intro c
      simpa [h.failed] using h.places c
    · intro hpending
      change (s.wq.rewakeIfPending now).hasPending = true at hpending
      change (s.wq.rewakeIfPending now).notified = true ∧
        0 < (s.wq.rewakeIfPending now).pair.unread
      unfold WorkerQueue.rewakeIfPending at hpending ⊢
      split
      · exact wake_pending hbyte now
      case isFalse hnone =>
        rw [if_neg hnone] at hpending
        exact absurd hpending hnone

variable (host) in
/-- **What a raise in the drain callback costs.**  However pushes from other threads and from the
callbacks fall in between, when the callback returns or raises, the slots and places of the requests it
popped are accounted for and what is queued has a wake on its way, just when the step that ended it was
not the pop of a request on which a call raised before it had a responder, or with something queued
behind it and nothing pushed since the flag was cleared. -/
theorem drain_contained_iff (wq : WorkerQueue (Pending F γ χ) κ χ) (load : γ → ℤ)
    (run : Reachable (step host) (enter wq load) s) (taken : step host s a = some s')
    (ended : s'.Ended) : Contained (enter wq load) s' ↔ EndsWell host s a := by
  have hunderway : s.Ended ∨ Underway (enter wq load) s := by
    refine run.invariant (I := fun s => s.Ended ∨ Underway (enter wq load) s)
      (.inr (underway_enter wq load)) ?_
    intro s a s' h taken
    rcases h with h | h
    · exact absurd h (not_ended_of_step taken)
    · by_cases hended : s'.Ended
      · exact .inl hended
      · exact .inr (h.step taken hended)
  rcases hunderway with h | h
  · exact absurd h (not_ended_of_step taken)
  · exact h.contained_iff taken ended

end Run

/-- A queue that holds requests and has been woken for them. -/
def batch (items : List (Pending Unit ℕ Unit)) : WorkerQueue (Pending Unit ℕ Unit) Unit Unit where
  queue := items
  wakeups := []
  cancels := []
  notified := true
  notifiedAt := some 0
  pair := ⟨1, 1, by decide⟩
  inflight := 0
  limit := 8

/-- A host on which `create_task` raises, with a route without parameters. -/
def closedLoop : Host Unit ℕ Unit where
  spec _ := []
  other := canonicalForms
  raises stage _ := stage == .task
  abandoned _ := false

/-- A request without parameters, on the connection 0. -/
def plainRequest : Pending Unit ℕ Unit := ⟨0, [], false, false, some 0, none⟩

/-- `create_task` raises on the last request of a batch, which gives back its slot and its place. -/
theorem drain_contained_lastTask :
    Contained (enter (batch [plainRequest]) fun _ => 1)
      { releaseOnce (enter (batch [plainRequest]) fun _ => 1) plainRequest with
        wq := { batch [] with
          notified := false, notifiedAt := none, pair := WakePair.drain ⟨1, 1, by decide⟩ }
        failed := [plainRequest], pc := .raised } := by
  refine (drain_contained_iff (a := .pop) closedLoop (batch [plainRequest]) (fun _ => 1)
    (Reachable.of_exec [.read, .clear, .popWakeup, .popCancel] rfl) rfl (.inr rfl)).mpr ?_
  intro item rest hqueue _ stage hraise
  obtain ⟨rfl, rfl⟩ := List.cons.inj hqueue
  obtain rfl : CallStage.task = stage := Option.some.inj hraise
  exact ⟨rfl, .inr ⟨rfl, rfl, rfl⟩⟩

/-! ## A date of the year 0 -/

/-- A host on which nothing raises by itself, with one route that takes a date. -/
def dateHost : Host Unit ℕ Unit where
  spec _ := [dayParam]
  other := canonicalForms
  raises _ _ := false
  abandoned _ := false

/-- A request for a day, on the connection 0. -/
def dayRequest (day : String) : Pending Unit ℕ Unit := ⟨0, [.date day], false, false, some 0, none⟩

/-- `date.fromisoformat` raises on a date of the year 0. -/
lemma raisesAt_yearZero : dateHost.raisesAt (dayRequest "0000-01-01") .params = true := by
  have hdate : makeDate canonicalForms ['0', '0', '0', '0', '-', '0', '1', '-', '0', '1'] = none := rfl
  simp [Host.raisesAt, Host.arguments, dateHost, dayRequest, toPython, hdate]

/-- The loop about to pop two requests, the first of them for a day of the year 0. -/
def beforePop : CallState Unit ℕ Unit Unit :=
  { enter (batch [dayRequest "0000-01-01", dayRequest "2024-02-29"]) fun _ => 2 with
    wq := { batch [dayRequest "0000-01-01", dayRequest "2024-02-29"] with
      notified := false, notifiedAt := none, pair := WakePair.drain ⟨1, 1, by decide⟩ }
    pc := .requests }

/-- The first of two requests raises as its parameter is built: its slot and its place are never given
back, and the second stays queued without a wake. -/
theorem year_zero_stalls_batch :
    ∃ s, Reachable (step dateHost)
        (enter (batch [dayRequest "0000-01-01", dayRequest "2024-02-29"]) fun _ => 2) s ∧
      s.Ended ∧ s.wq.inflight = 1 ∧ s.started = [] ∧ s.load 0 = 2 ∧
      s.wq.queue = [dayRequest "2024-02-29"] ∧ s.wq.notified = false ∧
      ¬ Contained (enter (batch [dayRequest "0000-01-01", dayRequest "2024-02-29"]) fun _ => 2) s := by
  have hbefore : Reachable (step dateHost)
      (enter (batch [dayRequest "0000-01-01", dayRequest "2024-02-29"]) fun _ => 2) beforePop :=
    Reachable.of_exec [.read, .clear, .popWakeup, .popCancel] rfl
  have hstart : start dateHost { beforePop with
      wq := { beforePop.wq with queue := [dayRequest "2024-02-29"] } } (dayRequest "0000-01-01") =
      ({ beforePop with
        wq := WorkerQueue.claim { beforePop.wq with queue := [dayRequest "2024-02-29"] }
        failed := [dayRequest "0000-01-01"] }, true) := by
    have hleft : dateHost.isAbandoned (dayRequest "0000-01-01") = false := rfl
    unfold start
    rw [hleft, raisesAt_yearZero]
    rfl
  refine ⟨{ beforePop with
    wq := WorkerQueue.claim { beforePop.wq with queue := [dayRequest "2024-02-29"] }
    failed := [dayRequest "0000-01-01"], pc := .raised }, hbefore.next .pop trivial ?_, .inr rfl, rfl,
    rfl, rfl, rfl, rfl, ?_⟩
  · change some (if (start dateHost { beforePop with
      wq := { beforePop.wq with queue := [dayRequest "2024-02-29"] } }
      (dayRequest "0000-01-01")).2 then _ else _) = _
    rw [hstart]
    rfl
  · intro hcontained
    have hslots := hcontained.slots
    cases hslots

end CallState

end Oxbrook
