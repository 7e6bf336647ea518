import Oxbrook.Bodies.Moves

/-!
# The end of a streaming request

The pump of a streaming or deferring route runs inside the request's own future (`handle` and
`wait_while_streaming` of `src/server.rs`): a `select!` between the reply, the pump and the timeout,
then, for an HTTP/1.1 client that is not waiting on `100 Continue`, a last while in which the rest of
the body is read away.  When the future ends, the pump is dropped with it, and a guard inside the pump
tells a handler that is still reading.

The guard is created by the first poll of the pump.  `select!` polls its branches in an order of its
own, so a reply (or a timeout) that is there at the first poll may be taken before the pump was polled
at all; without the lingering that follows on HTTP/1.1 there is then no guard, and nobody is told
(`reply_first_tells_nobody`).  `reader_told` says that this is the only way.
-/

namespace Oxbrook

open StepMachine

variable {κ : Type*}

/-! ## The request's future -/

/-- Where the request's future stands: the request is in a worker's queue and its body not yet bound to
it; inside `wait_while_streaming`; reading away what is left; being dropped, or past its last use of the
pump; gone. -/
inductive FuturePc
  | queued
  | waiting
  | lingering
  | dropping
  | gone
  deriving DecidableEq

/-- A request: its body, its future, and every callback the handler ever gave to `notify` or
`collect`. -/
structure RequestState (κ : Type*) where
  body : BodyState κ
  future : FuturePc
  installed : List κ

/-- One step: of the future, of the pump it polls, of the pump's idle timer, or of the handler. -/
inductive RequestAction (κ : Type*)
  | bind
  | pump
  | idle
  | reply
  | timeout
  -- the connection drops the future
  | clientGone
  | lingered
  | dropPump
  | finish
  | poll
  | take
  | collect (callback : κ)
  | notify (callback : κ)
  | handler

/-- The places at which the pump has yielded: the only ones at which its future can be dropped. -/
def PumpPc.atAwait : PumpPc → Bool
  | .unpolled | .waiting | .throttled | .reading | .lingering _ | .gone => true
  | _ => false

/-- Whether an early answer reads away what the client is sending: not over HTTP/2, and not for a client
that waits on `100 Continue`. -/
def lingers (http2 expectsContinue : Bool) : Bool := !http2 && !expectsContinue

namespace RequestState

/-- A request just handed to a worker. -/
def new (args : PumpArgs) : RequestState κ := ⟨BodyState.new args, .queued, []⟩

/-- A step of the body, the callbacks aside. -/
def bodyStep (args : PumpArgs) (s : RequestState κ) (a : BodyAction κ) : Option (RequestState κ) :=
  (s.body.step args a).map fun body => { s with body := body }

/-- `wait_while_streaming` has returned.  Unless the body is finished, one that lingers is told to
discard what is left. -/
def leave (linger : Bool) (s : RequestState κ) : RequestState κ :=
  if linger && !s.body.finished then
    { s with body := { s.body with discard := true, permit := true }, future := .lingering }
  else { s with future := .dropping }

/-- The step function of a request. -/
def step (args : PumpArgs) (linger : Bool) (s : RequestState κ) :
    RequestAction κ → Option (RequestState κ)
  | .bind => if s.future = .queued then some { s with future := .waiting } else none
  | .pump =>
    -- while it is dropped, only the guard inside it still runs
    if s.future = .waiting ∨ s.future = .lingering ∨
        (s.future = .dropping ∧ s.body.pump.atAwait = false) then s.bodyStep args .pump else none
  | .idle =>
    if s.future = .waiting ∨ s.future = .lingering then s.bodyStep args .timeout else none
  | .reply | .timeout =>
    if s.future = .waiting ∧ s.body.pump.atAwait = true then some (s.leave linger) else none
  -- the future yields only after it has polled the pump
  | .clientGone =>
    if (s.future = .waiting ∨ s.future = .lingering) ∧ s.body.pump.atAwait = true ∧
        s.body.pump ≠ .unpolled then some { s with future := .dropping } else none
  | .lingered =>
    if s.future = .lingering ∧ s.body.pump.atAwait = true ∧ s.body.pump ≠ .unpolled then
      some { s with future := .dropping } else none
  | .dropPump => if s.future = .dropping then s.bodyStep args .drop else none
  | .finish =>
    if s.future = .dropping ∧ s.body.pump = .gone then some { s with future := .gone } else none
  | .poll => s.bodyStep args .poll
  | .take => s.bodyStep args .take
  | .collect callback =>
    (s.bodyStep args (.collect callback)).map fun s =>
      { s with installed := s.installed ++ [callback] }
  | .notify callback =>
    (s.bodyStep args (.notify callback)).map fun s =>
      { s with installed := s.installed ++ [callback] }
  | .handler => s.bodyStep args .handler

end RequestState

/-! ## What a reader is told -/

/-- The callback `collect` was given and has not yet installed. -/
def HandlerPc.installing : HandlerPc κ → List κ
  | .collecting callback => [callback]
  | _ => []

/-- A reader is told that the body ended: `finished` is set, the marker is in the queue (or in the hand
of a `poll` that puts it back), and every callback it ever installed has been handed to the worker's
queue, or is as soon as the call that is installing it returns. -/
structure Told (s : RequestState κ) : Prop where
  finished : s.body.finished = true
  marker : ∃ m : Chunk, m.IsMarker ∧ m ∈ s.body.queueOf
  handed : s.body.handler = .idle → s.body.woken = s.installed
  noneWaits : s.body.waiters ≠ [] → s.body.handler.Checking

/-- The reply or the timeout is taken after the pump was polled, or by a request that lingers. -/
def PolledFirst (linger : Bool) (s : RequestState κ) : RequestAction κ → Prop
  | .reply | .timeout => s.body.pump ≠ .unpolled ∨ linger = true
  | _ => True

instance (linger : Bool) (s : RequestState κ) :
    (a : RequestAction κ) → Decidable (PolledFirst linger s a)
  | .reply | .timeout => inferInstanceAs (Decidable (_ ∨ _))
  | .bind | .pump | .idle | .clientGone | .lingered | .dropPump | .finish | .poll | .take | .collect _ |
      .notify _ | .handler => .isTrue trivial

/-! ## The callbacks -/

/-- The callback a call of the handler brings. -/
def BodyAction.callback : BodyAction κ → List κ
  | .collect callback | .notify callback => [callback]
  | _ => []

/-- Once the pump has pushed the marker and woken, a callback only waits for the end of the call that is
installing it. -/
def Woken (s : BodyState κ) : Prop :=
  s.finished = true → (s.pump = .returned ∨ s.pump = .gone) → s.waiters ≠ [] → s.handler.Checking

section Callbacks

variable {args : PumpArgs} {s s' : BodyState κ} {a : BodyAction κ}

/-- No step loses a callback. -/
lemma BodyMove.callbacks (move : BodyMove args s a s') :
    s'.woken ++ s'.waiters ++ s'.handler.installing =
      s.woken ++ s.waiters ++ s.handler.installing ++ a.callback := by
  cases move with
  | pump move => cases move <;> simp [BodyAction.callback]
  | handler move =>
    cases move <;> simp_all [BodyAction.callback, HandlerPc.installing, BodyState.answer,
      BodyState.takeStep]
  | _ => simp_all [BodyAction.callback, HandlerPc.installing, BodyState.answer]

/-- A step of the pump wakes before the pump is done. -/
lemma Woken.pumpMove (h : Woken s) (marked : Marked s) (move : PumpMove args s s') : Woken s' := by
  cases move
  case wake => exact fun _ _ hwaiters => absurd rfl hwaiters
  case quiet chunk hpc _ hfinished => exact fun hset => absurd hset (by simp [hfinished])
  case lingered hpc =>
    have hnone : s.marker = none := by simpa [PumpPc.MarkerOk, hpc] using marked.markerOk
    exact fun hset => absurd (marked.finished.symm.trans hset) (by simp [hnone])
  case gone hpc _ => exact fun hset _ => h hset (.inl hpc)
  all_goals exact fun _ hpc => absurd hpc (by simp)

/-- A step of the handler wakes before the call is over. -/
lemma Woken.handlerMove (h : Woken s) (marked : Marked s) (move : HandlerMove s s') : Woken s' := by
  intro hset hpump hwaiters
  cases move
  case notifyWait hpc hchunks =>
    obtain ⟨m, -, hmem⟩ := marked.mem_queueOf hset hpump
    simp [BodyState.queueOf, BodyState.inHand, hpc, hchunks] at hmem
  case collectWait hfinished => exact absurd hset (by simp [hfinished])
  case notifyWake | collectWake => exact absurd rfl hwaiters
  case install | collectDemand => trivial
  case nothing hpc _ | wanting hpc _ | relieve hpc | ended hpc | failed hpc | demand hpc | data hpc |
      take hpc =>
    have hchecking := h hset hpump hwaiters
    rw [hpc] at hchecking
    exact absurd hchecking id

/-- A step of a body that is not dropped unpolled. -/
lemma Woken.step (h : Woken s) (marked : Marked s) (hs : s.step args a = some s') : Woken s' := by
  cases bodyMove_of_step hs with
  | pump move => exact h.pumpMove marked move
  | handler move => exact h.handlerMove marked move
  | timeout => exact fun _ hpc => absurd hpc (by simp)
  | dropUnpolled hpc =>
    have hnone : s.marker = none := by simpa [PumpPc.MarkerOk, hpc] using marked.markerOk
    exact fun hset => absurd (marked.finished.symm.trans hset) (by simp [hnone])
  | drop hpc =>
    have hnone : s.marker = none := by
      have hok := marked.markerOk
      rcases hpc with hpc | hpc | hpc | ⟨refusal, hpc⟩ <;> simpa [PumpPc.MarkerOk, hpc] using hok
    exact fun hset => absurd (marked.finished.symm.trans hset) (by simp [hnone])
  | discard => exact h
  | notify => exact fun _ _ _ => trivial
  | poll hidle | take hidle _ | takePending hidle _ | collect callback hidle =>
    intro hset hpump hwaiters
    have hchecking := h hset hpump hwaiters
    rw [hidle] at hchecking
    exact absurd hchecking id

end Callbacks

/-! ## The end of the request -/

/-- What holds along a run in which the pump was polled before the request ended. -/
structure Attended (s : RequestState κ) : Prop where
  marked : Marked s.body
  woken : Woken s.body
  kept : s.body.woken ++ s.body.waiters ++ s.body.handler.installing = s.installed
  -- a pump that is gone has told how the body ended
  guarded : s.body.pump = .gone → s.body.finished = true
  polled : s.future = .dropping → s.body.pump ≠ .unpolled
  dropped : s.future = .gone → s.body.pump = .gone

section Run

variable {args : PumpArgs} {linger : Bool} {s s' : RequestState κ} {a : RequestAction κ}

lemma attended_new (args : PumpArgs) : Attended (RequestState.new args : RequestState κ) where
  marked := marked_new args
  woken h := by cases h
  kept := rfl
  guarded h := by cases h
  polled h := by cases h
  dropped h := by cases h

/-- A step of the body keeps what was said about it. -/
lemma Attended.body (h : Attended s) {b : BodyAction κ} {body : BodyState κ}
    (hbody : s.body.step args b = some body) (hpolled : b = .drop → s.body.pump ≠ .unpolled) :
    Attended { s with body := body, installed := s.installed ++ b.callback } := by
  have hmove := bodyMove_of_step hbody
  refine ⟨h.marked.step hbody, h.woken.step h.marked hbody, ?_, ?_, ?_, ?_⟩
  · rw [hmove.callbacks, h.kept]
  · intro hgone
    rcases hmove.gone hgone with hfinished | ⟨hbefore, hfinished⟩ | ⟨hdrop, hunpolled⟩
    · exact hfinished
    · exact hfinished.trans (h.guarded hbefore)
    · exact absurd hunpolled (hpolled hdrop)
  · exact fun hfuture hunpolled => h.polled hfuture (hmove.pump_kept.1 hunpolled)
  · exact fun hfuture => hmove.pump_kept.2 (h.dropped hfuture)

lemma Attended.bodyStep (h : Attended s) {b : BodyAction κ} (hb : b.callback = [])
    (hs : s.bodyStep args b = some s') (hpolled : b = .drop → s.body.pump ≠ .unpolled) :
    Attended s' := by
  obtain ⟨body, hbody, rfl⟩ := Option.map_eq_some_iff.mp hs
  have hnext := h.body hbody hpolled
  rw [hb, List.append_nil] at hnext
  exact hnext

/-- A step of the future that leaves the body alone. -/
lemma Attended.future (h : Attended s) {pc : FuturePc}
    (hpolled : pc = .dropping → s.body.pump ≠ .unpolled)
    (hover : pc = .gone → s.body.pump = .gone) : Attended { s with future := pc } :=
  ⟨h.marked, h.woken, h.kept, h.guarded, hpolled, hover⟩

/-- `wait_while_streaming` returns after the pump was polled, or into the lingering. -/
lemma Attended.leave (h : Attended s) (hok : s.body.pump ≠ .unpolled ∨ linger = true) :
    Attended (s.leave linger) := by
  unfold RequestState.leave
  split
  case isTrue hlingers =>
    exact ⟨⟨h.marked.markerOk, h.marked.finished, h.marked.queued, h.marked.only, h.marked.taking⟩,
      h.woken, h.kept, h.guarded, nofun, nofun⟩
  case isFalse hlingers =>
    refine h.future (fun _ hunpolled => hlingers ?_) nofun
    have hnone : s.body.marker = none := by
      simpa [PumpPc.MarkerOk, hunpolled] using h.marked.markerOk
    have hunfinished : s.body.finished = false := by simp [h.marked.finished, hnone]
    simp [hok.resolve_left (not_not.mpr hunpolled), hunfinished]

/-- A step of a request in which the pump was polled first. -/
lemma Attended.step (h : Attended s) (hok : PolledFirst linger s a)
    (hs : s.step args linger a = some s') : Attended s' := by
  cases a with
  | bind =>
    obtain ⟨-, rfl⟩ := of_guard hs
    exact h.future nofun nofun
  | pump =>
    obtain ⟨-, hs⟩ := Option.ite_none_right_eq_some.mp hs
    exact h.bodyStep rfl hs nofun
  | idle =>
    obtain ⟨-, hs⟩ := Option.ite_none_right_eq_some.mp hs
    exact h.bodyStep rfl hs nofun
  | reply | timeout =>
    obtain ⟨-, rfl⟩ := of_guard hs
    exact h.leave hok
  | clientGone =>
    obtain ⟨⟨-, -, hpolled⟩, rfl⟩ := of_guard hs
    exact h.future (fun _ => hpolled) nofun
  | lingered =>
    obtain ⟨⟨-, -, hpolled⟩, rfl⟩ := of_guard hs
    exact h.future (fun _ => hpolled) nofun
  | dropPump =>
    obtain ⟨hfuture, hs⟩ := Option.ite_none_right_eq_some.mp hs
    exact h.bodyStep rfl hs (fun _ => h.polled hfuture)
  | finish =>
    obtain ⟨⟨-, hgone⟩, rfl⟩ := of_guard hs
    exact h.future nofun (fun _ => hgone)
  | poll | take | handler => exact h.bodyStep rfl hs nofun
  | collect callback | notify callback =>
    obtain ⟨t, ht, rfl⟩ := Option.map_eq_some_iff.mp hs
    obtain ⟨body, hbody, rfl⟩ := Option.map_eq_some_iff.mp ht
    exact h.body hbody nofun

/-- **A reader is told that the body ended.**  In every run in which the reply or the timeout is taken
after the pump was polled, or by a request that lingers, a reader is told from the moment the request's
future is gone. -/
theorem reader_told (args : PumpArgs) (linger : Bool)
    (run : Reaches (RequestState.step args linger) (PolledFirst linger) (RequestState.new args) s)
    (gone : s.future = .gone) : Told s := by
  have h : Attended s :=
    run.invariant (attended_new args) fun _ _ _ h hok hs => h.step hok hs
  have hpump := h.dropped gone
  have hfinished := h.guarded hpump
  have hwaits : s.body.waiters ≠ [] → s.body.handler.Checking := h.woken hfinished (.inr hpump)
  refine ⟨hfinished, h.marked.mem_queueOf hfinished (.inr hpump), fun hidle => ?_, hwaits⟩
  have hnone : s.body.waiters = [] := by
    by_contra hsome
    have hchecking := hwaits hsome
    rw [hidle] at hchecking
    exact hchecking
  have hkept := h.kept
  rw [hidle, hnone] at hkept
  simpa [HandlerPc.installing] using hkept

end Run

/-- A handler asks for a body, is told to wait and installs a callback, and the reply is there before the
pump was polled. -/
def replyFirst : List (RequestAction ℕ) :=
  [.bind, .poll, .handler, .handler, .notify 7, .handler, .reply]

/-- On HTTP/1.1 the pump is polled by the lingering, and the reader is told. -/
theorem reader_told_http1 :
    ∃ s : RequestState ℕ, Reaches (RequestState.step cleanUpload (lingers false false))
        (PolledFirst (lingers false false)) (RequestState.new cleanUpload) s ∧
      s.future = .gone ∧ s.body.woken = [7] ∧ Told s := by
  have run : Reaches (RequestState.step cleanUpload (lingers false false))
      (PolledFirst (lingers false false)) (RequestState.new cleanUpload) (_ : RequestState ℕ) :=
    Reaches.of_exec (replyFirst ++ List.replicate 10 .pump ++ [.lingered, .finish]) rfl
  exact ⟨_, run, rfl, rfl, reader_told cleanUpload (lingers false false) run rfl⟩

/-- On HTTP/2 it is dropped unpolled: the request's future is gone, and the callback waits for ever. -/
theorem reply_first_tells_nobody :
    ∃ s : RequestState ℕ, Reachable (RequestState.step cleanUpload (lingers true false))
        (RequestState.new cleanUpload) s ∧
      s.future = .gone ∧ s.body.finished = false ∧ s.body.waiters = [7] ∧ s.body.woken = [] ∧
      ¬ Told s := by
  refine ⟨_, Reachable.of_exec (replyFirst ++ [.dropPump, .finish]) rfl, rfl, rfl, rfl, rfl, ?_⟩
  intro told
  cases told.finished

end Oxbrook
