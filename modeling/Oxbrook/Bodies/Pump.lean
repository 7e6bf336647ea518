import Mathlib.Data.List.Basic
import Oxbrook.Foundation.Runs

/-!
# A streamed request body: the pump and its reader

The model of `src/body.rs`.  The connection's future runs `pump`, which moves the frames of the body
into the shared queue `chunks`; the handler takes them out on its worker's thread with `poll`, or all
at once with `take`.  The two sides share `BodyShared`, whose fields are atomics and mutexes, so each
of them is one *thread* here and each atomic operation, or section under one lock, is one step:

* `push` first adds to `buffered` or stores `finished`, then appends the chunk under the lock, then
  looks at `whole` and wakes the waiting callbacks;
* `poll` pops under the lock and then acts on what it got, putting a marker back under the lock;
* `take` loads `finished` and then empties the queue under the lock.

The pump's future can be dropped at each of its awaits (`drop`); the guard inside it then pushes a
failure unless the body had finished.  The frames a client sends are a parameter of the run, and
`None` from hyper is the end of the list.  The times of `progress` and `reading` only feed timeouts
and are left out; the idle timeout is a step that may happen whenever a frame is awaited.
-/

namespace Oxbrook

/-! ## Chunks, frames and answers -/

/-- The bytes of a body. -/
abbrev Bytes := List UInt8

/-- `Failure`: why a body did not arrive. -/
inductive Failure
  | tooLarge (limit : ℕ)
  | idle
  | incomplete
  deriving DecidableEq, Repr

/-- The status and detail a handler sees for a body that did not arrive. -/
def describe : Failure → ℕ × String
  | .tooLarge limit => (413, s!"request body larger than {limit} bytes")
  | .idle => (408, "request body stalled")
  | .incomplete => (400, "request body ended early")

/-- `Chunk`: a piece of the body, or the marker that ends it. -/
inductive Chunk
  | data (bytes : Bytes)
  | ended
  | failed (failure : Failure)
  deriving DecidableEq, Repr

/-- What hyper's `frame()` yields before it yields `None`. -/
inductive Frame
  | data (bytes : Bytes)
  | trailers
  | error
  deriving DecidableEq, Repr

/-- The data of a list of chunks. -/
def dataOf (chunks : List Chunk) : Bytes :=
  chunks.flatMap fun
    | .data bytes => bytes
    | _ => []

/-- The data of the frames of a body. -/
def bodyOf (frames : List Frame) : Bytes :=
  frames.flatMap fun
    | .data bytes => bytes
    | _ => []

/-- What `poll` and `take` answer. -/
inductive Answer
  | pollData (bytes : Bytes)
  | pollPending
  | pollEnd
  | pollFailed (status : ℕ) (detail : String)
  | takePending
  | takeEnd (bytes : Bytes)
  | takeFailed (status : ℕ) (detail : String)
  deriving DecidableEq, Repr

/-- What one round of `read_body` does with the answer of `take`: return the body, raise
`HTTPError(status, detail)`, or install a callback and wait. -/
inductive ReadBody
  | returned (body : Bytes)
  | raised (status : ℕ) (detail : String)
  | waiting
  deriving DecidableEq, Repr

/-- One round of the loop of `read_body`. -/
def readBody : Answer → ReadBody
  | .takeEnd bytes => .returned bytes
  | .takeFailed status detail => .raised status detail
  | _ => .waiting

/-- Whether an answer tells the handler that the body is complete. -/
def Answer.IsEnd : Answer → Prop
  | .pollEnd | .takeEnd _ => True
  | _ => False

/-! ## The two threads -/

/-- Bytes allowed to sit between the socket and the handler. -/
def highWater : ℕ := 1024 * 1024

/-- Where `pump` stands.  `pushing`, `appending`, `announcing` and `waking` are the steps of `push`;
`returned` is the drop of the guard inside the pump, and `gone` the end. -/
inductive PumpPc
  | unpolled
  | waiting
  | demanded
  | lingering (refusal : Option Failure)
  -- the three loads of the high-water loop
  | loadBuffered
  | loadWhole
  | loadDiscard
  | throttled
  | checkDiscard
  | reading
  | pushing (chunk : Chunk)
  | appending (chunk : Chunk)
  | announcing (chunk : Chunk)
  | waking (chunk : Chunk)
  | returned
  | gone
  deriving DecidableEq, Repr

/-- Where the handler stands in a call of `poll`, `take`, `collect` or `notify`. -/
inductive HandlerPc (κ : Type*)
  | idle
  -- `poll` has popped, and acts on what it got
  | polled (chunk : Option Chunk)
  | demanding
  | relieved (bytes : Bytes) (crossed : Bool)
  -- `take` has loaded `finished` and found it set
  | taking
  | collecting (callback : κ)
  | collectDemand
  | collectCheck
  | notifying
  deriving DecidableEq, Repr

/-- The handler is between two calls. -/
def HandlerPc.isIdle {κ : Type*} : HandlerPc κ → Bool
  | .idle => true
  | _ => false

/-- The body, its pump and its reader.  The last five fields record history: everything the pump has
appended, the marker it has started to push, what `poll` and what `take` have given out, and every
answer. -/
structure BodyState (κ : Type*) where
  chunks : List Chunk
  buffered : ℕ
  -- the stored permit of `demand`
  permit : Bool
  waiters : List κ
  finished : Bool
  whole : Bool
  discard : Bool
  -- callbacks handed to the worker's queue
  woken : List κ
  -- what the client has still to send
  frames : List Frame
  total : ℕ
  pump : PumpPc
  handler : HandlerPc κ
  sent : Bytes
  marker : Option Chunk
  polled : Bytes
  taken : Bytes
  answers : List Answer
  deriving DecidableEq, Repr

/-- The arguments of one `pump` call; `idle` says whether there is an idle timeout. -/
structure PumpArgs where
  frames : List Frame
  declaredLength : Option ℕ
  maxBody : ℕ
  idle : Bool

/-- One step: of the pump, of the idle timer, of whoever owns the pump's future, or of the
handler. -/
inductive BodyAction (κ : Type*)
  | pump
  | timeout
  | drop
  | discard
  -- the handler starts a call
  | poll
  | take
  | collect (callback : κ)
  | notify (callback : κ)
  -- the handler's next step inside a call
  | handler

namespace BodyState

variable {κ : Type*}

/-- A body of which nothing has been asked. -/
def new (args : PumpArgs) : BodyState κ where
  chunks := []
  buffered := 0
  permit := false
  waiters := []
  finished := false
  whole := false
  discard := false
  woken := []
  frames := args.frames
  total := 0
  pump := .unpolled
  handler := .idle
  sent := []
  marker := none
  polled := []
  taken := []
  answers := []

/-- Hand every waiting callback to the worker's queue. -/
def wake (s : BodyState κ) : BodyState κ :=
  { s with woken := s.woken ++ s.waiters, waiters := [] }

/-- The pump has the next frame, or the end of the body. -/
def frameStep (args : PumpArgs) (s : BodyState κ) : BodyState κ :=
  match s.frames with
  | [] => { s with pump := .pushing .ended }
  | .error :: _ => { s with pump := .pushing (.failed .incomplete) }
  | .trailers :: rest => { s with frames := rest, pump := .loadBuffered }
  | .data bytes :: rest =>
    let total := s.total + bytes.length
    if args.maxBody < total then
      { s with frames := rest, total := total, pump := .lingering (some (.tooLarge args.maxBody)) }
    else if bytes.isEmpty then
      { s with frames := rest, total := total, pump := .loadBuffered }
    else { s with frames := rest, total := total, pump := .pushing (.data bytes) }

/-- The first step of `push`: data is added to `buffered`, a marker sets `finished`. -/
def pushStep (s : BodyState κ) (chunk : Chunk) : BodyState κ :=
  match chunk with
  | .data bytes =>
    { s with buffered := s.buffered + bytes.length, pump := .appending chunk }
  | marker => { s with finished := true, marker := some marker, pump := .appending chunk }

/-- Where the pump goes on after a `push`: the loop after data, the end after a marker. -/
def afterPush : Chunk → PumpPc
  | .data _ => .loadBuffered
  | _ => .returned

/-- The next step of `pump`. -/
def pumpStep (args : PumpArgs) (s : BodyState κ) : Option (BodyState κ) :=
  match s.pump with
  | .unpolled => some { s with pump := .waiting }
  | .waiting => if s.permit then some { s with permit := false, pump := .demanded } else none
  | .demanded =>
    if s.discard then some { s with pump := .lingering none }
    else if args.declaredLength.any (args.maxBody < ·) then
      some { s with pump := .lingering (some (.tooLarge args.maxBody)) }
    else some { s with pump := .loadBuffered }
  | .lingering none => some { s with pump := .returned }
  | .lingering (some failure) => some { s with pump := .pushing (.failed failure) }
  | .loadBuffered =>
    some { s with pump := if highWater < s.buffered then .loadWhole else .checkDiscard }
  | .loadWhole => some { s with pump := if s.whole then .checkDiscard else .loadDiscard }
  | .loadDiscard => some { s with pump := if s.discard then .checkDiscard else .throttled }
  | .throttled => if s.permit then some { s with permit := false, pump := .loadBuffered } else none
  | .checkDiscard => some { s with pump := if s.discard then .lingering none else .reading }
  | .reading => some (s.frameStep args)
  | .pushing chunk => some (s.pushStep chunk)
  | .appending chunk =>
    some { s with
      chunks := s.chunks ++ [chunk], sent := s.sent ++ dataOf [chunk], pump := .announcing chunk }
  | .announcing chunk =>
    some { s with pump := if s.whole && !s.finished then afterPush chunk else .waking chunk }
  | .waking chunk => some { s.wake with pump := afterPush chunk }
  | .returned => some { s with pump := if s.finished then .gone else .pushing (.failed .incomplete) }
  | .gone => none

/-- The pump's future is dropped at an await.  A future that was never polled has no guard yet. -/
def dropStep (s : BodyState κ) : Option (BodyState κ) :=
  match s.pump with
  | .unpolled => some { s with pump := .gone }
  | .waiting | .throttled | .reading | .lingering _ => some { s with pump := .returned }
  | _ => none

/-- The handler's call returns an answer. -/
def answer (s : BodyState κ) (a : Answer) : BodyState κ :=
  { s with handler := .idle, answers := s.answers ++ [a] }

/-- The loop of `take` under the lock: the answer and the queue it leaves. -/
def takeLoop : List Chunk → Bytes → Answer × List Chunk
  -- "Finished with no marker left cannot happen": answered as the end, with what was there
  | [], whole => (.takeEnd whole, [])
  | .data bytes :: rest, whole => takeLoop rest (whole ++ bytes)
  | .ended :: rest, whole => (.takeEnd whole, .ended :: rest)
  | .failed failure :: rest, _ =>
    (.takeFailed (describe failure).1 (describe failure).2, .failed failure :: rest)

/-- The bytes an answer of `take` hands over. -/
def takenBytes : Answer → Bytes
  | .takeEnd bytes => bytes
  | _ => []

/-- The pop loop of `take`. -/
def takeStep (s : BodyState κ) : BodyState κ :=
  let (a, left) := takeLoop s.chunks []
  { s with
    chunks := left
    buffered := s.buffered - (dataOf s.chunks).length
    taken := s.taken ++ takenBytes a }.answer a

/-- `poll` acts on the chunk it popped. -/
def pollStep (s : BodyState κ) : Option Chunk → BodyState κ
  | none => if s.finished then s.answer .pollPending else { s with handler := .demanding }
  | some (.data bytes) =>
    { s with
      buffered := s.buffered - bytes.length
      handler := .relieved bytes
        (decide (highWater < s.buffered ∧ s.buffered - bytes.length ≤ highWater)) }
  | some .ended => { s with chunks := .ended :: s.chunks }.answer .pollEnd
  | some (.failed failure) =>
    { s with chunks := .failed failure :: s.chunks }.answer
      (.pollFailed (describe failure).1 (describe failure).2)

/-- The next step of the handler inside a call. -/
def handlerStep (s : BodyState κ) : Option (BodyState κ) :=
  match s.handler with
  | .idle => none
  | .polled chunk => some (s.pollStep chunk)
  | .demanding => some ({ s with permit := true }.answer .pollPending)
  | .relieved bytes crossed =>
    some ({ s with permit := s.permit || crossed, polled := s.polled ++ bytes }.answer
      (.pollData bytes))
  | .taking => some s.takeStep
  | .collecting callback =>
    some { s with waiters := s.waiters ++ [callback], handler := .collectDemand }
  | .collectDemand => some { s with permit := true, handler := .collectCheck }
  | .collectCheck => some { (if s.finished then s.wake else s) with handler := .idle }
  | .notifying => some { (if s.chunks.isEmpty then s else s.wake) with handler := .idle }

/-- The step function of a body. -/
def step (args : PumpArgs) (s : BodyState κ) : BodyAction κ → Option (BodyState κ)
  | .pump => s.pumpStep args
  | .timeout =>
    if args.idle = true ∧ s.pump = .reading then some { s with pump := .pushing (.failed .idle) }
    else none
  | .drop => s.dropStep
  | .discard => some { s with discard := true, permit := true }
  | .poll =>
    if s.handler.isIdle then
      some { s with chunks := s.chunks.tail, handler := .polled s.chunks.head? } else none
  | .take =>
    if s.handler.isIdle then
      some (if s.finished then { s with handler := .taking } else s.answer .takePending) else none
  | .collect callback =>
    if s.handler.isIdle then some { s with whole := true, handler := .collecting callback }
    else none
  | .notify callback =>
    if s.handler.isIdle then
      some { s with waiters := s.waiters ++ [callback], handler := .notifying } else none
  | .handler => s.handlerStep

end BodyState

end Oxbrook
