import Mathlib
import Oxbrook.Events.Format
import Oxbrook.Foundation.Runs

/-!
# The pump of a stream

`pump_sse`: one response, from the start of its stream to the end.  The pump reads its source one item at a time,
offers each item to the connection until there is room for it, and sends a ping when the source is idle.  The
source answers a read, the connection takes or refuses a chunk, and the client leaves, whenever they like: each is
an action of the environment, and a run is any sequence of actions.

The source is a subscription, or one of the generators of the MCP endpoint, which open subscriptions when they are
first run and close them when they end.  `SsePump.step` keeps track of what is registered with the topics.
-/

namespace Oxbrook

open StepMachine

variable {α ρ ε κ ι : Type*}

/-! ## The state -/

/-- What a read of the source gives. -/
inductive Yielded (ι : Type*)
  | item (x : ι)
  | stopped
  | raised

/-- `pending`. -/
inductive PendingRead (ι : Type*)
  | idle
  | outstanding
  | answered (y : Yielded ι)

namespace PendingRead

def isOutstanding : PendingRead ι → Bool
  | outstanding => true
  | _ => false

lemma isOutstanding_iff {read : PendingRead ι} : read.isOutstanding = true ↔ read = .outstanding := by
  cases read <;> simp [isOutstanding]

/-- A read is started if there is none. -/
def started : PendingRead ι → PendingRead ι
  | idle => outstanding
  | read => read

end PendingRead

/-- What `send_chunk` returns. -/
inductive ChunkResult
  | sent
  | full
  | closed
  deriving DecidableEq

/-- What is streamed, with the subscriptions it opens: a subscription itself, the channel of a session, or the stream
of `subscriptions/listen`. -/
inductive SourceKind (κ : Type*)
  | subscription (k : κ)
  | channel (k : κ)
  | listen (ks : List κ)

namespace SourceKind

def subscriptions : SourceKind κ → List κ
  | subscription k => [k]
  | channel k => [k]
  | listen ks => ks

/-- Only a subscription has a `close` of its own; a generator has none. -/
def hasClose : SourceKind κ → Bool
  | subscription _ => true
  | _ => false

end SourceKind

/-- Where the pump is: before `start_stream`, at the head of the loop, in `asyncio.wait`, in `_wait_for_room` with a
chunk, or past its end. -/
inductive SsePc
  | ready
  | top
  | waiting
  | room (chunk : ByteArray)
  | done
  deriving DecidableEq

structure SseState (ι κ : Type*) where
  pc : SsePc
  read : PendingRead ι
  gone : Bool
  taken : ℕ
  /-- What the connection accepted, with `none` for a ping. -/
  sent : List (Option ByteArray)
  begun : Bool
  ended : Bool
  cancelling : Bool
  registered : List κ

/-- The items that the connection accepted. -/
def SseState.events (s : SseState ι κ) : List ByteArray := s.sent.filterMap id

structure SsePump (α ρ ε κ : Type*) where
  codec : Codec α ρ ε
  source : ℕ → Yielded (SseItem α ρ)
  kind : SourceKind κ
  ping : Bool

/-- `drop` is a topic that closes one of the subscriptions, and `unwind` the end of a read that was cancelled. -/
inductive SseAction
  | accept
  | refuse
  | start
  | begin
  | answer
  | leave
  | drop (n : ℕ)
  | resume (result : ChunkResult)
  | timeout (result : ChunkResult)
  | retry (result : ChunkResult)
  | cancel
  | unwind
  deriving DecidableEq

namespace SsePump

/-! ## The steps -/

/-- Before the response.  A subscription is open by then. -/
def new (p : SsePump α ρ ε κ) : SseState (SseItem α ρ) κ where
  pc := .ready
  read := .idle
  gone := false
  taken := 0
  sent := []
  begun := p.kind.hasClose
  ended := false
  cancelling := false
  registered := if p.kind.hasClose then p.kind.subscriptions else []

/-- The chunk of what was read, unless it ends the stream. -/
def chunk (p : SsePump α ρ ε κ) : Yielded (SseItem α ρ) → Option ByteArray
  | .item x => (formatEvent p.codec x).toOption
  | _ => none

def chunkAt (p : SsePump α ρ ε κ) (n : ℕ) : Option ByteArray := p.chunk (p.source n)

/-- A read that ends the source. -/
def ends : Yielded (SseItem α ρ) → Bool
  | .item _ => false
  | _ => true

variable (p : SsePump α ρ ε κ) (s : SseState (SseItem α ρ) κ)

/-- A generator runs for the first time, and subscribes. -/
def opened : SseState (SseItem α ρ) κ :=
  { s with begun := true, registered := p.kind.subscriptions }

/-- The `finally` of a generator. -/
def closed : SseState (SseItem α ρ) κ := { s with ended := true, registered := [] }

/-- The source answers the read.  A generator that stops or raises has run its `finally`. -/
def answered : SseState (SseItem α ρ) κ :=
  let next := { s with read := .answered (p.source s.taken), taken := s.taken + 1 }
  if ends (p.source s.taken) && !p.kind.hasClose then closed next else next

/-- The `finally` of the pump: the read is cancelled, and `close` is called if there is one. -/
def finish : SseState (SseItem α ρ) κ :=
  { s with
    pc := .done
    cancelling := s.read.isOutstanding
    registered := if p.kind.hasClose then [] else s.registered }

/-- A chunk is offered, for the first time or again. -/
def sendChunk (chunk : ByteArray) : ChunkResult → SseState (SseItem α ρ) κ
  | .sent => { s with pc := .top, sent := s.sent ++ [some chunk] }
  | .full => { s with pc := if s.gone then .top else .room chunk }
  | .closed => p.finish s

/-- A ping is offered once. -/
def sendPing : ChunkResult → SseState (SseItem α ρ) κ
  | .sent => { s with pc := .top, sent := s.sent ++ [none] }
  | .full => { s with pc := .top }
  | .closed => p.finish s

/-- What the pump does with what it read. -/
def handle (y : Yielded (SseItem α ρ)) (result : ChunkResult) : SseState (SseItem α ρ) κ :=
  match p.chunk y with
  | some chunk => p.sendChunk { s with read := .idle } chunk result
  | none => p.finish { s with read := .idle }

/-- After `asyncio.wait`, if something is done. -/
def resumed (result : ChunkResult) : Option (SseState (SseItem α ρ) κ) :=
  if s.gone then some (p.finish s)
  else
    match s.read with
    | .answered y => some (p.handle s y result)
    | _ => none

/-- The read that was cancelled ends, and with it a generator.  One that was never run has no `finally` to run. -/
def unwound : SseState (SseItem α ρ) κ :=
  let next := { s with read := .idle, cancelling := false }
  if p.kind.hasClose || !s.begun then next else closed next

def step (s : SseState (SseItem α ρ) κ) : SseAction → Option (SseState (SseItem α ρ) κ)
  | .accept => if s.pc = .ready then some { s with pc := .top } else none
  | .refuse => if s.pc = .ready then some { s with pc := .done } else none
  | .start => if s.pc = .top then some { s with pc := .waiting, read := s.read.started } else none
  | .begin =>
    if s.read.isOutstanding ∧ s.begun = false ∧ s.cancelling = false then some (p.opened s) else none
  | .answer =>
    if s.read.isOutstanding ∧ s.begun ∧ s.cancelling = false then some (p.answered s) else none
  | .leave => some { s with gone := true }
  | .drop n => some { s with registered := s.registered.eraseIdx n }
  | .resume result => if s.pc = .waiting then p.resumed s result else none
  | .timeout result =>
    if s.pc = .waiting ∧ s.read.isOutstanding ∧ s.gone = false ∧ p.ping then some (p.sendPing s result) else none
  | .retry result =>
    match s.pc with
    | .room chunk => some (p.sendChunk s chunk result)
    | _ => none
  | .cancel =>
    match s.pc with
    | .waiting | .room _ => some (p.finish s)
    | _ => none
  | .unwind => if s.pc = .done ∧ s.cancelling then some (p.unwound s) else none

end SsePump

end Oxbrook
