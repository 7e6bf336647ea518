import Oxbrook.Foundation.Runs
import Oxbrook.Foundation.OrderedDict

/-!
# From the gate of a socket to its handler

`upgrade_websocket` of `src/server.rs` asks the application before it switches protocols, and the handler runs as a
second request, maybe on another worker.  The gate leaves whom it found in `_waiting`, under a key that travels to the
server in a header of its reply and from there to the handler.

Any number of handshakes run at once.  The application's own code, that is, its middleware around the gate and inside
it, the authorizer, and the handlers of exceptions, answers whatever it likes: an action carries the reply.  Three
histories are kept beside the state of the program: what the gate of a handshake returned, whether the upgrade was
accepted, and the key that was left; and the keys that were redeemed.
-/

namespace Oxbrook

open StepMachine

variable {η P : Type}

/-! ## Replies -/

/-- A reply on its way out: the status that it implies, and the headers of its `Response` and its own. -/
structure GateReply where
  status : ℕ
  headers : OrderedDict String String

/-- `HANDOFF`. -/
def handoffHeader : String := "x-oxbrook-handoff"

/-- `eq_ignore_ascii_case`. -/
def namesHandoff (name : String) : Bool := name.toList.map Char.toLower = handoffHeader.toList

namespace GateReply

/-- `_accepted`. -/
def accepted (reply : GateReply) : Bool := reply.status = 101

/-- `reply.headers[HANDOFF] = key`. -/
def hand (reply : GateReply) (key : String) : GateReply :=
  { reply with headers := reply.headers.set handoffHeader key }

/-- What `upgrade_websocket` takes from the reply. -/
def handoff (reply : GateReply) : Option String :=
  (reply.headers.items.find? fun header => namesHandoff header.1).map Prod.snd

end GateReply

/-! ## The state -/

/-- `_HANDOFF_TTL`. -/
def handoffTtl : ℕ := 30

/-- An entry of `_waiting`: when it expires, and whom the gate found. -/
abbrev Waiting (P : Type) := ℕ × Option P

/-- The request of a handler, as far as the hand-off is concerned. -/
structure SocketRequest where
  headers : List (String × String)
  handoff : Option String

/-- Where a handshake is. -/
inductive HandshakePc (P : Type)
  | arrived
  /-- In the chain of the gate, outside the gate itself. -/
  | gating
  /-- Past `admit`, with whom the gate found in `request.locals`. -/
  | admitted (found : Option P)
  /-- Past `call_next`, with what is in `request.locals` now. -/
  | answered (kept : Option P) (reply : GateReply)
  /-- In `_leave`, with the time it read and the entries that it has not looked at. -/
  | leaving (kept : Option P) (reply : GateReply) (now : ℕ) (todo : List (String × Waiting P))
  /-- Past the gate, in the middleware outside it. -/
  | linked (reply : GateReply)
  | replied (reply : GateReply)
  /-- The server goes ahead. -/
  | decided (handoff : Option String)
  | queued (request : SocketRequest)
  /-- The target runs. -/
  | running (found : Option P)
  | refused
  | closed

structure HandoffState (η P : Type) where
  now : ℕ
  waiting : OrderedDict String (Waiting P)
  pc : η → HandshakePc P
  returned : η → Option (Option P)
  accepted : η → Bool
  left : η → Option String
  redeemed : List String

inductive HandoffAction (η P : Type)
  | tick (d : ℕ)
  /-- The first `enqueue`, and whether a worker has room. -/
  | enqueueGate (h : η) (room : Bool)
  /-- A middleware outside the gate answers by itself. -/
  | answer (h : η) (reply : GateReply)
  /-- The gate returns. -/
  | identify (h : η) (found : Option P)
  /-- The gate raises, or what is inside it, and the exception is mapped. -/
  | raise (h : η) (reply : GateReply)
  /-- `call_next` returns. -/
  | callNext (h : η) (kept : Option P) (reply : GateReply)
  /-- The gate looks at the reply. -/
  | look (h : η)
  /-- `_leave` looks at one entry. -/
  | prune (h : η)
  /-- `_leave` stores an entry, and the key goes into the reply. -/
  | leave (h : η) (key : String)
  /-- The middleware outside the gate hands a reply on. -/
  | handOn (h : η) (reply : GateReply)
  /-- The handshake times out, or its client leaves. -/
  | abandon (h : η)
  /-- The server reads the reply. -/
  | decide (h : η)
  /-- The second `enqueue`. -/
  | enqueueHandler (h : η) (room : Bool)
  | start (h : η)

namespace HandoffState

/-! ## The steps -/

def new : HandoffState η P where
  now := 0
  waiting := .empty
  pc := fun _ => .arrived
  returned := fun _ => none
  accepted := fun _ => false
  left := fun _ => none
  redeemed := []

variable [DecidableEq η]

def goto (s : HandoffState η P) (h : η) (pc : HandshakePc P) : HandoffState η P :=
  { s with pc := Function.update s.pc h pc }

/-- `_waiting.pop(key, None) if key else None`. -/
def entry (s : HandoffState η P) : Option String → Option (String × Waiting P)
  | none => none
  | some key => if key = "" then none else (s.waiting.get key).map fun found => (key, found)

/-- `receive`: the target runs with the caller of the entry, and without one it does not run. -/
def receive (s : HandoffState η P) (h : η) (request : SocketRequest) : HandoffState η P :=
  match s.entry request.handoff with
  | none => s.goto h .refused
  | some (key, _, found) =>
    { s with waiting := s.waiting.erase key, redeemed := s.redeemed ++ [key] }.goto h (.running found)

/-- `client` are the headers that the clients sent.  The server passes them on to the handler with its request. -/
def step (client : η → List (String × String)) (s : HandoffState η P) : HandoffAction η P → Option (HandoffState η P)
  | .tick d => some { s with now := s.now + d }
  | .enqueueGate h room =>
    match s.pc h with
    | .arrived => some (s.goto h (if room then .gating else .closed))
    | _ => none
  | .answer h reply =>
    match s.pc h with
    | .gating => some (s.goto h (.replied reply))
    | _ => none
  | .identify h found =>
    match s.pc h with
    | .gating =>
      some ({ s with returned := Function.update s.returned h (some found) }.goto h (.admitted found))
    | _ => none
  | .raise h reply =>
    match s.pc h with
    | .gating | .admitted _ => some (s.goto h (.linked reply))
    | _ => none
  | .callNext h kept reply =>
    match s.pc h with
    | .admitted _ => some (s.goto h (.answered kept reply))
    | _ => none
  | .look h =>
    match s.pc h with
    | .answered kept reply =>
      if reply.accepted then
        some ({ s with accepted := Function.update s.accepted h true }.goto h
          (.leaving kept reply s.now s.waiting.items))
      else some (s.goto h (.linked reply))
    | _ => none
  | .prune h =>
    match s.pc h with
    | .leaving kept reply now ((key, expires, _) :: todo) =>
      some ({ s with waiting := if expires < now then s.waiting.erase key else s.waiting }.goto h
        (.leaving kept reply now todo))
    | _ => none
  | .leave h key =>
    match s.pc h with
    | .leaving kept reply now [] =>
      some ({ s with
        waiting := s.waiting.set key (now + handoffTtl, kept)
        left := Function.update s.left h (some key) }.goto h (.linked (reply.hand key)))
    | _ => none
  | .handOn h reply =>
    match s.pc h with
    | .linked _ => some (s.goto h (.replied reply))
    | _ => none
  | .abandon h =>
    match s.pc h with
    | .gating | .admitted _ | .linked _ | .replied _ => some (s.goto h .closed)
    | _ => none
  | .decide h =>
    match s.pc h with
    | .replied reply => some (s.goto h (if reply.status = 101 then .decided reply.handoff else .closed))
    | _ => none
  | .enqueueHandler h room =>
    match s.pc h with
    | .decided handoff => some (s.goto h (if room then .queued ⟨client h, handoff⟩ else .closed))
    | _ => none
  | .start h =>
    match s.pc h with
    | .queued request => some (s.receive h request)
    | _ => none

end HandoffState

end Oxbrook
