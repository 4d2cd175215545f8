import Mathlib.Logic.Function.Basic
import Shelly.Framework.Machine
import Shelly.Protocol.Framing

namespace Shelly.Daemon.SharedWriter

/-- The two forwarders of a connection. -/
inductive TaskKind
  | attach | sessionList
  deriving DecidableEq

def TaskKind.other : TaskKind → TaskKind
  | .attach => .sessionList
  | .sessionList => .attach

theorem TaskKind.eq_other {kind kind' : TaskKind} (h : kind' ≠ kind) : kind' = kind.other := by
  cases kind <;> cases kind' <;> first | rfl | exact absurd rfl h

/-- Those who write to a connection. -/
inductive Writer
  | handler
  | forwarder (kind : TaskKind)
  deriving DecidableEq

/-- Where one call of `write_msg` stands. From `writing` on it holds the lock. -/
inductive WritePc
  | locking (payload : List UInt8)
  | writing (payload : List UInt8) (written : Nat)
  | flushing
  deriving DecidableEq

def WritePc.holds : WritePc → Bool
  | .locking _ => false
  | .writing .. | .flushing => true

/-- The frame of which something is written, and how much. -/
def WritePc.begun : WritePc → Option (List UInt8 × Nat)
  | .writing payload written => if 0 < written then some (payload, written) else none
  | _ => none

/-- What the stream makes of a write or a flush. -/
inductive Answered
  | accepted (count : Nat)
  | failed
  deriving DecidableEq

/-- What a step of `write_msg` comes to. -/
inductive Progress
  | goesOn (pc : WritePc)
  | ended (ok : Bool)
  deriving DecidableEq

def Progress.pc : Progress → Option WritePc
  | .goesOn pc => some pc
  | .ended _ => none

/-- Where a forwarder stands: in its `select!`, in `write_msg` with an event, or at its end. After a
terminal event it ends. -/
inductive ForwarderPc
  | receiving
  | writing (pc : WritePc) (terminal : Bool)
  | finished
  deriving DecidableEq

def ForwarderPc.write : ForwarderPc → Option WritePc
  | .writing pc _ => some pc
  | _ => none

/-- What the handler does for a request, as far as the writer and the forwarders are concerned. -/
inductive Op
  | write (payload : List UInt8)
  | stop (kind : TaskKind)
  | start (kind : TaskKind)
  deriving DecidableEq

inductive Request
  | other (answer : Option (List UInt8))
  | attachRestored (attached exited : List UInt8)
  | attachFailed (error : List UInt8)
  | attachExited (attached exited : List UInt8)
  | attach (attached : List UInt8)
  | subscribeSessions (sessions : List UInt8)
  deriving DecidableEq

def Request.script : Request → List Op
  | .other answer => answer.toList.map .write
  | .attachRestored attached exited => [.write attached, .write exited]
  | .attachFailed error => [.stop .attach, .write error]
  | .attachExited attached exited => [.stop .attach, .write attached, .write exited]
  | .attach attached => [.stop .attach, .write attached, .start .attach]
  | .subscribeSessions sessions => [.stop .sessionList, .write sessions, .start .sessionList]

/-- What the handler does after its loop. -/
def leavingScript : List Op := [.stop .attach, .stop .sessionList]

inductive HandlerPc
  | running
  | writing (pc : WritePc)
  | stopping (kind : TaskKind)
  | returned
  deriving DecidableEq

def HandlerPc.write : HandlerPc → Option WritePc
  | .writing pc => some pc
  | _ => none

/-- A connection. A stream on which a write has failed takes no more. `begun` is history: the
payloads of the frames of which something was written, in their order. -/
structure Connection where
  wire : List UInt8
  begun : List (List UInt8)
  broken : Bool
  lock : Option Writer
  handler : HandlerPc
  script : List Op
  leaving : Bool
  forwarders : TaskKind → Option ForwarderPc

namespace Connection

/-- A connection that is answered its `Hello`. -/
def opened (welcome : List UInt8) : Connection :=
  ⟨[], [], false, none, .running, [.write welcome], false, fun _ => none⟩

variable (c : Connection)

/-- The call of `write_msg` that a writer is in. -/
def writing : Writer → Option WritePc
  | .handler => c.handler.write
  | .forwarder kind => (c.forwarders kind).bind (·.write)

def setForwarder (kind : TaskKind) (pc : Option ForwarderPc) : Connection :=
  { c with forwarders := Function.update c.forwarders kind pc }

def release (who : Writer) : Connection :=
  { c with lock := if c.lock = some who then none else c.lock }

/-- One step of `write_msg`. -/
def writeStep (answer : Answered) (who : Writer) : WritePc → Option (Connection × Progress)
  | .locking payload =>
    if c.lock = none then
      if payload.length ≤ maxFrameLen then
        some ({ c with lock := some who }, .goesOn (.writing payload 0))
      else some (c, .ended false)
    else none
  | .writing payload written =>
    match answer with
    | .accepted count =>
      if c.broken = false ∧ 0 < count ∧ count ≤ (offered payload written).length then
        some ({ c with
          wire := c.wire ++ (offered payload written).take count
          begun := if written = 0 then c.begun ++ [payload] else c.begun },
          .goesOn (if written + count < (frame payload).length then .writing payload (written + count)
            else .flushing))
      else none
    | .failed => some ({ c.release who with broken := true }, .ended false)
  | .flushing =>
    match answer with
    | .accepted _ => some (c.release who, .ended true)
    | .failed => some ({ c.release who with broken := true }, .ended false)

/-- How a writer goes on: the handler leaves its loop after a write that has failed, a forwarder
ends. -/
def proceed : Writer → Progress → Connection
  | .handler, .goesOn pc => { c with handler := .writing pc }
  | .handler, .ended true => { c with handler := .running }
  | .handler, .ended false =>
    { c with handler := .running, leaving := true, script := leavingScript }
  | .forwarder kind, progress =>
    match c.forwarders kind with
    | some (.writing _ terminal) =>
      c.setForwarder kind <| some <|
        match progress with
        | .goesOn pc => .writing pc terminal
        | .ended ok => if ok && !terminal then .receiving else .finished
    | _ => c

end Connection

/-- What happens next: the handler reads a request, or leaves its loop, or takes up the next thing to
do; a writer goes on; a forwarder receives an event, or ends in its `select!`; a forwarder that is
being stopped is seen to have ended, or is aborted after its time. -/
inductive Action
  | request (r : Request)
  | leave
  | next
  | write (who : Writer) (answer : Answered)
  | receive (kind : TaskKind) (payload : List UInt8) (terminal : Bool)
  | finish (kind : TaskKind)
  | joined
  | abort
  deriving DecidableEq

def step : Action → Connection → Option Connection
  | .request r, c =>
    if c.handler = .running ∧ c.script = [] ∧ c.leaving = false then
      some { c with script := r.script }
    else none
  | .leave, c =>
    if c.handler = .running ∧ c.script = [] ∧ c.leaving = false then
      some { c with leaving := true, script := leavingScript }
    else none
  | .next, c =>
    if c.handler = .running then
      match c.script with
      | [] => if c.leaving then some { c with handler := .returned } else none
      | .write payload :: ops =>
        some { c with handler := .writing (.locking payload), script := ops }
      | .stop kind :: ops =>
        if (c.forwarders kind).isSome then some { c with handler := .stopping kind, script := ops }
        else some { c with script := ops }
      -- The one before has been stopped.
      | .start kind :: ops =>
        if (c.forwarders kind).isNone then
          some { c.setForwarder kind (some .receiving) with script := ops }
        else none
    else none
  | .write who answer, c =>
    (c.writing who).bind fun pc => (c.writeStep answer who pc).map fun r => r.1.proceed who r.2
  | .receive kind payload terminal, c =>
    if c.forwarders kind = some .receiving then
      some (c.setForwarder kind (some (.writing (.locking payload) terminal)))
    else none
  | .finish kind, c =>
    if c.forwarders kind = some .receiving then some (c.setForwarder kind (some .finished))
    else none
  | .joined, c =>
    match c.handler with
    | .stopping kind =>
      if c.forwarders kind = some .finished then
        some { c.setForwarder kind none with handler := .running }
      else none
    | _ => none
  | .abort, c =>
    match c.handler with
    | .stopping kind =>
      some { (c.setForwarder kind none).release (.forwarder kind) with handler := .running }
    | _ => none

def machine : Machine Connection Action where
  init c := ∃ welcome, c = .opened welcome
  step := step

end Shelly.Daemon.SharedWriter
