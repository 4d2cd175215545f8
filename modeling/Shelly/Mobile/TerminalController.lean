import Shelly.Mobile.AttachedSession

namespace Shelly.Mobile

/-- One call of the terminal writer. The numbers are history: what the initial bytes are a replay
from, and the place in the output that the bytes end at. -/
inductive Delivery
  | initial (replayedFrom : Option Nat) (seq : Nat) (bytes : List UInt8)
  | output (seq : Nat) (bytes : List UInt8)
  deriving DecidableEq

def Delivery.bytes : Delivery → List UInt8
  | .initial _ _ bytes | .output _ bytes => bytes

/-- Where the call of `recoverAttachment` stands that holds the mutex. -/
inductive Recovery
  | checked (failed : Nat)
  | recording (failed seq : Nat)
  | detaching (failed seq : Nat)
  | clearing (failed seq : Nat)
  | reattaching (seq : Nat)
  | answered (replacement : Nat)
  | installed (replacement : Nat)
  deriving DecidableEq

/-- The controller of one terminal. An attachment is named by its place among all that the
controller ever had. `recovering` are the calls of `recoverAttachment` that wait for the mutex,
`commands` the calls of `sendInput` and `resize` in flight, each with the attachment it took. -/
structure TerminalController where
  attachments : List AttachedSession
  attachedSession : Option Nat
  started : Bool
  detached : Bool
  emulator : List Delivery
  commands : List Nat
  recovering : List Nat
  recovery : Option Recovery
  deriving DecidableEq

namespace TerminalController

inductive Action
  | start
  | subscribe (a : Nat)
  | breakOff (a : Nat)
  | callback (a : Nat)
  | command
  | commandReturned (a : Nat)
  | commandFailed (a : Nat)
  | enterRecovery (a : Nat)
  | recover
  | reattach (live : Bool) (screen : List UInt8)
  | giveUp
  | detach
  | release
  | forward (a n : Nat)
  | arrive (a : Nat) (m : ServerToClientMsg)
  | stopForwarding (a : Nat)
  deriving DecidableEq

/-- A controller that is made for an attachment. -/
def new (reply : Reply) : TerminalController where
  attachments := [.new reply]
  attachedSession := some 0
  started := false
  detached := false
  emulator := []
  commands := []
  recovering := []
  recovery := none

variable (c : TerminalController)

def bytes : List UInt8 := c.emulator.flatMap Delivery.bytes

def update (a : Nat) (f : AttachedSession → AttachedSession) : TerminalController :=
  { c with attachments := c.attachments.modify a f }

/-- A detached controller has no emulator. -/
def write (d : Delivery) : TerminalController :=
  if c.detached then c else { c with emulator := c.emulator ++ [d] }

/-- The number of an attachment, which a destroyed one does not tell. -/
def lastSeenSeq (a : Nat) : Option Nat :=
  c.attachments[a]?.bind fun x => if x.destroyed then none else some x.lastSeenSeq

def launchSubscribe : TerminalController :=
  if c.detached then c
  else match c.attachedSession with
    | some a => c.update a (·.launch)
    | none => c

def start : Option TerminalController :=
  if c.started then none else some { c with started := true }.launchSubscribe

/-- A call of the sink, or the end of the subscription with an error. The second component is what
is recorded as the last seen number of the session. -/
def callback (a : Nat) (x : AttachedSession) : Option (TerminalController × Option Nat) :=
  match x.subscription with
  | some (.delivering bytes) =>
    some ((c.write (.initial x.reply.replayedFrom x.reply.seq bytes)).update a (·.goto .takingRecv),
      none)
  | some (.writing seq bytes) =>
    some ((c.write (.output seq bytes)).update a (·.goto .reading), none)
  | some .lagging =>
    let c' := c.update a (·.replaceRecv .ended)
    match if c.detached then none else c.attachedSession with
    | some b => some ({ c' with recovering := c.recovering ++ [b] }, c.lastSeenSeq b)
    | none => some (c', none)
  | some .exiting =>
    some (c.update a (·.replaceRecv .ended),
      if c.detached then none else c.attachedSession.bind c.lastSeenSeq)
  | some .failed =>
    some ({ c with recovering := c.recovering ++ [a] }.update a (·.goto .ended), none)
  | _ => none

def command : Option TerminalController :=
  if c.detached then none
  else c.attachedSession.map fun a => { c with commands := c.commands ++ [a] }

def commandReturned (a : Nat) : Option TerminalController :=
  if a ∈ c.commands then some { c with commands := c.commands.erase a } else none

def commandFailed (a : Nat) : Option TerminalController :=
  (c.commandReturned a).map fun c' =>
    if c.detached then c' else { c' with recovering := c.recovering ++ [a] }

/-- A call gets the mutex, and returns at once if the attachment is not the current one. -/
def enterRecovery (a : Nat) : Option TerminalController :=
  if a ∈ c.recovering ∧ c.recovery = none then
    let c' := { c with recovering := c.recovering.erase a }
    some (if c.detached ∨ c.attachedSession ≠ some a then c'
      else { c' with recovery := some (.checked a) })
  else none

def destroy (a : Nat) : TerminalController := c.update a fun x => { x with destroyed := true }

/-- One atomic step of the call that holds the mutex, apart from the attach itself. -/
def recover : Option (TerminalController × Option Nat) :=
  match c.recovery with
  | some (.checked a) =>
    match c.lastSeenSeq a with
    | some seq =>
      some ({ c with recovery := some (.recording a seq) }.update a
        fun x => { x with readSeq := some seq }, none)
    | none => some ({ c with recovery := none }, none)
  | some (.recording a seq) => some ({ c with recovery := some (.detaching a seq) }, some seq)
  | some (.detaching a seq) => some ({ c with recovery := some (.clearing a seq) }, none)
  | some (.clearing a seq) =>
    if c.attachedSession = some a then
      some ({ c with attachedSession := none, recovery := some (.reattaching seq) }.destroy a, none)
    else some ({ c with recovery := none }, none)
  | some (.answered b) =>
    if c.detached ∨ c.attachedSession ≠ none then
      some ({ c with recovery := none }.destroy b, none)
    else some ({ c with attachedSession := some b, recovery := some (.installed b) }, none)
  | some (.installed b) =>
    if c.detached then
      if c.attachedSession = some b then
        some ({ c with attachedSession := none, recovery := none }.destroy b, none)
      else some ({ c with recovery := none }, none)
    else some ({ c with recovery := none }.launchSubscribe, none)
  | _ => none

/-- An attach of the recovery is answered. One that fails changes nothing, and is made again. -/
def reattach (h : Host) (live : Bool) (screen : List UInt8) : Option TerminalController :=
  match c.recovery with
  | some (.reattaching seq) =>
    some { c with
      attachments := c.attachments ++ [.new (h.attach live (some seq) screen)]
      recovery := some (.answered c.attachments.length) }
  | _ => none

/-- A recovery ends its loop when the controller is detached. -/
def giveUp : Option TerminalController :=
  match c.recovery with
  | some (.reattaching _) => if c.detached then some { c with recovery := none } else none
  | _ => none

/-- The first part of a detach, which cancels the subscription. -/
def detach : Option TerminalController :=
  if c.detached then none else some { c with detached := true }

/-- The second part of a detach. -/
def release : Option (TerminalController × Option Nat) :=
  if c.detached then
    c.attachedSession.map fun a => ({ c with attachedSession := none }.destroy a, c.lastSeenSeq a)
  else none

/-- An attachment takes a step of its own. -/
def move (a : Nat) (f : AttachedSession → Option AttachedSession) : Option TerminalController :=
  (c.attachments[a]?.bind f).map fun x => c.update a fun _ => x

/-- The daemon's session, while there is one, answers attaches and sends output. The second
component of the result is what the step records as the last seen number of the session. -/
def step (h : Option Host) : Action → TerminalController →
    Option (TerminalController × Option Nat)
  | .start, c => c.start.map (·, none)
  | .subscribe a, c => (c.move a (·.subscribe)).map (·, none)
  | .breakOff a, c => (c.move a (·.breakOff)).map (·, none)
  | .callback a, c => c.attachments[a]?.bind (c.callback a)
  | .command, c => c.command.map (·, none)
  | .commandReturned a, c => (c.commandReturned a).map (·, none)
  | .commandFailed a, c => (c.commandFailed a).map (·, none)
  | .enterRecovery a, c => (c.enterRecovery a).map (·, none)
  | .recover, c => c.recover
  | .reattach live screen, c => (h.bind fun h => c.reattach h live screen).map (·, none)
  | .giveUp, c => c.giveUp.map (·, none)
  | .detach, c => c.detach.map (·, none)
  | .release, c => c.release
  | .forward a n, c => (h.bind fun h => c.move a (·.forward h n)).map (·, none)
  | .arrive a m, c => (c.move a (·.arrive m)).map (·, none)
  | .stopForwarding a, c => (c.move a fun x => some { x with forwarding := false }).map (·, none)

end TerminalController

end Shelly.Mobile
