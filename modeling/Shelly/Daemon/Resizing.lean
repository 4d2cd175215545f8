import Mathlib.Order.Bounds.Basic
import Shelly.Daemon.LiveSteps

namespace Shelly.Daemon

/-- The size that fits every viewport. -/
def minClientSize : List ClientSize → Option ClientSize
  | [] => none
  | size :: sizes =>
    some (sizes.foldl (fun least size => ⟨min least.cols size.cols, min least.rows size.rows⟩) size)

namespace Resizing

/-- Where a call of `apply_min_attached_resize` stands. The size is computed under one lock and
applied under another. -/
inductive ApplyPc
  | computing
  | resizing (size : ClientSize)
  | capturing
  | rebuilding (scrollback : Nat × List UInt8)
  | returned (ok : Bool)
  deriving DecidableEq

/-- Where the resize thread stands. -/
inductive LoopPc
  | waiting
  | timedOut
  | draining
  | checking
  | applying (pc : ApplyPc)
  | ended
  deriving DecidableEq

end Resizing

/-- A session with the sizes its clients negotiate. `resizeRequests` counts the messages in the
channel to the resize thread, which is there from the start. -/
structure SizedSession (T : Type*) extends LiveSession T where
  pty : ClientSize
  attachedSizes : Table Nat ClientSize
  resizeRequests : Nat
  resizeLoop : Resizing.LoopPc

variable {T : Type*}

namespace SizedSession

def spawn (E : Emulator T) (id : SessionId) (name : String) (createdAt : Nat)
    (commandKind : CommandKind) (size : ClientSize) (store push : Bool) : SizedSession T where
  toLiveSession := .spawn E id name createdAt commandKind size store push
  pty := size
  attachedSizes := .empty
  resizeRequests := 0
  resizeLoop := .waiting

variable (s : SizedSession T)

def minAttached : Option ClientSize := minClientSize (s.attachedSizes.entries.map (·.2))

/-- A message to a thread that has ended is dropped. -/
def scheduleMinAttachedResize : SizedSession T :=
  if s.resizeLoop = .ended then s else { s with resizeRequests := s.resizeRequests + 1 }

/-- The terminal and its projection, which change while the lock of the terminal is held. -/
def resize (E : Emulator T) (size : ClientSize) :
    Option TerminalProjectionFailure × SizedSession T :=
  let (failure, terminal) := s.terminal.resize E size
  (failure, { s with terminal, pty := size })

/-- The receiver goes with the thread, and what is queued with the receiver. -/
def endLoop : SizedSession T := { s with resizeRequests := 0, resizeLoop := .ended }

end SizedSession

namespace Resizing

/-- One atomic step of `apply_min_attached_resize`; `ok` says whether the terminal takes a size.
The lock of the terminal is kept over the rebuild, which leaves every size as it is, so that the
rebuild may stand outside of the lock here. -/
def applyStep (E : Emulator T) (ok : Bool) :
    ApplyPc → SizedSession T → Option (SizedSession T × ApplyPc)
  | .computing, s =>
    some (s, match s.minAttached with
      | some size => .resizing size
      | none => .returned true)
  | .resizing size, s =>
    if ok then
      let (failure, s') := s.resize E size
      some (s', if failure.isSome then .capturing else .returned true)
    else some (s, .returned false)
  | .capturing, s => some (s, .rebuilding s.ring.snapshot)
  | .rebuilding scrollback, s =>
    some ({ s with toLiveSession := s.rebuildTerminalProjection E scrollback }, .returned true)
  | .returned _, _ => none

/-- One atomic step of the resize thread. -/
def loopStep (E : Emulator T) (ok : Bool) (s : SizedSession T) : Option (SizedSession T) :=
  match s.resizeLoop with
  | .waiting =>
    if s.resizeRequests = 0 then some { s with resizeLoop := .timedOut }
    else some { s with resizeRequests := s.resizeRequests - 1, resizeLoop := .draining }
  | .timedOut =>
    some (if s.exitCode.isSome then s.endLoop else { s with resizeLoop := .waiting })
  | .draining =>
    if s.resizeRequests = 0 then some { s with resizeLoop := .checking }
    else some { s with resizeRequests := s.resizeRequests - 1 }
  | .checking =>
    some (if s.exitCode.isSome then s.endLoop else { s with resizeLoop := .applying .computing })
  | .applying (.returned _) => some { s with resizeLoop := .waiting }
  | .applying pc => (applyStep E ok pc s).map fun r => { r.1 with resizeLoop := .applying r.2 }
  | .ended => none

/-- What a client asks for through its connection. -/
inductive Request
  | attach (size : ClientSize)
  | updateSize (size : ClientSize)
  | detach
  deriving DecidableEq

/-- Where a connection stands with the session. `held` is the size it gave last, while it holds an
`AttachedClient`. -/
inductive Client
  | idle (held : Option ClientSize)
  | inserting (size : ClientSize)
  | attaching (size : ClientSize) (pc : ApplyPc)
  | updating (held : Option ClientSize) (size : ClientSize)
  | removing (held : ClientSize)
  | scheduling (held : Option ClientSize)
  deriving DecidableEq

inductive Choice
  | request (r : Request)
  | proceed (ok : Bool)
  deriving DecidableEq

/-- A connection takes one message after the other. It drops the `AttachedClient` it holds before
it attaches again. -/
def Client.serve : Option ClientSize → Request → Option Client
  | none, .attach size => some (.inserting size)
  | some _, .attach _ => none
  | held, .updateSize size => some (.updating held size)
  | some held, .detach => some (.removing held)
  | none, .detach => none

/-- One atomic step of `attach_client`, `update_client_size` or `detach_client`. -/
def clientStep (E : Emulator T) (c : Choice) (clientId : Nat) :
    Client → SizedSession T → Option (SizedSession T × Client)
  | .idle held, s =>
    match c with
    | .request r => (Client.serve held r).map fun x => (s, x)
    | .proceed _ => none
  | .inserting size, s =>
    some ({ s with attachedSizes := s.attachedSizes.insert clientId size },
      .attaching size .computing)
  | .attaching size (.returned ok), s => some (s, .idle (if ok then some size else none))
  | .attaching size pc, s =>
    match c with
    | .proceed ok => (applyStep E ok pc s).map fun r => (r.1, .attaching size r.2)
    | .request _ => none
  | .updating held size, s =>
    some ({ s with attachedSizes := s.attachedSizes.modify clientId fun _ => size },
      .scheduling (held.map fun _ => size))
  | .removing _, s =>
    some ({ s with attachedSizes := s.attachedSizes.erase clientId }, .scheduling none)
  | .scheduling held, s => some (s.scheduleMinAttachedResize, .idle held)

/-- A connection, or another task of the session. -/
inductive Task
  | client (x : Client)
  | live (x : Live.Task)
  deriving DecidableEq

inductive Event
  | live (e : Live.Event)
  | resizeLoop (ok : Bool)
  deriving DecidableEq

/-- Every resize is one of these; the other tasks of a session are as they are. -/
def start : Task → Bool
  | .client x => x = .idle none
  | .live (.resize _ _) => false
  | .live x => Live.start x

/-- The number of a connection is its client id, which is made for it. -/
def advance (E : Emulator T) : Choice × Live.Choice → Nat → Task → SizedSession T →
    Option (SizedSession T × Task)
  | (c, _), i, .client x, s => (clientStep E c i x s).map fun r => (r.1, .client r.2)
  | (_, c), _, .live x, s =>
    (Live.advance E c x s.toLiveSession).map fun r => ({ s with toLiveSession := r.1 }, .live r.2)

def event (E : Emulator T) (infer : StateInfer) :
    Event → SizedSession T → Option (SizedSession T × Bool)
  | .live e, s =>
    (Live.event E infer e s.toLiveSession).map fun r => ({ s with toLiveSession := r.1 }, r.2)
  | .resizeLoop ok, s => (loopStep E ok s).map fun s => (s, true)

def tasking (E : Emulator T) (infer : StateInfer) :
    Tasking (SizedSession T) Task (Choice × Live.Choice) Event where
  init s := ∃ id name createdAt commandKind size store push,
    s = .spawn E id name createdAt commandKind size store push
  start := start
  -- No call waits for anything but a lock.
  cancellable _ := false
  advance := advance E
  environment := event E infer

/-- The sizes of the clients that hold an `AttachedClient`. -/
def attached (p : Pool (SizedSession T) Task) : Set ClientSize :=
  {size | ∃ i, p.task i = some (.client (.idle (some size)))}

/-- No call is in flight, and no resize is queued. -/
structure Quiescent (p : Pool (SizedSession T) Task) : Prop where
  clients : ∀ i x, p.task i = some (.client x) → ∃ held, x = .idle held
  resizeLoop : p.shared.resizeLoop = .waiting ∨ p.shared.resizeLoop = .timedOut ∨
    p.shared.resizeLoop = .ended
  resizeRequests : p.shared.resizeRequests = 0

/-- The least columns and the least rows. -/
def IsMin (sizes : Set ClientSize) (size : ClientSize) : Prop :=
  IsLeast (ClientSize.cols '' sizes) size.cols ∧ IsLeast (ClientSize.rows '' sizes) size.rows

/-- The terminal, the projection and the model inside it have one size. -/
structure Sized (s : SizedSession T) (size : ClientSize) : Prop where
  pty : s.pty = size
  terminal : s.terminal.size = size
  model : ∀ m, s.terminal.model = some m → m.size = size

end Resizing
end Shelly.Daemon
