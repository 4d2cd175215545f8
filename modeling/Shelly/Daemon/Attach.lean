import Shelly.Framework.Machine
import Shelly.Daemon.Session

namespace Shelly.Daemon.Attach

/-- The thread that reads the child's terminal. -/
inductive PtyThread
  | reading
  | recorded (seq : Nat) (bytes : List UInt8)
  | exiting (exitCode : Int)
  | exited
  deriving DecidableEq

/-- The connection task inside one attach request. -/
inductive Handler
  | idle
  | attaching (lastSeenSeq : Option Nat)
  | subscribed (lastSeenSeq : Option Nat) (rx : Nat)
  | attached (rx : Nat) (initialBytes : List UInt8) (seq : Nat)
  | checkingExit (rx : Nat) (seq : Nat)
  | replying (messages : List ServerToClientMsg)
  deriving DecidableEq

/-- The task that copies broadcast events to the client. -/
inductive Forwarder
  | stopped
  | receiving (rx : Nat) (attachedSeq : Nat)
  | writing (rx : Nat) (attachedSeq : Nat) (event : ServerToClientMsg) (terminal : Bool)
  deriving DecidableEq

inductive AttachOutcome
  | detached
  | sessionExited (exitCode : Int)
  | daemonError (message : String)
  | unexpectedReply
  deriving DecidableEq

inductive Phase
  | sending
  | awaiting
  | attached
  | ended (outcome : AttachOutcome)
  deriving DecidableEq

/-- Bytes a client was given, and the offset in the stream they are given for. -/
structure Transcript where
  start : Nat
  bytes : List UInt8
  deriving DecidableEq

namespace Transcript

def append (t : Transcript) (bytes : List UInt8) : Transcript :=
  { t with bytes := t.bytes ++ bytes }

/-- The bytes are the part of the stream from the start to the number reached. -/
def Contiguous (t : Transcript) (stream : List UInt8) (lastSeenSeq : Option Nat) : Prop :=
  ∃ seq, lastSeenSeq = some seq ∧ t.start ≤ seq ∧ seq ≤ stream.length ∧
    t.bytes = stream.extract t.start seq

end Transcript

/-- The attach loop of the client. The last two fields are history: what the
current attach delivered if it was answered by a replay, and what was delivered
since the last rendered screen over all attaches. -/
structure Client where
  phase : Phase
  lastSeenSeq : Option Nat
  attachment : Option Transcript
  resumed : Option Transcript
  deriving DecidableEq

namespace Client

def finish (c : Client) (outcome : AttachOutcome) : Client := { c with phase := .ended outcome }

/-- Takes the bytes and the number of an attach reply. -/
def attach (c : Client) (replayed : Bool) (initialBytes : List UInt8) (seq : Nat) : Client where
  phase := .attached
  lastSeenSeq := some seq
  attachment := if replayed then c.lastSeenSeq.map fun start => ⟨start, initialBytes⟩ else none
  resumed :=
    if replayed then
      match c.resumed with
      | some t => some (t.append initialBytes)
      | none => c.lastSeenSeq.map fun start => ⟨start, initialBytes⟩
    else some ⟨seq, []⟩

def handleAttachReply (sessionId : SessionId) (replayed : Bool) (c : Client) :
    ServerToClientMsg → Client
  | .attached id initialBytes seq =>
    if id = sessionId then c.attach replayed initialBytes seq else c.finish .unexpectedReply
  | .error _ message => c.finish (.daemonError message)
  | _ => c.finish .unexpectedReply

def handleServerMessage (sessionId : SessionId) (c : Client) : ServerToClientMsg → Client
  | .output id seq bytes =>
    if id = sessionId then
      { c with
        lastSeenSeq := some seq
        attachment := c.attachment.map (·.append bytes)
        resumed := c.resumed.map (·.append bytes) }
    else c
  | .lag id _ => if id = sessionId then { c with phase := .sending } else c
  | .sessionExited id exitCode => if id = sessionId then c.finish (.sessionExited exitCode) else c
  | .error _ message => c.finish (.daemonError message)
  | _ => c

end Client

/-- One session, one connection to it and the client at its other end. `stream`
is history: every byte the child wrote. `replayed` is history: whether the last
attach was answered by a replay. -/
structure State where
  session : Session
  live : Bool
  restored : Option StoredSession
  pty : PtyThread
  request : Option (ClientSize × Option Nat)
  handler : Handler
  forwarder : Forwarder
  wire : List ServerToClientMsg
  client : Client
  stream : List UInt8
  replayed : Bool
  deriving DecidableEq

inductive Action
  | record (bytes : List UInt8)
  | broadcastOutput
  | markExited (exitCode : Int)
  | broadcastExit
  | setState (state : AgentState) (lastLine : Option String)
  | capture
  | unregister
  | forget
  | sendAttach (size : ClientSize)
  | leave
  | lookUp
  | subscribe (failure : Option String)
  | attachBytes (screen : List UInt8)
  | writeAttached
  | checkExit
  | writeReply
  | answer (code : ErrorCode) (message : String)
  | receive
  | forward
  | stopForwarder
  | read
  deriving DecidableEq

namespace State

def write (s : State) (m : ServerToClientMsg) : State := { s with wire := s.wire ++ [m] }

/-- The live session is attached to; a restored one is answered from its store. -/
def lookUp (s : State) (size : ClientSize) (lastSeenSeq : Option Nat) : State :=
  let s := { s with request := none }
  match invalidClientSize size with
  | some error => { s with handler := .replying [error] }
  | none =>
    if s.live then { s with handler := .attaching lastSeenSeq }
    else
      match s.restored with
      | some restored =>
        { s with
          replayed := false
          handler := .replying [
            .attached s.session.id restored.scrollback
              (saturatingAdd restored.scrollbackStartSeq restored.scrollback.length),
            .sessionExited s.session.id (restored.exitCode.getD 0)] }
      | none => { s with handler := .replying [sessionNotFound s.session.id] }

def subscribe (s : State) (lastSeenSeq : Option Nat) : Option String → State
  | some failure => { s with handler := .replying [.error .internal failure] }
  | none => { s with handler := .subscribed lastSeenSeq s.session.subscribers.subscribe }

def attachBytes (s : State) (lastSeenSeq : Option Nat) (rx : Nat) (screen : List UInt8) : State :=
  let (seq, initialBytes) := s.session.attachBytes lastSeenSeq screen
  { s with
    handler := .attached rx initialBytes seq
    replayed := s.session.replays lastSeenSeq }

/-- An exited session is answered at once; otherwise the forwarder starts. -/
def checkExit (s : State) (rx seq : Nat) : State :=
  match s.session.exitCode with
  | some exitCode => { s with handler := .replying [.sessionExited s.session.id exitCode] }
  | none => { s with handler := .idle, forwarder := .receiving rx seq }

def receive (s : State) (rx attachedSeq : Nat) : Option State :=
  (s.session.subscribers.recv rx).map fun
    | (.message event, rx) =>
      if outputWasReplayed event attachedSeq then
        { s with forwarder := .receiving rx attachedSeq }
      else { s with forwarder := .writing rx attachedSeq event false }
    | (.lagged skipped, rx) =>
      { s with forwarder := .writing rx attachedSeq (.lag s.session.id skipped) true }

def read (s : State) (m : ServerToClientMsg) (rest : List ServerToClientMsg) : Option State :=
  let s' := { s with wire := rest }
  match s.client.phase with
  | .awaiting => some { s' with client := s.client.handleAttachReply s.session.id s.replayed m }
  | .attached => some { s' with client := s.client.handleServerMessage s.session.id m }
  | _ => none

end State

def step : Action → State → Option State
  | .record bytes, s =>
    if s.pty = .reading then
      let (seq, session) := s.session.pushOutput bytes
      some { s with session, stream := s.stream ++ bytes, pty := .recorded seq bytes }
    else none
  | .broadcastOutput, s =>
    match s.pty with
    | .recorded seq bytes =>
      some { s with session := s.session.send (.output s.session.id seq bytes), pty := .reading }
    | _ => none
  | .markExited exitCode, s =>
    if s.pty = .reading then
      some { s with
        session := { s.session with exitCode := some exitCode }
        pty := .exiting exitCode }
    else none
  | .broadcastExit, s =>
    match s.pty with
    | .exiting exitCode =>
      some { s with
        session := s.session.send (.sessionExited s.session.id exitCode)
        pty := .exited }
    | _ => none
  | .setState state lastLine, s =>
    some { s with session := s.session.send (.agentStateChanged s.session.id state lastLine) }
  | .capture, s =>
    if s.session.exitCode.isSome then
      some { s with restored := some s.session.storedSnapshot }
    else none
  | .unregister, s => some { s with live := false }
  | .forget, s => some { s with restored := none }
  | .sendAttach size, s =>
    if s.client.phase = .sending then
      some { s with
        client := { s.client with phase := .awaiting }
        request := some (size, s.client.lastSeenSeq) }
    else none
  | .leave, s => some { s with client := s.client.finish .detached }
  | .lookUp, s =>
    match s.handler, s.request with
    | .idle, some (size, lastSeenSeq) => some (s.lookUp size lastSeenSeq)
    | _, _ => none
  | .subscribe failure, s =>
    match s.handler, s.forwarder with
    | .attaching lastSeenSeq, .stopped => some (s.subscribe lastSeenSeq failure)
    | _, _ => none
  | .attachBytes screen, s =>
    match s.handler with
    | .subscribed lastSeenSeq rx => some (s.attachBytes lastSeenSeq rx screen)
    | _ => none
  | .writeAttached, s =>
    match s.handler with
    | .attached rx initialBytes seq =>
      some { s.write (.attached s.session.id initialBytes seq) with handler := .checkingExit rx seq }
    | _ => none
  | .checkExit, s =>
    match s.handler with
    | .checkingExit rx seq => some (s.checkExit rx seq)
    | _ => none
  | .writeReply, s =>
    match s.handler with
    | .replying (m :: ms) =>
      some { s.write m with handler := if ms = [] then .idle else .replying ms }
    | _ => none
  | .answer code message, s =>
    if s.handler = .idle then some (s.write (.error code message)) else none
  | .receive, s =>
    match s.forwarder with
    | .receiving rx attachedSeq => s.receive rx attachedSeq
    | _ => none
  | .forward, s =>
    match s.forwarder with
    | .writing rx attachedSeq event terminal =>
      some { s.write event with
        forwarder := if terminal then .stopped else .receiving rx attachedSeq }
    | _ => none
  | .stopForwarder, s => some { s with forwarder := .stopped }
  | .read, s =>
    match s.wire with
    | m :: rest => s.read m rest
    | [] => none

def initial (id : SessionId) (name : String) (createdAt : Nat) (lastSeenSeq : Option Nat) :
    State where
  session := .spawn id name createdAt
  live := true
  restored := none
  pty := .reading
  request := none
  handler := .idle
  forwarder := .stopped
  wire := []
  client := ⟨.sending, lastSeenSeq, none, none⟩
  stream := []
  replayed := false

def machine : Machine State Action where
  init s := ∃ id name createdAt lastSeenSeq, s = initial id name createdAt lastSeenSeq
  step := step

end Shelly.Daemon.Attach
