import Shelly.Daemon.Projection
import Shelly.Daemon.Server

namespace Shelly.Daemon

def idleAfterMs : Nat := 2000

def buildFinishedMinWorkingMs : Nat := 5000

def summaryUpdateCapacity : Nat := 128

/-- What a session asks the push dispatcher for. -/
inductive PushCommand
  | awaitingInput (sessionId : SessionId) (sessionName : String)
  | sessionCrashed (sessionId : SessionId) (sessionName : String)
  | buildFinished (sessionId : SessionId) (sessionName : String)
  deriving DecidableEq

/-- How the state of an agent is read off the last line of its screen. -/
structure StateInfer where
  claude : String → Option AgentState
  codex : String → Option AgentState

namespace Live

/-- Where one call of `persist` stands. -/
inductive SavePc
  | checking
  | capturing
  | completing (scrollbackStartSeq : Nat) (scrollback : List UInt8)
  | saving (stored : StoredSession)
  | returned (ok : Bool)
  deriving DecidableEq

/-- Where the thread that reads and writes the child's terminal stands: between two chunks, in
`record_output`, or in `mark_exited`. -/
inductive IoPc
  | reading
  | ingested (bytes : List UInt8) (seq : Nat) (failure : Option TerminalProjectionFailure)
  | rebuilding (bytes : List UInt8) (seq : Nat) (scrollback : Nat × List UInt8)
  | noting (bytes : List UInt8) (seq : Nat)
  | inspecting (bytes : List UInt8) (seq : Nat)
  | inferring (bytes : List UInt8) (seq : Nat) (line : String)
  | settingState (bytes : List UInt8) (seq : Nat) (state : AgentState) (line : Option String)
  | sending (bytes : List UInt8) (seq : Nat)
  | dirtying
  | exiting (exitCode : Int)
  | settling (exitCode : Int)
  | announcing (exitCode : Int)
  | reporting (exitCode : Int)
  | clearing
  | persisting (pc : SavePc)
  | updating
  | closing
  | exited
  deriving DecidableEq

end Live

/-- A session with everything its threads share. `row` is its row in the store, when there is a
store, and `push` the commands it has queued with their times, when there is a dispatcher. The last
two fields are history: every byte the child wrote, and every state that was set. -/
structure LiveSession (T : Type*) extends Session where
  commandKind : CommandKind
  state : AgentState
  workingSince : Option Nat
  lastLine : Option String
  responder : Responder
  terminal : TerminalProjection T
  summaryUpdates : Broadcast Bool
  row : Option (Option StoredSession)
  push : Option (List (PushCommand × Nat))
  io : Live.IoPc
  stream : List UInt8
  states : List AgentState

variable {T : Type*}

namespace LiveSession

def spawn (E : Emulator T) (id : SessionId) (name : String) (createdAt : Nat)
    (commandKind : CommandKind) (size : ClientSize) (store push : Bool) : LiveSession T where
  toSession := .spawn id name createdAt
  commandKind := commandKind
  state := .idle
  workingSince := none
  lastLine := none
  responder := .new
  terminal := .new E size
  summaryUpdates := .channel summaryUpdateCapacity
  row := if store then some none else none
  push := if push then some [] else none
  io := .reading
  stream := []
  states := []

variable (s : LiveSession T)

def sendPush (now : Nat) (command : PushCommand) : LiveSession T :=
  { s with push := s.push.map fun commands => commands ++ [(command, now)] }

def setState (now : Nat) (state : AgentState) (lastLine : Option String) : LiveSession T :=
  if s.state = state then s
  else
    let buildFinished := s.state == .working && state == .idle &&
      s.workingSince.any fun since => decide (buildFinishedMinWorkingMs ≤ now - since)
    let s' := { s with
      toSession := s.toSession.send (.agentStateChanged s.id state lastLine)
      state
      workingSince := if state = .working then some now else none
      summaryUpdates := s.summaryUpdates.send false
      states := s.states ++ [state] }
    if state = .awaitingInput then s'.sendPush now (.awaitingInput s.id s.name)
    else if buildFinished then s'.sendPush now (.buildFinished s.id s.name)
    else s'

/-- The state an exit leaves behind. -/
def exitState (exitCode : Int) : AgentState := if exitCode = 0 then .idle else .crashed

/-- The locked part of recording output: the ring and the projection together. -/
def recordOutput (E : Emulator T) (bytes : List UInt8) : LiveSession T :=
  let (seq, session) := s.toSession.pushOutput bytes
  let (failure, terminal, responder) :=
    s.terminal.ingest E s.stream.length bytes s.responder
  { s with
    toSession := session
    terminal, responder
    stream := s.stream ++ bytes
    io := .ingested bytes seq failure }

def rebuildTerminalProjection (E : Emulator T) (scrollback : Nat × List UInt8) : LiveSession T :=
  let (_, terminal, responder) := s.terminal.rebuild E scrollback.1 scrollback.2 s.responder
  { s with terminal, responder }

end LiveSession

namespace Live

/-- What the threads of a session find outside: the clock, and whether a call succeeds. -/
structure Choice where
  now : Nat
  ok : Bool
  deriving DecidableEq

/-- One atomic step of `persist`. -/
def saveStep (c : Choice) : SavePc → LiveSession T → Option (LiveSession T × SavePc)
  | .checking, s =>
    some (s, if s.killed || s.row.isNone then .returned true else .capturing)
  | .capturing, s => some (s, .completing s.ring.snapshot.1 s.ring.snapshot.2)
  | .completing scrollbackStartSeq scrollback, s =>
    some (s, .saving ⟨s.cachedSummary, scrollbackStartSeq, scrollback, s.exitCode⟩)
  | .saving stored, s =>
    if c.ok then some ({ s with row := s.row.map fun _ => some stored }, .returned true)
    else some (s, .returned false)
  | .returned _, _ => none

/-- One atomic step of the thread inside `record_output` or `mark_exited`. -/
def ioStep (E : Emulator T) (infer : StateInfer) (c : Choice) (s : LiveSession T) :
    Option (LiveSession T) :=
  match s.io with
  | .reading | .exited => none
  | .ingested bytes seq failure =>
    some { s with io :=
      if failure.any (·.invalidatedModel) then .rebuilding bytes seq s.ring.snapshot
      else .noting bytes seq }
  | .rebuilding bytes seq scrollback =>
    some { s.rebuildTerminalProjection E scrollback with io := .noting bytes seq }
  | .noting bytes seq =>
    some { s with
      toSession := { s.toSession with lastActivity := c.now }
      io := .inspecting bytes seq }
  | .inspecting bytes seq =>
    if s.commandKind = .unknown then some { s with io := .settingState bytes seq .working none }
    else
      -- A failed inspection is only logged.
      let (line, terminal) := s.terminal.lastNonEmptyLine E 80
      some { s with
        terminal
        io :=
          match line with
          | .ok (some line) => .inferring bytes seq line
          | _ => .settingState bytes seq .working none }
  | .inferring bytes seq line =>
    let inferred :=
      match s.commandKind with
      | .claude => infer.claude line
      | .codex => infer.codex line
      | .unknown => none
    some { s with
      lastLine := some line
      io := .settingState bytes seq (inferred.getD .working) (some line) }
  | .settingState bytes seq state line =>
    let s' := if state = .idle then s else s.setState c.now state line
    some { s' with io := .sending bytes seq }
  | .sending bytes seq =>
    some { s with toSession := s.toSession.send (.output s.id seq bytes), io := .dirtying }
  | .dirtying =>
    some { s with toSession := { s.toSession with persistDirty := true }, io := .reading }
  | .exiting exitCode =>
    if s.exitCode.isSome then some { s with io := .closing }
    else
      some { s with
        toSession := { s.toSession with exitCode := some exitCode }
        io := .settling exitCode }
  | .settling exitCode =>
    some { s with
      state := LiveSession.exitState exitCode
      states := s.states ++ [LiveSession.exitState exitCode]
      io := .announcing exitCode }
  | .announcing exitCode =>
    some { s with
      toSession := s.toSession.send (.sessionExited s.id exitCode)
      io := .reporting exitCode }
  | .reporting exitCode =>
    -- A clean exit and a kill are no crash.
    let s' :=
      if exitCode ≠ 0 ∧ s.killed = false then s.sendPush c.now (.sessionCrashed s.id s.name) else s
    some { s' with io := .clearing }
  | .clearing =>
    some { s with
      toSession := { s.toSession with persistDirty := false }
      io := .persisting .checking }
  | .persisting (.returned ok) =>
    some { s with
      toSession := { s.toSession with persistDirty := s.persistDirty || !ok }
      io := .updating }
  | .persisting pc => (saveStep c pc s).map fun r => { r.1 with io := .persisting r.2 }
  | .updating => some { s with summaryUpdates := s.summaryUpdates.send true, io := .closing }
  | .closing =>
    -- The receiving end of the input queue goes with the thread.
    some { s with
      responder := { s.responder with sender := { s.responder.sender with closed := true } }
      io := .exited }

/-- What the I/O thread meets between two chunks, its next step inside a call, and a kill. -/
inductive Event
  | read (bytes : List UInt8)
  | drain
  | exit (exitCode : Int)
  | proceed (c : Choice)
  | kill
  deriving DecidableEq

/-- The I/O thread, which is there from the start and survives every task. -/
def event (E : Emulator T) (infer : StateInfer) :
    Event → LiveSession T → Option (LiveSession T × Bool)
  | .read bytes, s =>
    if s.io = .reading ∧ bytes ≠ [] then some (s.recordOutput E bytes, true) else none
  | .drain, s =>
    if s.io = .reading then
      some ({ s with
        responder := { s.responder with
          sender := { s.responder.sender with queue := s.responder.sender.queue.tail } } }, true)
    else none
  | .exit exitCode, s =>
    if s.io = .reading then some ({ s with io := .exiting exitCode }, true) else none
  | .proceed c, s => (ioStep E infer c s).map fun s => (s, true)
  | .kill, s => some ({ s with toSession := { s.toSession with killed := true } }, true)

/-- Where `write_input` stands. -/
inductive InputPc
  | sending (bytes : List UInt8)
  | checking
  | setting
  | returned (error : Option PtyWriteError)
  deriving DecidableEq

/-- Where the idle loop stands. -/
inductive IdlePc
  | checking
  | measuring
  | comparing (idleFor : Nat)
  | setting
  | stopped
  deriving DecidableEq

structure HookCall where
  source : AgentSource
  state : AgentState
  lastLine : Option String
  deriving DecidableEq

/-- Where `apply_agent_state_event` stands. -/
inductive HookPc
  | checking
  | lining
  | caching (line : String)
  | setting
  | dirtying
  | reading
  | returned (result : Option (Option String))
  deriving DecidableEq

/-- Where `resize` stands. -/
inductive ResizePc
  | asking
  | resizing
  | capturing
  | rebuilding (scrollback : Nat × List UInt8)
  | returned (ok : Bool)
  deriving DecidableEq

/-- What an attach is given. `ingested` is history: what the model had read that rendered the
bytes; a raw scrollback stands for itself. -/
structure Attached where
  endSeq : Nat
  bytes : List UInt8
  cold : Bool
  ingested : List UInt8
  deriving DecidableEq

/-- Where `attach_bytes` stands. -/
inductive AttachPc
  | rendering
  | rebuilding (endSeq : Nat) (scrollback : Nat × List UInt8)
  | rerendering (endSeq : Nat) (scrollback : Nat × List UInt8)
  | returned (result : Attached)
  deriving DecidableEq

/-- Where `flush_dirty_persistence` stands. -/
inductive FlushPc
  | swapping
  | persisting (pc : SavePc)
  | returned
  deriving DecidableEq

inductive Task
  | input (pc : InputPc)
  | idle (pc : IdlePc)
  | hook (call : HookCall) (pc : HookPc)
  | resize (size : ClientSize) (pc : ResizePc)
  | attach (lastSeenSeq : Option Nat) (pc : AttachPc)
  | flush (pc : FlushPc)
  deriving DecidableEq

def inputStep (c : Choice) : InputPc → LiveSession T → Option (LiveSession T × InputPc)
  | .sending bytes, s =>
    match s.responder.sender.trySend bytes with
    | .ok sender => some ({ s with responder := { s.responder with sender } }, .checking)
    | .error error => some (s, .returned (some error))
  | .checking, s => some (s, if s.exitCode.isNone then .setting else .returned none)
  | .setting, s => some (s.setState c.now .working none, .returned none)
  | .returned _, _ => none

def idleStep (c : Choice) : IdlePc → LiveSession T → Option (LiveSession T × IdlePc)
  | .checking, s => some (s, if s.exitCode.isSome then .stopped else .measuring)
  | .measuring, s => some (s, .comparing (c.now - s.lastActivity))
  | .comparing idleFor, s =>
    some (s,
      if idleAfterMs ≤ idleFor ∧ s.state ≠ .idle ∧ s.state ≠ .awaitingInput then .setting
      else .checking)
  | .setting, s => some (s.setState c.now .idle none, .checking)
  | .stopped, _ => none

/-- The line of a hook event, cut to the length that is shown. -/
def HookCall.line (call : HookCall) : Option String :=
  call.lastLine.map fun line => String.ofList (line.toList.take 80)

def hookStep (c : Choice) (call : HookCall) :
    HookPc → LiveSession T → Option (LiveSession T × HookPc)
  | .checking, s =>
    some (s,
      if s.exitCode.isSome || !DaemonState.sourceMatchesCommand call.source s.commandKind then
        .returned none
      else .lining)
  | .lining, s =>
    match call.line with
    | some line => some ({ s with lastLine := some line }, .caching line)
    | none => some (s, .setting)
  | .caching line, s =>
    some ({ s with terminal := s.terminal.cacheLastNonEmptyLine line 80 }, .setting)
  | .setting, s => some (s.setState c.now call.state call.line, .dirtying)
  | .dirtying, s =>
    some ({ s with toSession := { s.toSession with persistDirty := true } }, .reading)
  | .reading, s => some (s, .returned (some s.lastLine))
  | .returned _, _ => none

def resizeStep (E : Emulator T) (c : Choice) (size : ClientSize) :
    ResizePc → LiveSession T → Option (LiveSession T × ResizePc)
  | .asking, s => some (s, if c.ok then .resizing else .returned false)
  | .resizing, s =>
    let (failure, terminal) := s.terminal.resize E size
    some ({ s with terminal }, if failure.isSome then .capturing else .returned true)
  | .capturing, s => some (s, .rebuilding s.ring.snapshot)
  | .rebuilding scrollback, s => some (s.rebuildTerminalProjection E scrollback, .returned true)
  | .returned _, _ => none

/-- What a snapshot of the projection gives, with the raw scrollback in its place if it fails. -/
def rendered (E : Emulator T) (s : LiveSession T) (endSeq : Nat) (raw : List UInt8) : Attached :=
  match s.terminal.snapshot E with
  | .ok bytes => ⟨endSeq, bytes, true, (s.terminal.model.map (·.ingested)).getD raw⟩
  | .error _ => ⟨endSeq, raw, true, raw⟩

def attachStep (E : Emulator T) (lastSeenSeq : Option Nat) :
    AttachPc → LiveSession T → Option (LiveSession T × AttachPc)
  | .rendering, s =>
    match lastSeenSeq.bind s.ring.replayFrom with
    | some (start, replay) =>
      some (s, .returned ⟨saturatingAdd start replay.length, replay, false, replay⟩)
    | none =>
      match s.terminal.snapshot E with
      | .error failure =>
        if failure.invalidatedModel then some (s, .rebuilding s.ring.endSeq s.ring.snapshot)
        else some (s, .returned (rendered E s s.ring.endSeq s.ring.snapshot.2))
      | .ok _ => some (s, .returned (rendered E s s.ring.endSeq s.ring.snapshot.2))
  | .rebuilding endSeq scrollback, s =>
    some (s.rebuildTerminalProjection E scrollback, .rerendering endSeq scrollback)
  | .rerendering endSeq scrollback, s => some (s, .returned (rendered E s endSeq scrollback.2))
  | .returned _, _ => none

def flushStep (c : Choice) : FlushPc → LiveSession T → Option (LiveSession T × FlushPc)
  | .swapping, s =>
    some ({ s with toSession := { s.toSession with persistDirty := false } },
      if s.persistDirty then .persisting .checking else .returned)
  | .persisting (.returned ok), s =>
    some ({ s with toSession := { s.toSession with persistDirty := s.persistDirty || !ok } },
      .returned)
  | .persisting pc, s => (saveStep c pc s).map fun r => (r.1, .persisting r.2)
  | .returned, _ => none

def advance (E : Emulator T) (c : Choice) : Task → LiveSession T → Option (LiveSession T × Task)
  | .input pc, s => (inputStep c pc s).map fun r => (r.1, .input r.2)
  | .idle pc, s => (idleStep c pc s).map fun r => (r.1, .idle r.2)
  | .hook call pc, s => (hookStep c call pc s).map fun r => (r.1, .hook call r.2)
  | .resize size pc, s => (resizeStep E c size pc s).map fun r => (r.1, .resize size r.2)
  | .attach lastSeenSeq pc, s =>
    (attachStep E lastSeenSeq pc s).map fun r => (r.1, .attach lastSeenSeq r.2)
  | .flush pc, s => (flushStep c pc s).map fun r => (r.1, .flush r.2)

def start : Task → Bool
  | .input (.sending _) => true
  | .idle .checking => true
  | .hook _ .checking => true
  | .resize _ .asking => true
  | .attach _ .rendering => true
  | .flush .swapping => true
  | _ => false

def tasking (E : Emulator T) (infer : StateInfer) :
    Tasking (LiveSession T) Task Choice Event where
  init s := ∃ id name createdAt commandKind size store push,
    s = .spawn E id name createdAt commandKind size store push
  start := start
  -- Threads, and functions that do not wait.
  cancellable _ := false
  advance c _ := advance E c
  environment := event E infer

/-- An inference that never finds anything. -/
def noInfer : StateInfer := ⟨fun _ => none, fun _ => none⟩

/-- A session that has just been spawned, and no task. -/
def opened (E : Emulator T) (commandKind : CommandKind) : Pool (LiveSession T) Task :=
  .empty (.spawn E 7 "shell" 0 commandKind ⟨80, 24⟩ true true)

theorem opened_init (E : Emulator T) (infer : StateInfer) (commandKind : CommandKind) :
    (tasking E infer).machine.init (opened E commandKind) :=
  Tasking.init_empty ⟨7, "shell", 0, commandKind, ⟨80, 24⟩, true, true, rfl⟩

end Live
end Shelly.Daemon
