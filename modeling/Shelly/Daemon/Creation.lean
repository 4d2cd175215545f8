import Shelly.Daemon.AppState
import Shelly.Protocol.Text

namespace Shelly.Daemon

inductive ClientKind
  | localCli | iosApp | androidApp
  deriving DecidableEq

/-- All paired clients may create or kill sessions. -/
def mayCreateOrKillSession (_ : ClientKind) : Bool := true

def mayEmitAgentStateEvent (clientKind : ClientKind) : Bool := clientKind == .localCli

def requiresShellOnlySessions (clientKind : ClientKind) : Bool :=
  clientKind == .iosApp || clientKind == .androidApp

inductive CommandKind
  | claude | codex | unknown
  deriving DecidableEq

/-- The last component of a path, unless the path ends in `..`. -/
def fileName (path : String) : Option String :=
  match ((path.toList.splitOn '/').filter fun part => part ≠ [] && part ≠ ['.']).getLast? with
  | none => none
  | some part => if part = ['.', '.'] then none else some (String.ofList part)

def classify (command : List String) : CommandKind :=
  match command with
  | [] => .unknown
  | program :: _ =>
    match (fileName program).getD program with
    | "claude" | "claude-code" => .claude
    | "codex" | "codex-exec" => .codex
    | _ => .unknown

/-- The environment of the daemon itself, as far as sessions depend on it. -/
structure HostEnv where
  shell : Option String
  home : Option String
  deriving DecidableEq

namespace HostEnv

def defaultShellFromEnv (host : HostEnv) : String :=
  ((host.shell.map trim).filter (· ≠ "")).getD "/bin/sh"

def defaultSessionCommand (host : HostEnv) : List String := [host.defaultShellFromEnv]

def defaultHomeDir (host : HostEnv) : String := (host.home.filter (· ≠ "")).getD "/"

end HostEnv

/-- The fields of a request for a new session. -/
structure CreateCall where
  name : String
  command : List String
  cwd : String
  env : List (String × String)
  size : ClientSize
  deriving DecidableEq

/-- What a session is started with. `env` has the last word on each variable. -/
structure SessionProcess where
  command : List String
  commandKind : CommandKind
  cwd : String
  env : List (String × String)
  deriving DecidableEq

def SessionProcess.spawn (id : SessionId) (command : List String) (cwd : String)
    (env : List (String × String)) : SessionProcess where
  command := command
  commandKind := classify command
  cwd := cwd
  env := [("TERM", "xterm-256color"), ("COLORTERM", "truecolor"),
    ("SHELLY_SESSION_ID", toString id)] ++ env

/-- The command, the working directory and the environment of a new session. -/
def CreateCall.effective (host : HostEnv) (clientKind : ClientKind) (call : CreateCall) :
    List String × String × List (String × String) :=
  if requiresShellOnlySessions clientKind then
    (host.defaultSessionCommand, host.defaultHomeDir, [])
  else (call.command, call.cwd, call.env)

def autoSessionNames : List String :=
  ["waffle", "pickle", "noodle", "bagel", "nacho", "spatula", "kazoo", "widget", "pancake",
    "sprocket", "marble", "boomerang", "muffin", "donut", "toaster", "sprinkle", "gizmo",
    "jellybean"]

/-- The names to try: each automatic name once, beginning with `start`, then the first one with
the suffixes from 2 on. -/
def autoSessionName (start attempt : Nat) : String :=
  let n := autoSessionNames.length
  if attempt < n then autoSessionNames.getD ((start + attempt) % n) ""
  else
    let base := autoSessionNames.getD (start % n) ""
    -- A suffix has 32 bits; in a release build the lowest number follows the highest one.
    let suffix := Int.bmod ((attempt - n + 2 : Nat) : Int) (2 ^ 32)
    s!"{base}{suffix}"

def validateRequestedSessionName (requested : String) : Except String (Option String) :=
  let name := trim requested
  if name.toList.any isControl then .error "session name cannot contain control characters"
  else .ok (if name = "" then none else some name)

/-- The registry with the steps of a creation in between. `processes` says what each session
runs, and `forwarders` which of them are watched for their exit. `issued` is history: the
identifiers of all sessions that were ever created, with the task that created them. -/
structure Registry where
  app : AppState
  processes : Table SessionId SessionProcess
  forwarders : Finset SessionId
  issued : Table SessionId Nat

inductive CreateResult
  | created (sessionId : SessionId)
  | failed (error : ServerToClientMsg)
  deriving DecidableEq

/-- Where `create_session_for` stands. -/
inductive CreatePc
  | start
  | reserving (name : String)
  | autoNaming (start attempt : Nat)
  | spawning (name : String)
  | dropping (name : String) (message : String)
  | unrestoring (id : SessionId) (name : String)
  | inserting (id : SessionId) (name : String)
  | forwarding (id : SessionId)
  | publishing (id : SessionId)
  | returned (result : CreateResult)
  deriving DecidableEq

/-- What the outside decides: the answers of child processes and of the store, the oldest
restored session, and for a new session its identifier, the time, the place in the list of
names and the text of an error. -/
structure RegistryChoice extends SessionChoice where
  id : SessionId
  now : Nat
  start : Nat
  message : String
  deriving DecidableEq

/-- One atomic step of `create_session_for`, for task `i`. -/
def createStep (host : HostEnv) (c : RegistryChoice) (i : Nat) (clientKind : ClientKind)
    (call : CreateCall) : CreatePc → Registry → Option (Registry × CreatePc)
  | .start, r =>
    match invalidClientSize call.size with
    | some error => some (r, .returned (.failed error))
    | none =>
      match validateRequestedSessionName call.name with
      | .error message => some (r, .returned (.failed (.error .invalidRequest message)))
      | .ok (some name) => some (r, .reserving name)
      | .ok none => some (r, .autoNaming c.start 0)
  | .reserving name, r =>
    if name ∈ r.app.sessionNames then
      some (r, .returned (.failed (.error .invalidRequest s!"session name already exists: {name}")))
    else
      some ({ r with app := { r.app with sessionNames := insert name r.app.sessionNames } },
        .spawning name)
  | .autoNaming start attempt, r =>
    let name := autoSessionName start attempt
    if name ∈ r.app.sessionNames then some (r, .autoNaming start (attempt + 1))
    else
      some ({ r with app := { r.app with sessionNames := insert name r.app.sessionNames } },
        .spawning name)
  | .spawning name, r =>
    let (command, cwd, env) := call.effective host clientKind
    if command = [] then some (r, .dropping name "session command must not be empty")
    else if c.ok then
      -- An identifier is used once, and nobody has named it before.
      if (r.issued.lookup c.id).isNone && decide (c.id ∉ r.app.mentioned) then
        some ({ r with
          app := { r.app with objects := r.app.objects.insert c.id (.spawn c.id name c.now) }
          processes := r.processes.insert c.id (.spawn c.id command cwd env)
          issued := r.issued.insert c.id i }, .unrestoring c.id name)
      else none
    else some (r, .dropping name c.message)
  | .dropping name message, r =>
    some ({ r with app := { r.app with sessionNames := r.app.sessionNames.erase name } },
      .returned (.failed (.error .invalidRequest message)))
  | .unrestoring id name, r =>
    some ({ r with app := { r.app with restored := r.app.restored.erase id } },
      .inserting id name)
  | .inserting id _, r =>
    some ({ r with app := { r.app with sessions := insert id r.app.sessions } }, .forwarding id)
  | .forwarding id, r => some ({ r with forwarders := insert id r.forwarders }, .publishing id)
  | .publishing id, r =>
    some ({ r with app := r.app.publishSessionList }, .returned (.created id))
  | .returned _, _ => none

inductive RegistryTask
  | create (clientKind : ClientKind) (call : CreateCall) (pc : CreatePc)
  | session (task : SessionTask)
  deriving DecidableEq

/-- A session is observed by the forwarder that its creation starts. -/
def registryAdvance (host : HostEnv) (c : RegistryChoice) (i : Nat) :
    RegistryTask → Registry → Option (Registry × RegistryTask)
  | .create clientKind call pc, r =>
    (createStep host c i clientKind call pc r).map fun x => (x.1, .create clientKind call x.2)
  | .session (.evict id .observing), r =>
    if id ∈ r.forwarders then
      (sessionAdvance c.toSessionChoice i (.evict id .observing) r.app).map fun x =>
        ({ r with app := x.1 }, .session x.2)
    else none
  | .session task, r =>
    (sessionAdvance c.toSessionChoice i task r.app).map fun x =>
      ({ r with app := x.1 }, .session x.2)

/-- The events of the registry besides creations, which are tasks here. -/
def registryEvent : SessionEvent → Registry → Option (Registry × Bool)
  | .create _ _ _, _ => none
  | .restart kept, r =>
    (sessionEvent (.restart kept) r.app).map fun x =>
      ({ r with app := x.1, processes := .empty, forwarders := ∅ }, x.2)
  | e, r => (sessionEvent e r.app).map fun x => ({ r with app := x.1 }, x.2)

/-- The registry of a daemon that has stored nothing yet. -/
def Registry.new : Registry := ⟨.new, .empty, ∅, .empty⟩

def registryTasking (host : HostEnv) :
    Tasking Registry RegistryTask RegistryChoice SessionEvent where
  init r := r = .new
  start
    | .create _ _ .start => true
    | .session task => sessionTasking.start task
    | _ => false
  -- None of these functions waits, so none can be cancelled.
  cancellable _ := false
  advance := registryAdvance host
  environment := registryEvent

end Shelly.Daemon
