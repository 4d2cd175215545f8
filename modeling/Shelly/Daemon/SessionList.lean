import Shelly.Daemon.LiveSession
import Shelly.Daemon.Listing

namespace Shelly.Daemon

/-- What a summary shows of the agent in a session. -/
structure AgentStatus where
  state : AgentState
  lastLine : Option String
  deriving DecidableEq

def AgentStatus.new : AgentStatus := ⟨.idle, none⟩

structure ListedSession where
  summary : SessionSummary
  agent : AgentStatus
  deriving DecidableEq

/-- The registry with what the session list depends on besides: the agents of the sessions, those
of the restored sessions as they were captured, the value of the watch channel and the flag of the
scheduled publication. `newest` is history: the task that computed a list last, as long as it has
not sent it. -/
structure SessionBoard where
  registry : Registry
  agents : Table SessionId AgentStatus
  captured : Table SessionId AgentStatus
  list : List ListedSession
  pending : Bool
  newest : Option Nat

namespace SessionBoard

variable (s : SessionBoard) (id : SessionId)

def agent : AgentStatus := (s.agents.lookup id).getD .new

def listedLive : Option ListedSession :=
  (s.registry.app.get id).map fun o => ⟨o.cachedSummary, s.agent id⟩

def listedRestored : Option ListedSession :=
  (s.registry.app.restored.lookup id).bind fun stored =>
    if stored.summary.id ∈ s.registry.app.sessions then none
    else some ⟨stored.summary, (s.captured.lookup id).getD .new⟩

/-- The maps are read in the order of the identifiers, which stands for the order they have. -/
def summaries : List ListedSession :=
  (s.registry.app.objects.inOrder.filterMap s.listedLive ++
    s.registry.app.restored.inOrder.filterMap s.listedRestored).insertionSort
      fun a b => a.summary.createdAt ≤ b.summary.createdAt

/-- What a new subscription gets first. -/
def subscribeWithInitial : List ListedSession := s.list

/-- The forwarder of the session waits for updates of its summary. -/
def forwards : Bool :=
  id ∈ s.registry.forwarders && (s.registry.app.observer.lookup id).isNone

/-- Changes the session and what its summary shows of its agent. -/
def setAgent (f : Session → Session) (agent : AgentStatus) : SessionBoard :=
  { s with
    registry := { s.registry with app := s.registry.app.update id f }
    agents := s.agents.insert id agent }

end SessionBoard

/-- Who changes the state of a session: its output, its input or the clock, the hook of its agent,
or its exit. -/
inductive Cause
  | session | hook | exit
  deriving DecidableEq

/-- What a change sets. An exit has no last line, and only output is activity. -/
structure StateChange where
  state : AgentState
  lastLine : Option String
  activity : Option Nat
  deriving DecidableEq

/-- Where a change of a session's state stands, from `mark_exited` or `set_state` over the update
that the forwarder gets to the scheduled publication. -/
inductive ChangePc
  | marking (exitCode : Int)
  | applying (cause : Cause) (change : StateChange)
  | notified
  | scheduling
  | sleeping
  | computing
  | sending (sessions : List ListedSession)
  | finished
  deriving DecidableEq

/-- An operation of the registry, one that has computed the list it publishes at its end, or a
change of a session's state. -/
inductive BoardTask
  | registry (task : RegistryTask)
  | sending (task : RegistryTask) (sessions : List ListedSession)
  | change (id : SessionId) (pc : ChangePc)
  deriving DecidableEq

/-- The operation publishes the list next. -/
def RegistryTask.publishes : RegistryTask → Bool
  | .create _ _ (.publishing _) => true
  | .session (.kill _ (.publishing _)) => true
  | .session (.evict _ .publishing) => true
  | _ => false

/-- The eviction captures its session next. -/
def RegistryTask.captures : RegistryTask → Option SessionId
  | .session (.evict id .capturing) => some id
  | _ => none

namespace SessionBoard

/-- Computes the list, as task `i`. -/
def compute (s : SessionBoard) (i : Nat) : SessionBoard := { s with newest := some i }

/-- Sends a list, as task `i`. -/
def send (s : SessionBoard) (i : Nat) (sessions : List ListedSession) : SessionBoard :=
  { s with
    list := sessions
    newest := if s.newest = some i then none else s.newest }

/-- The session as a change of its state leaves it. -/
def applied (s : SessionBoard) (id : SessionId) (change : StateChange) : SessionBoard :=
  s.setAgent id (fun o => { o with lastActivity := change.activity.getD o.lastActivity })
    ⟨change.state, change.lastLine <|> (s.agent id).lastLine⟩

end SessionBoard

/-- One atomic step of a change of a session's state, as task `i`. -/
def changeStep (i : Nat) (id : SessionId) :
    ChangePc → SessionBoard → Option (SessionBoard × ChangePc)
  | .marking exitCode, s =>
    (s.registry.app.objects.lookup id).map fun o =>
      if o.exitCode.isSome then (s, .finished)
      else
        ({ s with registry := { s.registry with
            app := s.registry.app.update id fun o => { o with exitCode := some exitCode } } },
          .applying .exit ⟨LiveSession.exitState exitCode, none, none⟩)
  | .applying .session change, s =>
    -- Output that leaves the state as it is reaches no list, and is left out here.
    (s.registry.app.objects.lookup id).map fun _ =>
      if (s.agent id).state = change.state then (s, .finished)
      else (s.applied id change, .notified)
  | .applying .hook change, s =>
    (s.registry.app.objects.lookup id).map fun _ => (s.applied id change, .scheduling)
  | .applying .exit change, s =>
    -- The forwarder evicts the session when it gets this update.
    (s.registry.app.objects.lookup id).map fun _ => (s.applied id change, .finished)
  | .notified, s => some (s, if s.forwards id then .scheduling else .finished)
  | .scheduling, s =>
    some (if s.pending then (s, .finished) else ({ s with pending := true }, .sleeping))
  | .sleeping, s => some ({ s with pending := false }, .computing)
  | .computing, s => some (s.compute i, .sending s.summaries)
  | .sending sessions, s => some (s.send i sessions, .finished)
  | .finished, _ => none

def boardAdvance (host : HostEnv) (c : RegistryChoice) (i : Nat) :
    BoardTask → SessionBoard → Option (SessionBoard × BoardTask)
  | .registry task, s =>
    if task.publishes then some (s.compute i, .sending task s.summaries)
    else
      (registryAdvance host c i task s.registry).map fun r =>
        ({ s with
            registry := r.1
            captured := task.captures.elim s.captured fun id => s.captured.insert id (s.agent id) },
          .registry r.2)
  | .sending task sessions, s =>
    (registryAdvance host c i task s.registry).map fun r =>
      ({ s.send i sessions with registry := r.1 }, .registry r.2)
  | .change id pc, s => (changeStep i id pc s).map fun r => (r.1, .change id r.2)

/-- What happens besides these tasks. A restart reads back what is stored of the agents. -/
inductive BoardEvent
  | session (e : SessionEvent)
  | restart (kept : List SessionId) (captured : Table SessionId AgentStatus)

def boardEvent : BoardEvent → SessionBoard → Option (SessionBoard × Bool)
  | .session (.restart _), _ => none
  | .session (.markExited _ _), _ => none
  | .session e, s => (registryEvent e s.registry).map fun r => ({ s with registry := r.1 }, r.2)
  | .restart kept captured, s =>
    (registryEvent (.restart kept) s.registry).map fun r =>
      (⟨r.1, .empty, captured, [], false, none⟩, r.2)

/-- An update may also come from a change that publishes by itself, or stand for updates that the
forwarder missed. -/
def boardTasking (host : HostEnv) : Tasking SessionBoard BoardTask RegistryChoice BoardEvent where
  init s := s = ⟨.new, .empty, .empty, [], false, none⟩
  start
    | .registry task => (registryTasking host).start task
    | .change _ (.marking _) => true
    | .change _ (.applying cause _) => cause ≠ .exit
    | .change _ .notified => true
    | _ => false
  cancellable _ := false
  advance := boardAdvance host
  environment := boardEvent

end Shelly.Daemon
