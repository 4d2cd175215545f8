import Shelly.Daemon.Devices
import Shelly.Daemon.PushRequests
import Shelly.Daemon.RetryBudget
import Shelly.Framework.Machine

namespace Shelly.Daemon

/-- What the push dispatcher sends to its worker. -/
inductive WorkerCommand
  | setDaemonNodeId (daemonNodeId : String)
  | registerToken (platform : PushPlatform) (token : String)
  | unregisterToken (token : String)
  | publishPairingRendezvous (locator : String) (rendezvous : PairingRendezvous)
  | awaitingInput (sessionId : Wire.SessionId) (sessionName : String)
  | sessionCrashed (sessionId : Wire.SessionId) (sessionName : String)
  | buildFinished (sessionId : Wire.SessionId) (sessionName : String)
  deriving DecidableEq

/-- What the worker does. A post without an operation is one of `ensure_daemon_registered`. -/
inductive WorkerEvent
  | received (command : WorkerCommand)
  | listed (devices : List StoredDevice)
  | posted (daemonNodeId : String) (request : Option RelayOperation)
    (result : Except RelayError Unit)

/-- Where the worker stands. A request that was not posted yet has no deadline. -/
inductive WorkerPc
  | receiving
  | registering (command : WorkerCommand) (daemonNodeId : String) (deadline : Option Nat)
  | operating (daemonNodeId : String) (op : RelayOperation) (rest : List RelayOperation)
    (deadline : Option Nat) (firstError : Option RelayError)

/-- The worker with its queue and the devices, in the order in which the map yields them. The last
two fields are history: what the dispatcher has sent, and what the worker has done. -/
structure PushWorker where
  daemonNodeId : Option String
  daemonRegistered : Bool
  devices : List StoredDevice
  queue : List WorkerCommand
  clock : Nat
  pc : WorkerPc
  sent : List WorkerCommand
  history : List WorkerEvent

/-- What can happen next. A round makes one attempt of the request that is under way. -/
inductive WorkerAction
  | tick (ms : Nat)
  | send (command : WorkerCommand)
  | setDevices (devices : List StoredDevice)
  | receive
  | round (attempt : Attempt) (delay : Option Nat)

def relayRetryTotalDelay : Nat := 60 * 1000

/-- The tokens to push to, in their order. -/
def pushTargets (devices : List StoredDevice) : List (PushPlatform × String) :=
  (devices.filterMap fun d => d.pushPlatform.bind fun platform =>
    d.pushToken.map fun token => (platform, token)).mergeSort fun a b => decide (a.2 ≤ b.2)

/-- `dispatch_session_event`. The name of the session stays here. -/
def dispatchSessionEvent (devices : List StoredDevice) (sessionId : Wire.SessionId)
    (eventType : RelayPushEventType) : List RelayOperation :=
  (pushTargets devices).map fun (platform, token) => .push platform token sessionId eventType

/-- What a command asks of the relay once the daemon is registered. -/
def WorkerCommand.operations (devices : List StoredDevice) : WorkerCommand → List RelayOperation
  | .setDaemonNodeId _ => []
  | .registerToken platform token => [.registerToken platform token]
  | .unregisterToken token => [.unregisterToken token]
  | .publishPairingRendezvous locator rendezvous => [.publishPairingRendezvous locator rendezvous]
  | .awaitingInput sessionId _ => dispatchSessionEvent devices sessionId .awaitingInput
  | .sessionCrashed sessionId _ => dispatchSessionEvent devices sessionId .sessionCrashed
  | .buildFinished sessionId _ => dispatchSessionEvent devices sessionId .buildFinished

/-- An event of a session reads the devices. -/
def WorkerCommand.listing (devices : List StoredDevice) : WorkerCommand → List WorkerEvent
  | .awaitingInput _ _ | .sessionCrashed _ _ | .buildFinished _ _ => [.listed devices]
  | _ => []

/-- The name of an operation in the log. -/
def RelayOperation.label : RelayOperation → String
  | .registerToken _ _ => "register push token"
  | .unregisterToken _ => "unregister push token"
  | .publishPairingRendezvous _ _ => "publish pairing rendezvous"
  | .push _ _ _ .awaitingInput => "dispatch awaiting-input push"
  | .push _ _ _ .sessionCrashed => "dispatch session-crashed push"
  | .push _ _ _ .buildFinished => "dispatch build-finished push"

namespace PushWorker

def log (events : List WorkerEvent) (s : PushWorker) : PushWorker :=
  { s with history := s.history ++ events }

/-- What `PushWorker::run` stores for a command before it does anything else. -/
def take (s : PushWorker) : WorkerCommand → PushWorker
  | .setDaemonNodeId daemonNodeId =>
    { s with daemonNodeId := some daemonNodeId, daemonRegistered := false }
  | _ => s

/-- Goes on with the operations that are left. -/
def operate (daemonNodeId : String) (firstError : Option RelayError) (s : PushWorker) :
    List RelayOperation → PushWorker
  | [] => { s with pc := .receiving }
  | op :: rest => { s with pc := .operating daemonNodeId op rest none firstError }

/-- A command once the daemon is registered. -/
def serve (command : WorkerCommand) (daemonNodeId : String) (s : PushWorker) : PushWorker :=
  (s.log (command.listing s.devices)).operate daemonNodeId none (command.operations s.devices)

def receive (command : WorkerCommand) (s : PushWorker) : PushWorker :=
  let s := (s.take command).log [.received command]
  match s.daemonNodeId with
  -- The daemon iroh node id is not ready; this is only logged.
  | none => s
  | some daemonNodeId =>
    if s.daemonRegistered then s.serve command daemonNodeId
    else { s with pc := .registering command daemonNodeId none }

/-- The attempt of a round, if there is one, and how it ends. -/
def attempted (daemonNodeId : String) (request : Option RelayOperation) (label : String)
    (attempt : Attempt) (deadline now : Nat) : List WorkerEvent :=
  if deadline < now then []
  else
    let exceeded := RelayError.message s!"push relay {label} exceeded retry budget"
    [.posted daemonNodeId request (timeoutAt deadline exceeded now attempt).1]

def step : WorkerAction → PushWorker → Option PushWorker
  | .tick ms, s => some { s with clock := s.clock + ms }
  | .send command, s =>
    some { s with queue := s.queue ++ [command], sent := s.sent ++ [command] }
  | .setDevices devices, s => some { s with devices := devices }
  | .receive, s =>
    match s.pc, s.queue with
    | .receiving, command :: queue => some ({ s with queue := queue }.receive command)
    | _, _ => none
  | .round attempt delay, s =>
    match s.pc with
    | .receiving => none
    | .registering command daemonNodeId deadline =>
      let deadline := deadline.getD (s.clock + relayRetryTotalDelay)
      let s' := s.log (attempted daemonNodeId none "post relay JSON" attempt deadline s.clock)
      match retryRound "post relay JSON" attempt delay deadline s.clock with
      | .inl (.ok (), now) =>
        some ({ s' with clock := now, daemonRegistered := true }.serve command daemonNodeId)
      | .inl (.error _, now) => some { s' with clock := now, pc := .receiving }
      | .inr now =>
        some { s' with clock := now, pc := .registering command daemonNodeId (some deadline) }
    | .operating daemonNodeId op rest deadline firstError =>
      let deadline := deadline.getD (s.clock + relayRetryTotalDelay)
      let s' := s.log (attempted daemonNodeId (some op) op.label attempt deadline s.clock)
      match retryRound op.label attempt delay deadline s.clock with
      | .inl (.ok (), now) => some ({ s' with clock := now }.operate daemonNodeId firstError rest)
      | .inl (.error error, now) =>
        -- The other devices are still pushed to, and the first error is reported.
        some ({ s' with clock := now }.operate daemonNodeId (firstError <|> some error) rest)
      | .inr now =>
        some { s' with
          clock := now, pc := .operating daemonNodeId op rest (some deadline) firstError }

/-- A worker that was just spawned. -/
def spawned (devices : List StoredDevice) (clock : Nat) : PushWorker :=
  ⟨none, false, devices, [], clock, .receiving, [], []⟩

end PushWorker

def workerMachine : Machine PushWorker WorkerAction where
  init s := ∃ devices clock, s = .spawned devices clock
  step := PushWorker.step

end Shelly.Daemon
