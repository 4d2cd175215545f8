import Shelly.Daemon.Contract

namespace Shelly.Cli

open Daemon

/-- The commands that talk to the daemon over a connection of their own. -/
inductive CliCall
  | removeDevice (name : String)
  | pairDevice
  | listDevices
  | runHook (id : SessionId) (source : AgentSource) (events : List (AgentState × Option String))
  | fetchSessions
  | createSessionSummary (call : CreateCall)
  | killSession (id : SessionId)
  | killAllSessions (ids : List SessionId)
  deriving DecidableEq

section Reads

-- How a reply is shown that is of no use.
variable (debug : Reply → String)

def readReply (wanted : Reply → Bool) (r : Reply) : Reading String :=
  if wanted r then .done
  else
    match r with
    | .client (.error _ message) => .failed message
    | other => .unexpected s!"unexpected daemon response: {debug other}"

def handshake : Reply → Reading String
  | .welcome => .done
  | .client (.error _ message) => .failed message
  | other => .unexpected s!"unexpected daemon response during handshake: {debug other}"

def killSessionById (id : SessionId) : Reply → Reading String
  | .client (.sessionKilled killed) =>
    if killed = id then .done
    else .unexpected s!"KillSession acknowledgement id mismatch: requested {id}, got {killed}"
  | .client (.error _ message) => .failed message
  | other => .unexpected s!"unexpected daemon response to KillSession: {debug other}"

def emitAgentStateEvent (id : SessionId) (state : AgentState) : Reply → Reading String :=
  readReply debug fun r =>
    match r with
    | .client (.agentStateChanged id' state' _) => decide (id' = id ∧ state' = state)
    | _ => false

/-- What a command makes of the first reply to one of its requests. -/
def reads : ClientToServerMsg → Reply → Reading String
  | .removeDevice _ | .listDevices => readReply debug fun r =>
      match r with | .deviceList _ => true | _ => false
  | .beginPairing => readReply debug fun r =>
      match r with | .pairingStarted _ _ _ => true | _ => false
  | .listSessions => readReply debug fun r =>
      match r with | .sessionList _ => true | _ => false
  | .createSession _ => readReply debug fun r =>
      match r with | .sessionCreated _ => true | _ => false
  | .killSession id => killSessionById debug id
  | .agentStateEvent id _ state _ => emitAgentStateEvent debug id state
  | _ => fun other => .unexpected s!"unexpected daemon response: {debug other}"

/-- Reads one reply for each request and stops at the first that is not what was asked for. -/
def readEach : List ClientToServerMsg → List Reply → Option (Reading String)
  | [], _ => some .done
  | _ :: _, [] => none
  | m :: ms, r :: rs =>
    match reads debug m r with
    | .done => readEach ms rs
    | other => some other

end Reads

namespace CliCall

/-- The requests of a command. The session to kill is looked up first. -/
def requests : CliCall → List ClientToServerMsg
  | .removeDevice name => [.removeDevice name]
  | .pairDevice => [.beginPairing]
  | .listDevices => [.listDevices]
  | .runHook id source events => events.map fun e => .agentStateEvent id source e.1 e.2
  | .fetchSessions => [.listSessions]
  | .createSessionSummary call => [.createSession call]
  | .killSession id => [.listSessions, .killSession id]
  | .killAllSessions ids => ids.map .killSession

/-- A pairing is approved or denied on the connection that has begun it, and no reply is read. -/
def sendsLater : CliCall → ClientToServerMsg → Bool
  | .pairDevice, .approvePairing _ _ => true
  | _, _ => false

/-- What has become of the command after all that was written to its connection. -/
def outcome (debug : Reply → String) (call : CliCall) : List Reply → Option (Reading String)
  | [] => none
  | r :: rs =>
    match handshake debug r with
    | .done => readEach debug call.requests rs
    | other => some other

end CliCall

end Shelly.Cli
