import Shelly.Daemon.Contract
import Shelly.Mobile.PendingPairing

namespace Shelly.Mobile.Calls

open Daemon Pending

/-- The calls of the mobile core that open a stream of their own. -/
inductive ShellyCall
  | listSessions
  | createSession (name : Option String)
  | killSession (id : SessionId)
  | attachSessionFrom (id : SessionId) (lastSeenSeq : Option Nat)
  | subscribeSessions
  | registerPushToken (platform : PushPlatform) (token : String)
  | unregisterPushToken (platform : PushPlatform) (token : String)
  | unpairSelf
  | pairWithTicket (code deviceName deviceNodeId : String)
  deriving DecidableEq

section Reads

-- How a reply is shown that is of no use.
variable (debug : Daemon.Reply → String)

/-- Reads a reply of the wanted kind, or an error. -/
def readReply (during : String) (wanted : Daemon.Reply → Bool) (r : Daemon.Reply) :
    Reading ShellyError :=
  if wanted r then .done
  else
    match r with
    | .client (.error code message) => .failed (errorFromServer code message)
    | other => .unexpected s!"unexpected daemon response {during}: {debug other}"

def expectWelcome : Daemon.Reply → Reading ShellyError :=
  readReply debug "during handshake" fun r => match r with | .welcome => true | _ => false

def confirmSessionKilled (requestedId : SessionId) : Daemon.Reply → Reading ShellyError
  | .client (.sessionKilled id) =>
    if id = requestedId then .done
    else
      .unexpected
        s!"KillSession acknowledgement id mismatch: requested {requestedId}, got {id}"
  | .client (.error code message) => .failed (errorFromServer code message)
  | other => .unexpected s!"unexpected daemon response to KillSession: {debug other}"

/-- What `confirm` reads after the pending pairing. -/
def confirm : Daemon.Reply → Reading ShellyError :=
  readReply debug "during pairing confirmation" fun r =>
    match r with | .pairingComplete _ => true | _ => false

end Reads

namespace ShellyCall

def request : ShellyCall → ClientToServerMsg
  | .listSessions => .listSessions
  | .createSession name => .createSession ⟨name.getD "", [], "/", [], ⟨80, 24⟩⟩
  | .killSession id => .killSession id
  | .attachSessionFrom id lastSeenSeq => .attachSession id ⟨80, 24⟩ lastSeenSeq
  | .subscribeSessions => .subscribeSessions
  | .registerPushToken platform token => .registerPushToken platform token
  | .unregisterPushToken platform token => .unregisterPushToken platform token
  | .unpairSelf => .unpairSelf
  | .pairWithTicket code deviceName deviceNodeId => .pairWithCode code deviceName deviceNodeId

/-- What is sent on the stream later: the heartbeat of a subscription, and what the user does in a
session. -/
def sendsLater : ShellyCall → ClientToServerMsg → Bool
  | .subscribeSessions, .ping _ => true
  | .attachSessionFrom id _, .input id' _ | .attachSessionFrom id _, .resize id' _ => id' = id
  | .attachSessionFrom _ _, .detachSession => true
  | _, _ => false

variable (debug : Daemon.Reply → String)

/-- What the call makes of the first reply to its request. -/
def reads : ShellyCall → Daemon.Reply → Reading ShellyError
  | .listSessions => readReply debug "to ListSessions" fun r =>
      match r with | .sessionList _ => true | _ => false
  | .createSession _ => readReply debug "to CreateSession" fun r =>
      match r with | .sessionCreated _ => true | _ => false
  | .killSession id => confirmSessionKilled debug id
  | .attachSessionFrom _ _ => readReply debug "to AttachSession" fun r =>
      match r with | .client (.attached _ _ _) => true | _ => false
  | .subscribeSessions => readReply debug "to SubscribeSessions" fun r =>
      match r with | .sessionList _ | .pong _ => true | _ => false
  | .registerPushToken _ _ => readReply debug "to RegisterPushToken" fun r =>
      match r with | .pong _ => true | _ => false
  | .unregisterPushToken _ _ => readReply debug "to UnregisterPushToken" fun r =>
      match r with | .pong _ => true | _ => false
  | .unpairSelf => readReply debug "to UnpairSelf" fun r =>
      match r with | .pong _ => true | _ => false
  | .pairWithTicket _ _ _ => readReply debug "during pairing" fun r =>
      match r with | .pairingPending _ => true | _ => false

/-- Reads on until a reply is not of the kind that keeps the loop going. -/
def readAll (reads : Daemon.Reply → Reading ShellyError) :
    List Daemon.Reply → Option (Reading ShellyError)
  | [] => none
  | r :: rs =>
    match reads r with
    | .done => readAll reads rs
    | other => some other

/-- What has become of the call after the welcome. A subscription reads without end, and a pairing
reads once more when its short string is confirmed. -/
def answer (call : ShellyCall) (rs : List Daemon.Reply) : Option (Reading ShellyError) :=
  match call, rs with
  | .subscribeSessions, rs => readAll (call.reads debug) rs
  | .pairWithTicket _ _ _, r :: r' :: _ =>
    match call.reads debug r with
    | .done => some (confirm debug r')
    | other => some other
  | _, r :: _ => some (call.reads debug r)
  | _, [] => none

/-- What has become of the call after all that was written to its stream. -/
def outcome (call : ShellyCall) : List Daemon.Reply → Option (Reading ShellyError)
  | [] => none
  | r :: rs =>
    match expectWelcome debug r with
    | .done => call.answer debug rs
    | other => some other

end ShellyCall

end Shelly.Mobile.Calls
