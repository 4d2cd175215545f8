import Shelly.Daemon.AppState
import Shelly.Daemon.ExitFinal

namespace Shelly.Daemon

/-- A stored session with the rest of its summary. -/
structure RestoredSession extends StoredSession where
  state : AgentState
  lastLine : Option String
  deriving DecidableEq

namespace Eviction

/-- Where `create_session_for` stands, from the spawned session on. -/
inductive CreatePc
  | materializing
  | lining (line : Option String)
  | unrestoring
  | inserting
  | subscribing
  | checking (next : Nat)
  | spawning (next : Nat) (alreadyExited : Bool)
  | returned
  deriving DecidableEq

/-- Where `evict_naturally_exited_session` stands. -/
inductive EvictPc
  | looking
  | checking
  | capturing
  | summarizing (scrollback : Nat × List UInt8)
  | completing (scrollback : Nat × List UInt8) (summary : SessionSummary) (state : AgentState)
      (lastLine : Option String)
  | restoring (stored : RestoredSession)
  | capping
  | dropping (oldest : SessionId)
  | unregistering
  | returned
  deriving DecidableEq

/-- Where the session-list forwarder stands, once it has been spawned. -/
inductive ForwarderPc
  | unborn
  | receiving (next : Nat)
  | evicting (pc : EvictPc)
  deriving DecidableEq

end Eviction

/-- One session of the registry, from its creation to its eviction. `live` says whether it is in the
map of the live sessions. The last two fields are history: whether somebody has asked to kill it,
and whether the cap on the restored sessions has dropped it. -/
structure ObservedSession (T : Type*) where
  session : LiveSession T
  live : Bool
  restored : Table SessionId RestoredSession
  creator : Eviction.CreatePc
  forwarder : Eviction.ForwarderPc
  killRequested : Bool
  dropped : Bool

variable {T : Type*}

namespace ObservedSession

variable (s : ObservedSession T)

/-- The removal of the oldest restored session. -/
def dropOldest (oldest : SessionId) : ObservedSession T :=
  { s with
    restored := s.restored.erase oldest
    dropped := s.dropped || oldest == s.session.id }

/-- Whether this restored session may be found to be the oldest. -/
def isOldest (id : SessionId) : Bool :=
  (s.restored.lookup id).any fun oldest =>
    s.restored.entries.all fun e => oldest.summary.lastActivity ≤ e.2.summary.lastActivity

end ObservedSession

namespace Eviction

/-- One atomic step of `create_session_for`. The name of the session and the published list are
left out here. -/
def createStep (E : Emulator T) (s : ObservedSession T) : Option (ObservedSession T) :=
  match s.creator with
  | .materializing =>
    let (line, terminal) := s.session.terminal.lastNonEmptyLine E 80
    some { s with
      session := { s.session with terminal }
      creator := .lining (match line with
        | .ok line => line
        | .error _ => none) }
  | .lining line =>
    some { s with
      session := { s.session with lastLine := line <|> s.session.lastLine }
      creator := .unrestoring }
  | .unrestoring =>
    some { s with restored := s.restored.erase s.session.id, creator := .inserting }
  | .inserting => some { s with live := true, creator := .subscribing }
  | .subscribing => some { s with creator := .checking s.session.summaryUpdates.subscribe }
  | .checking next => some { s with creator := .spawning next s.session.exitCode.isSome }
  | .spawning next alreadyExited =>
    some { s with
      creator := .returned
      forwarder := if alreadyExited then .evicting .looking else .receiving next }
  | .returned => none

/-- One atomic step of `evict_naturally_exited_session`. -/
def evictStep (oldest : SessionId) (s : ObservedSession T) :
    EvictPc → Option (ObservedSession T × EvictPc)
  | .looking => some (s, if s.live then .checking else .returned)
  | .checking => some (s, if s.session.killed then .returned else .capturing)
  | .capturing => some (s, .summarizing s.session.ring.snapshot)
  | .summarizing scrollback =>
    some (s, .completing scrollback s.session.cachedSummary s.session.state s.session.lastLine)
  | .completing scrollback summary state lastLine =>
    let stored : StoredSession := ⟨summary, scrollback.1, scrollback.2, s.session.exitCode⟩
    some (s, .restoring ⟨stored, state, lastLine⟩)
  | .restoring stored =>
    some ({ s with restored := s.restored.insert stored.summary.id stored }, .capping)
  | .capping =>
    if maxStoredSessions < s.restored.size then
      if s.isOldest oldest then some (s, .dropping oldest) else none
    else some (s, .unregistering)
  | .dropping oldest => some (s.dropOldest oldest, .capping)
  | .unregistering => some ({ s with live := false }, .returned)
  | .returned => none

/-- One step of the forwarder. Any update but the last, and a loss of updates, only has the list
published. -/
def forwardStep (oldest : SessionId) (s : ObservedSession T) : Option (ObservedSession T) :=
  match s.forwarder with
  | .unborn => none
  | .receiving next =>
    (s.session.summaryUpdates.recv next).map fun r =>
      match r.1 with
      | .message true => { s with forwarder := .evicting .looking }
      | .message false | .lagged _ => { s with forwarder := .receiving r.2 }
  | .evicting pc => (evictStep oldest s pc).map fun r => { r.1 with forwarder := .evicting r.2 }

/-- What the rest of the daemon does: another thread of the session sets a state, other sessions
are evicted, capped and forgotten, and the session is asked to be killed. -/
inductive Event
  | setState (now : Nat) (state : AgentState) (lastLine : Option String)
  | restoreOther (stored : RestoredSession)
  | drop (oldest : SessionId)
  | forgetOther (id : SessionId)
  | requestKill
  | flagKilled
  | unregister
  | forget
  deriving DecidableEq

/-- The state of the exit has not been set yet, so that an update still comes before the exit. The
removals of a kill come after its request. -/
def eventStep (s : ObservedSession T) : Event → Option (ObservedSession T)
  | .setState now state lastLine =>
    if s.session.io.phase.final then none
    else some { s with session := s.session.setState now state lastLine }
  | .restoreOther stored =>
    if stored.summary.id = s.session.id then none
    else some { s with restored := s.restored.insert stored.summary.id stored }
  | .drop oldest =>
    if maxStoredSessions < s.restored.size ∧ s.isOldest oldest then some (s.dropOldest oldest)
    else none
  | .forgetOther id =>
    if id = s.session.id then none else some { s with restored := s.restored.erase id }
  | .requestKill => some { s with killRequested := true }
  | .flagKilled =>
    if s.killRequested then
      some { s with
        session := { s.session with toSession := { s.session.toSession with killed := true } } }
    else none
  | .unregister => if s.killRequested then some { s with live := false } else none
  | .forget =>
    if s.killRequested then some { s with restored := s.restored.erase s.session.id } else none

inductive Action
  | io (e : Live.Event)
  | create
  | forward (oldest : SessionId)
  | event (e : Event)
  deriving DecidableEq

/-- The session has just been spawned, under an id that nothing else has. -/
def machine (E : Emulator T) (infer : StateInfer) : Machine (ObservedSession T) Action where
  init s := (∃ id name createdAt commandKind size store push,
      s.session = .spawn E id name createdAt commandKind size store push) ∧
    s.live = false ∧ s.restored.lookup s.session.id = none ∧ s.creator = .materializing ∧
    s.forwarder = .unborn ∧ s.killRequested = false ∧ s.dropped = false
  step
    | .io .kill, _ => none
    | .io e, s => (Live.event E infer e s.session).map fun r => { s with session := r.1 }
    | .create, s => createStep E s
    | .forward oldest, s => forwardStep oldest s
    | .event e, s => eventStep s e

/-- The forwarder has dealt with everything that was sent to it. -/
def Consumed (s : ObservedSession T) : Prop :=
  s.forwarder = .evicting .returned ∨
    ∃ next, s.forwarder = .receiving next ∧ s.session.summaryUpdates.recv next = none

/-- What is kept of the session is its final form. -/
structure Recorded (s : LiveSession T) (stored : RestoredSession) : Prop where
  exit : ∃ exitCode, s.exitCode = some exitCode ∧ stored.exitCode = some exitCode ∧
    stored.state = LiveSession.exitState exitCode
  scrollback : (stored.scrollbackStartSeq, stored.scrollback) = s.ring.snapshot

/-- The exit code that `mark_exited` has set, while the state is still to be set. -/
def unsettled : Live.ExitPhase → Option Int
  | .settling exitCode => some exitCode
  | _ => none

/-- The forwarder is about to read the state of the session. -/
def ForwarderPc.readsState : ForwarderPc → Bool
  | .evicting (.summarizing _) => true
  | _ => false

/-- The eviction does not read the state of the session while `mark_exited` stands between the exit
code and the state, unless the session is in that state already. -/
def Careful (s : ObservedSession T) : Action → Prop
  | .forward _ => s.forwarder.readsState = true →
      ∀ exitCode ∈ unsettled s.session.io.phase, s.session.state = LiveSession.exitState exitCode
  | .io _ | .create | .event _ => True

instance (s : ObservedSession T) (a : Action) : Decidable (Careful s a) :=
  match a with
  | .forward _ => inferInstanceAs (Decidable (_ → ∀ exitCode ∈ unsettled s.session.io.phase, _))
  | .io _ | .create | .event _ => isTrue trivial

end Eviction
end Shelly.Daemon
