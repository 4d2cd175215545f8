import Mathlib.Data.Finset.Dedup
import Mathlib.Data.Finset.Erase
import Mathlib.Data.Finset.Insert
import Shelly.Daemon.Session
import Shelly.Framework.Pool
import Shelly.Framework.Table

namespace Shelly.Daemon

def maxStoredSessions : Nat := 256

/-- The session registry. `objects` holds every session that was ever created here,
since a session lives on while some task still uses it; `sessions` is the live map.
`persisted` is the session table on disk, when there is one. `observer` is the task
that waits for a session to exit. The last four fields are history: the sessions
somebody asked to kill, those that a kill has removed from both maps, those whose
row a kill has removed, and those whose kill has returned without an error. -/
structure AppState where
  objects : Table SessionId Session
  sessions : Finset SessionId
  restored : Table SessionId StoredSession
  sessionNames : Finset String
  persisted : Option (Table SessionId StoredSession)
  sessionList : List SessionSummary
  observer : Table SessionId Nat
  mentioned : Finset SessionId
  gone : Finset SessionId
  erased : Finset SessionId
  killed : Finset SessionId

namespace AppState

/-- The live sessions, then the restored ones that are not live. -/
def summaries (s : AppState) : List SessionSummary :=
  (s.objects.entries.filter fun e => e.1 ∈ s.sessions).map (fun e => e.2.cachedSummary) ++
    (s.restored.entries.filter fun e => e.2.summary.id ∉ s.sessions).map (fun e => e.2.summary)

def publishSessionList (s : AppState) : AppState := { s with sessionList := s.summaries }

/-- Looks a session up in the live map. -/
def get (s : AppState) (id : SessionId) : Option Session :=
  if id ∈ s.sessions then s.objects.lookup id else none

theorem get_eq_some {s : AppState} {id : SessionId} {o : Session} :
    s.get id = some o ↔ id ∈ s.sessions ∧ s.objects.lookup id = some o :=
  Option.ite_none_right_eq_some

def update (s : AppState) (id : SessionId) (f : Session → Session) : AppState :=
  { s with objects := s.objects.modify id f }

/-- Writes the row of a session; without a store there is nothing to write. -/
def saveSession (s : AppState) (stored : StoredSession) : AppState :=
  { s with persisted := s.persisted.map fun rows => rows.insert stored.summary.id stored }

def removeSession (s : AppState) (id : SessionId) : AppState :=
  { s with persisted := s.persisted.map fun rows => rows.erase id }

end AppState

/-- Where a kill request stands. -/
inductive KillPc
  | looking
  | flagging (name : String)
  | signalling (name : String)
  | unregistering (name : String)
  | forgetting (removedName : Option String)
  | releasing (removedName : Option String)
  | erasing
  | publishing (ok : Bool)
  | returned (ok : Bool)
  deriving DecidableEq

/-- Where the eviction of a session that exited by itself stands. -/
inductive EvictPc
  | observing
  | looking
  | checking
  | capturing
  | naming (stored : StoredSession)
  | restoring (stored : StoredSession)
  | capping (stored : StoredSession)
  | cappingMap (stored : StoredSession) (oldest : SessionId)
  | cappingName (stored : StoredSession) (oldest : SessionId) (removed : Option StoredSession)
  | cappingRow (stored : StoredSession) (oldest : SessionId)
  | unregistering (stored : StoredSession)
  | rechecking (stored : StoredSession)
  | releasing (stored : StoredSession)
  | publishing
  | returned
  deriving DecidableEq

/-- Where one persisting of a session stands. -/
inductive PersistPc
  | starting
  | checking
  | capturing
  | saving (stored : StoredSession)
  | failed
  | returned
  deriving DecidableEq

inductive SessionTask
  | kill (id : SessionId) (pc : KillPc)
  | evict (id : SessionId) (pc : EvictPc)
  | persist (id : SessionId) (final : Bool) (pc : PersistPc)
  deriving DecidableEq

/-- How a call outside the model turns out: whether the child or the store reports
success, and which restored session is found to be the oldest. -/
structure SessionChoice where
  ok : Bool
  oldest : SessionId
  deriving DecidableEq

/-- One atomic step of `kill_session_for`. -/
def killStep (c : SessionChoice) (id : SessionId) :
    KillPc → AppState → Option (AppState × KillPc)
  | .looking, s =>
    let s := { s with mentioned := insert id s.mentioned }
    match s.get id with
    | some session => some (s, .flagging session.name)
    | none => some (s, .forgetting none)
  | .flagging name, s => some (s.update id fun o => { o with killed := true }, .signalling name)
  | .signalling name, s => some (s, if c.ok then .unregistering name else .returned false)
  | .unregistering name, s =>
    some ({ s with sessions := s.sessions.erase id }, .forgetting (some name))
  | .forgetting removedName, s =>
    some ({ s with restored := s.restored.erase id, gone := insert id s.gone },
      .releasing (removedName <|> (s.restored.lookup id).map (·.summary.name)))
  | .releasing removedName, s =>
    some ({ s with sessionNames := removedName.elim s.sessionNames s.sessionNames.erase }, .erasing)
  | .erasing, s =>
    if s.persisted.isNone || c.ok then
      some ({ s.removeSession id with erased := insert id s.erased }, .publishing true)
    else some (s, .publishing false)
  | .publishing ok, s =>
    some ({ s.publishSessionList with killed := if ok then insert id s.killed else s.killed },
      .returned ok)
  | .returned _, _ => none

/-- One atomic step of `evict_naturally_exited_session`, run once for a session by
its observer. -/
def evictStep (c : SessionChoice) (i : Nat) (id : SessionId) :
    EvictPc → AppState → Option (AppState × EvictPc)
  | .observing, s =>
    match s.observer.lookup id, s.objects.lookup id with
    | none, some session =>
      if session.exitCode.isSome then
        some ({ s with observer := s.observer.insert id i }, .looking)
      else none
    | _, _ => none
  | .looking, s => some (s, if (s.get id).isSome then .checking else .publishing)
  | .checking, s =>
    (s.objects.lookup id).map fun session =>
      (s, if session.killed then .publishing else .capturing)
  | .capturing, s => (s.objects.lookup id).map fun session => (s, .naming session.storedSnapshot)
  | .naming stored, s =>
    some ({ s with sessionNames := insert stored.summary.name s.sessionNames }, .restoring stored)
  | .restoring stored, s =>
    some ({ s with restored := s.restored.insert stored.summary.id stored }, .capping stored)
  | .capping stored, s =>
    if maxStoredSessions < s.restored.size then
      match s.restored.lookup c.oldest with
      | some oldest =>
        if s.restored.entries.all fun e =>
            oldest.summary.lastActivity ≤ e.2.summary.lastActivity then
          some (s, .cappingMap stored oldest.summary.id)
        else none
      | none => none
    else some (s, .unregistering stored)
  | .cappingMap stored oldest, s =>
    some ({ s with restored := s.restored.erase oldest },
      .cappingName stored oldest (s.restored.lookup oldest))
  | .cappingName stored oldest removed, s =>
    match removed with
    | some removed =>
      if oldest ∈ s.sessions then some (s, .cappingRow stored oldest)
      else
        some ({ s with sessionNames := s.sessionNames.erase removed.summary.name },
          .cappingRow stored oldest)
    | none => some (s, .cappingRow stored oldest)
  | .cappingRow stored oldest, s =>
    some (if c.ok then s.removeSession oldest else s, .capping stored)
  | .unregistering stored, s =>
    some ({ s with sessions := s.sessions.erase id }, .rechecking stored)
  | .rechecking stored, s =>
    some (s, if s.restored.contains id then .publishing else .releasing stored)
  | .releasing stored, s =>
    some ({ s with sessionNames := s.sessionNames.erase stored.summary.name }, .publishing)
  | .publishing, s => some (s.publishSessionList, .returned)
  | .returned, _ => none

/-- One atomic step of persisting a session: periodically if it is dirty, and once
more when it has exited. -/
def persistStep (c : SessionChoice) (id : SessionId) (final : Bool) :
    PersistPc → AppState → Option (AppState × PersistPc)
  | .starting, s =>
    (s.objects.lookup id).map fun session =>
      (s.update id fun o => { o with persistDirty := false },
        if final || session.persistDirty then .checking else .returned)
  | .checking, s =>
    (s.objects.lookup id).map fun session =>
      (s, if session.killed || s.persisted.isNone then .returned else .capturing)
  | .capturing, s => (s.objects.lookup id).map fun session => (s, .saving session.storedSnapshot)
  | .saving stored, s => some (if c.ok then (s.saveSession stored, .returned) else (s, .failed))
  | .failed, s => some (s.update id fun o => { o with persistDirty := true }, .returned)
  | .returned, _ => none

/-- What happens to the registry besides these tasks. -/
inductive SessionEvent
  | create (id : SessionId) (name : String) (now : Nat)
  | record (id : SessionId) (bytes : List UInt8)
  | markDirty (id : SessionId)
  | markExited (id : SessionId) (exitCode : Int)
  | restart (kept : List SessionId)
  deriving DecidableEq

/-- A created session has an identifier that nobody has seen before. A restart reads
back the rows that the startup pruning keeps. -/
def sessionEvent : SessionEvent → AppState → Option (AppState × Bool)
  | .create id name now, s =>
    if (s.objects.lookup id).isNone && (s.restored.lookup id).isNone &&
        ((s.persisted.getD .empty).lookup id).isNone && decide (id ∉ s.mentioned) &&
        decide (name ∉ s.sessionNames) then
      some ({ s with
        objects := s.objects.insert id (.spawn id name now)
        sessions := insert id s.sessions
        sessionNames := insert name s.sessionNames }.publishSessionList, true)
    else none
  | .record id bytes, s => some (s.update id fun o => (o.pushOutput bytes).2, true)
  | .markDirty id, s => some (s.update id fun o => { o with persistDirty := true }, true)
  | .markExited id exitCode, s =>
    some (s.update id fun o => { o with exitCode := o.exitCode <|> some exitCode }, true)
  | .restart kept, s =>
    s.persisted.map fun rows =>
      let rows := rows.retain fun id _ => id ∈ kept
      ({ s with
        objects := .empty
        sessions := ∅
        restored := rows
        sessionNames := (rows.entries.map fun e => e.2.summary.name).toFinset
        persisted := some rows
        sessionList := []
        observer := .empty
        gone := s.killed
        erased := s.killed }, false)

def sessionAdvance (c : SessionChoice) (i : Nat) :
    SessionTask → AppState → Option (AppState × SessionTask)
  | .kill id pc, s => (killStep c id pc s).map fun r => (r.1, .kill id r.2)
  | .evict id pc, s => (evictStep c i id pc s).map fun r => (r.1, .evict id r.2)
  | .persist id final pc, s => (persistStep c id final pc s).map fun r => (r.1, .persist id final r.2)

/-- A registry that was just opened: what is restored is what is on disk. -/
structure Opened (s : AppState) : Prop where
  sessions : s.sessions = ∅
  keyed : ∀ id stored, s.restored.lookup id = some stored → stored.summary.id = id
  rowKeyed : ∀ rows, s.persisted = some rows → ∀ id stored, rows.lookup id = some stored →
    stored.summary.id = id
  objects : s.objects = .empty
  gone : s.gone = ∅
  erased : s.erased = ∅
  killed : s.killed = ∅

/-- The registry of a daemon that has stored nothing yet. -/
def AppState.new : AppState where
  objects := .empty
  sessions := ∅
  restored := .empty
  sessionNames := ∅
  persisted := some .empty
  sessionList := []
  observer := .empty
  mentioned := ∅
  gone := ∅
  erased := ∅
  killed := ∅

theorem AppState.opened_new : Opened .new := by
  refine ⟨rfl, ?_, ?_, rfl, rfl, rfl, rfl⟩
  · intro id stored hl
    cases (Table.lookup_empty id).symm.trans hl
  · intro rows hrows id stored hl
    obtain rfl := Option.some.inj hrows
    cases (Table.lookup_empty id).symm.trans hl

def sessionTasking : Tasking AppState SessionTask SessionChoice SessionEvent where
  init := Opened
  start
    | .kill _ .looking => true
    | .evict _ .observing => true
    | .persist _ _ .starting => true
    | _ => false
  -- None of these functions waits, so none can be cancelled.
  cancellable _ := false
  advance := sessionAdvance
  environment := sessionEvent

end Shelly.Daemon
