import Shelly.Daemon.AppState

namespace Shelly.Daemon

/-- How the child of a session takes a kill: its lock is poisoned, its status cannot be read, it has
exited, or it runs, and the kill may fail. -/
inductive Child
  | poisoned
  | unknown (error : String)
  | exited
  | running (error : Option String)
  deriving DecidableEq

/-- What the I/O thread of a session looks at, and the process groups that were signalled. -/
structure SessionIo where
  processGroup : Option Int
  ioShutdown : Bool
  signalled : List Int
  deriving DecidableEq

namespace FailedKill

/-- The result for the child itself. An error comes with its contexts, the last one first. -/
def primaryResult : Child → Except (List String) Unit
  | .poisoned => .error ["PTY child lock poisoned"]
  | .unknown error => .error ["check PTY child status", error]
  | .exited => .ok ()
  | .running none => .ok ()
  | .running (some error) => .error ["kill PTY child", error]

def signalProcessGroup (io : SessionIo) : SessionIo :=
  match io.processGroup with
  | some pid => if 0 < pid then { io with signalled := io.signalled ++ [pid] } else io
  | none => io

/-- `Session::kill`. -/
def kill (child : Child) (session : Session) (io : SessionIo) :
    Except (List String) Unit × Session × SessionIo :=
  let session := { session with killed := true }
  let result := primaryResult child
  let io := signalProcessGroup io
  (result, session, { io with ioShutdown := true })

/-- What `kill_session_for` returns and leaves. -/
structure Outcome where
  result : Except (List String) Unit
  app : AppState
  io : SessionIo

/-- The end of `kill_session_for`, once the session is not live. -/
def forget (storeError : Option String) (id : SessionId) (removedName : Option String)
    (s : AppState) (io : SessionIo) : Outcome :=
  let removedName := removedName <|> (s.restored.lookup id).map (·.summary.name)
  let s := { s with restored := s.restored.erase id, gone := insert id s.gone }
  let s := { s with sessionNames := removedName.elim s.sessionNames s.sessionNames.erase }
  match if s.persisted.isNone then none else storeError with
  | some error =>
    ⟨.error [s!"remove persisted session {id}", error], s.publishSessionList, io⟩
  | none =>
    let s := { s.removeSession id with erased := insert id s.erased }
    ⟨.ok (), { s.publishSessionList with killed := insert id s.killed }, io⟩

def killSessionFor (child : Child) (storeError : Option String) (id : SessionId) (s : AppState)
    (io : SessionIo) : Outcome :=
  let s := { s with mentioned := insert id s.mentioned }
  match s.get id with
  | some session =>
    let (result, session', io) := kill child session io
    let s := s.update id fun _ => session'
    match result with
    | .error error => ⟨.error (s!"kill session {id}" :: error), s, io⟩
    | .ok () =>
      forget storeError id (some session.name) { s with sessions := s.sessions.erase id } io
  | none => forget storeError id none s io

/-- What happens to a session later by itself. -/
inductive Later
  | record (bytes : List UInt8)
  | markDirty
  | markExited (exitCode : Int)
  deriving DecidableEq

def Later.event (id : SessionId) : Later → SessionEvent
  | .record bytes => .record id bytes
  | .markDirty => .markDirty id
  | .markExited exitCode => .markExited id exitCode

def afterwards (id : SessionId) (later : List Later) (s : AppState) : AppState :=
  later.foldl (fun s l => ((sessionEvent (l.event id) s).map (·.1)).getD s) s

/-- What a step stores: a snapshot in the row of the session, or one among the restored sessions. -/
def stores (c : SessionChoice) : SessionTask → Option StoredSession
  | .persist _ _ (.saving stored) => if c.ok then some stored else none
  | .evict _ (.restoring stored) => some stored
  | _ => none

/-- What a task stores that runs with these answers from outside. -/
def storedBy : List SessionChoice → SessionTask → AppState → List StoredSession
  | [], _, _ => []
  | c :: cs, x, s =>
    match sessionAdvance c 0 x s with
    | none => []
    | some (s', x') => (stores c x).toList ++ storedBy cs x' s'

/-- Nothing tells afterwards that there was a kill: the session is listed and has its name, and
whatever happens to it later, a flush stores what it would have stored, and so does the eviction;
and the I/O thread goes on as it would have. -/
structure AsBefore (id : SessionId) (s : AppState) (io : SessionIo) (r : Outcome) : Prop where
  listed : id ∈ r.app.sessions ∧ ∀ summary, summary ∈ r.app.summaries ↔ summary ∈ s.summaries
  reserved : r.app.sessionNames = s.sessionNames
  persisted : ∀ later final choices,
    storedBy choices (.persist id final .starting) (afterwards id later r.app) =
      storedBy choices (.persist id final .starting) (afterwards id later s)
  evicted : ∀ later choices,
    storedBy choices (.evict id .looking) (afterwards id later r.app) =
      storedBy choices (.evict id .looking) (afterwards id later s)
  reading : r.io.ioShutdown = io.ioShutdown

/-! ### The steps of a kill -/

/-- The registries differ at most in the order of a table and in their history. -/
structure Same (s t : AppState) : Prop where
  objects : ∀ id, t.objects.lookup id = s.objects.lookup id
  sessions : t.sessions = s.sessions
  restored : t.restored = s.restored
  sessionNames : t.sessionNames = s.sessionNames
  persisted : t.persisted = s.persisted
  observer : t.observer = s.observer

variable {s t s' : AppState} {id : SessionId} {c : SessionChoice} {x x' : SessionTask}

theorem Same.refl (s : AppState) : Same s s := ⟨fun _ => rfl, rfl, rfl, rfl, rfl, rfl⟩

theorem Same.get (h : Same s t) (id : SessionId) : t.get id = s.get id := by
  unfold AppState.get
  rw [h.sessions, h.objects]

theorem Same.update (h : Same s t) (id : SessionId) (f : Session → Session) :
    Same (s.update id f) (t.update id f) := by
  refine { h with objects := fun k => ?_ }
  simp only [AppState.update, Table.lookup_modify, h.objects]

theorem Same.saveSession (h : Same s t) (stored : StoredSession) :
    Same (s.saveSession stored) (t.saveSession stored) := by
  refine { h with persisted := ?_ }
  simp only [AppState.saveSession, h.persisted]

theorem Same.removeSession (h : Same s t) (id : SessionId) :
    Same (s.removeSession id) (t.removeSession id) := by
  refine { h with persisted := ?_ }
  simp only [AppState.removeSession, h.persisted]

theorem same_event (h : Same s t) (id : SessionId) (l : Later) :
    Same (((sessionEvent (l.event id) s).map (·.1)).getD s)
      (((sessionEvent (l.event id) t).map (·.1)).getD t) := by
  cases l with
  | record bytes => exact h.update id _
  | markDirty => exact h.update id _
  | markExited exitCode => exact h.update id _

theorem same_afterwards (h : Same s t) (id : SessionId) (later : List Later) :
    Same (afterwards id later s) (afterwards id later t) := by
  induction later generalizing s t with
  | nil => exact h
  | cons l later ih => exact ih (same_event h id l)

/-- Two steps fail together, or they come to the same place and leave the registries alike. -/
def Alike {τ : Type} : Option (AppState × τ) → Option (AppState × τ) → Prop
  | some r, some r' => r'.2 = r.2 ∧ Same r.1 r'.1
  | none, none => True
  | _, _ => False

theorem alike_persist (h : Same s t) (c : SessionChoice) (id : SessionId) (final : Bool)
    (pc : PersistPc) : Alike (persistStep c id final pc s) (persistStep c id final pc t) := by
  have hobject := h.objects id
  cases pc with
  | starting =>
    simp only [persistStep, hobject]
    cases s.objects.lookup id with
    | none => trivial
    | some o => exact ⟨rfl, h.update id _⟩
  | checking =>
    simp only [persistStep, hobject, h.persisted]
    cases s.objects.lookup id with
    | none => trivial
    | some o => exact ⟨rfl, h⟩
  | capturing =>
    simp only [persistStep, hobject]
    cases s.objects.lookup id with
    | none => trivial
    | some o => exact ⟨rfl, h⟩
  | saving stored =>
    simp only [persistStep]
    split
    · exact ⟨rfl, h.saveSession stored⟩
    · exact ⟨rfl, h⟩
  | failed => exact ⟨rfl, h.update id _⟩
  | returned => trivial

theorem alike_evict (h : Same s t) (c : SessionChoice) (i : Nat) (id : SessionId) (pc : EvictPc) :
    Alike (evictStep c i id pc s) (evictStep c i id pc t) := by
  have hobject := h.objects id
  cases pc with
  | observing =>
    simp only [evictStep, hobject, h.observer]
    split
    · split
      · exact ⟨rfl, { h with observer := rfl }⟩
      · trivial
    · trivial
  | looking =>
    simp only [evictStep, h.get]
    exact ⟨rfl, h⟩
  | checking =>
    simp only [evictStep, hobject]
    cases s.objects.lookup id with
    | none => trivial
    | some o => exact ⟨rfl, h⟩
  | capturing =>
    simp only [evictStep, hobject]
    cases s.objects.lookup id with
    | none => trivial
    | some o => exact ⟨rfl, h⟩
  | naming stored => exact ⟨rfl, { h with sessionNames := by simp only [h.sessionNames] }⟩
  | restoring stored => exact ⟨rfl, { h with restored := by simp only [h.restored] }⟩
  | capping stored =>
    simp only [evictStep, h.restored]
    split
    · split
      · split
        · exact ⟨rfl, h⟩
        · trivial
      · trivial
    · exact ⟨rfl, h⟩
  | cappingMap stored oldest =>
    simp only [evictStep, h.restored]
    exact ⟨rfl, { h with restored := rfl }⟩
  | cappingName stored oldest removed =>
    simp only [evictStep, h.sessions, h.sessionNames]
    split
    · split
      · exact ⟨rfl, h⟩
      · exact ⟨rfl, { h with sessions := rfl, sessionNames := rfl }⟩
    · exact ⟨rfl, h⟩
  | cappingRow stored oldest =>
    simp only [evictStep]
    split
    · exact ⟨rfl, h.removeSession oldest⟩
    · exact ⟨rfl, h⟩
  | unregistering stored => exact ⟨rfl, { h with sessions := by simp only [h.sessions] }⟩
  | rechecking stored =>
    simp only [evictStep, h.restored]
    exact ⟨rfl, h⟩
  | releasing stored => exact ⟨rfl, { h with sessionNames := by simp only [h.sessionNames] }⟩
  | publishing => exact ⟨rfl, { h with }⟩
  | returned => trivial

/-- Tasks that take the same steps store the same. -/
theorem storedBy_alike {π : Type} (task : π → SessionTask)
    {step : SessionChoice → π → AppState → Option (AppState × π)}
    (htask : ∀ c pc s, sessionAdvance c 0 (task pc) s = (step c pc s).map fun r => (r.1, task r.2))
    (halike : ∀ c pc s t, Same s t → Alike (step c pc s) (step c pc t))
    (choices : List SessionChoice) (pc : π) (h : Same s t) :
    storedBy choices (task pc) t = storedBy choices (task pc) s := by
  induction choices generalizing pc s t with
  | nil => rfl
  | cons c choices ih =>
    have hstep := halike c pc s t h
    simp only [storedBy, htask]
    cases hs : step c pc s with
    | none =>
      cases ht : step c pc t with
      | none => rfl
      | some r' => rw [hs, ht] at hstep; cases hstep
    | some r =>
      cases ht : step c pc t with
      | none => rw [hs, ht] at hstep; cases hstep
      | some r' =>
        rw [hs, ht] at hstep
        obtain ⟨hplace, hsame⟩ := hstep
        simp only [Option.map_some, hplace, ih r.2 hsame]

theorem storedBy_persist (h : Same s t) (id : SessionId) (final : Bool)
    (choices : List SessionChoice) :
    storedBy choices (.persist id final .starting) t =
      storedBy choices (.persist id final .starting) s :=
  storedBy_alike (.persist id final) (fun _ _ _ => rfl)
    (fun c pc _ _ h => alike_persist h c id final pc) choices .starting h

theorem storedBy_evict (h : Same s t) (id : SessionId) (choices : List SessionChoice) :
    storedBy choices (.evict id .looking) t = storedBy choices (.evict id .looking) s :=
  storedBy_alike (.evict id) (fun _ _ _ => rfl)
    (fun c pc _ _ h => alike_evict h c 0 id pc) choices .looking h

/-- A task that runs alone with these answers from outside. -/
def runAlone : List SessionChoice → SessionTask → AppState → AppState × SessionTask
  | [], x, s => (s, x)
  | c :: cs, x, s =>
    match sessionAdvance c 0 x s with
    | none => (s, x)
    | some (s', x') => runAlone cs x' s'

theorem forget_runs (storeError : Option String) (id : SessionId) (removedName : Option String)
    (s : AppState) (io : SessionIo) :
    runAlone (List.replicate 4 ⟨storeError.isNone, 0⟩) (.kill id (.forgetting removedName)) s =
      ((forget storeError id removedName s io).app,
        .kill id (.returned (forget storeError id removedName s io).result.isOk)) := by
  cases storeError with
  | none => simp [runAlone, sessionAdvance, killStep, forget, Except.isOk, Except.toBool]
  | some error =>
    cases hrows : s.persisted with
    | none => simp [runAlone, sessionAdvance, killStep, forget, hrows, Except.isOk, Except.toBool]
    | some rows =>
      simp [runAlone, sessionAdvance, killStep, forget, hrows, Except.isOk, Except.toBool]
      rfl

/-- `kill_session_for` takes the steps of a kill. -/
theorem killSessionFor_runs (child : Child) (storeError : Option String) (id : SessionId)
    (s : AppState) (io : SessionIo) : ∃ choices, runAlone choices (.kill id .looking) s =
      ((killSessionFor child storeError id s io).app,
        .kill id (.returned (killSessionFor child storeError id s io).result.isOk)) := by
  cases hlive : s.get id with
  | none =>
    have hlive' : AppState.get { s with mentioned := insert id s.mentioned } id = none := hlive
    refine ⟨⟨true, 0⟩ :: List.replicate 4 ⟨storeError.isNone, 0⟩, ?_⟩
    rw [runAlone]
    simp only [sessionAdvance, killStep, killSessionFor, hlive', Option.map_some]
    exact forget_runs storeError id none _ io
  | some o =>
    have hlive' : AppState.get { s with mentioned := insert id s.mentioned } id = some o := hlive
    have hobject := (AppState.get_eq_some.mp hlive).2
    have hupdate : AppState.update { s with mentioned := insert id s.mentioned } id
        (fun _ => { o with killed := true }) =
        AppState.update { s with mentioned := insert id s.mentioned } id
        (fun o => { o with killed := true }) := by
      simp only [AppState.update, Table.modify, hobject]
    cases hchild : primaryResult child with
    | error e =>
      refine ⟨[⟨true, 0⟩, ⟨true, 0⟩, ⟨false, 0⟩], ?_⟩
      simp only [runAlone, sessionAdvance, killStep, killSessionFor, hlive', kill, hchild, hupdate,
        Option.map_some]
      rfl
    | ok u =>
      refine ⟨⟨true, 0⟩ :: ⟨true, 0⟩ :: ⟨true, 0⟩ :: ⟨true, 0⟩ ::
        List.replicate 4 ⟨storeError.isNone, 0⟩, ?_⟩
      rw [runAlone]
      simp only [sessionAdvance, killStep, killSessionFor, hlive', Option.map_some]
      rw [runAlone]
      simp only [sessionAdvance, killStep, Option.map_some]
      rw [runAlone]
      simp only [sessionAdvance, killStep, Option.map_some, if_true]
      rw [runAlone]
      simp only [sessionAdvance, killStep, Option.map_some, kill, hchild, hupdate]
      exact forget_runs storeError id (some o.name) _ _

/-! ### A kill that fails -/

variable {child : Child} {o : Session} {io : SessionIo} {e : List String}

/-- At whatever point the kill fails, the flag and the stop of the I/O thread stay. -/
theorem killSessionFor_error (storeError : Option String) (io : SessionIo)
    (hlive : s.get id = some o) (hchild : primaryResult child = .error e) :
    killSessionFor child storeError id s io =
      ⟨.error (s!"kill session {id}" :: e),
        { s with mentioned := insert id s.mentioned }.update id fun _ => { o with killed := true },
        { signalProcessGroup io with ioShutdown := true }⟩ := by
  have hlive' : AppState.get { s with mentioned := insert id s.mentioned } id = some o := hlive
  simp only [killSessionFor, hlive', kill, hchild]

/-- A session that is not marked as killed is stored by its eviction. -/
theorem storedBy_evict_live (hlive : s.get id = some o) (hkilled : o.killed = false)
    (c : SessionChoice) :
    storedBy (List.replicate 5 c) (.evict id .looking) s = [o.storedSnapshot] := by
  have hobject := (AppState.get_eq_some.mp hlive).2
  simp [storedBy, sessionAdvance, evictStep, stores, hlive, hobject, hkilled]

/-- One that is marked is not. -/
theorem storedBy_evict_killed (hlive : s.get id = some o) (hkilled : o.killed = true)
    (c : SessionChoice) : storedBy (List.replicate 5 c) (.evict id .looking) s = [] := by
  have hobject := (AppState.get_eq_some.mp hlive).2
  simp [storedBy, sessionAdvance, evictStep, stores, hlive, hobject, hkilled]

theorem mem_summaries {summary : SessionSummary} : summary ∈ s.summaries ↔
    (∃ id o, s.get id = some o ∧ o.cachedSummary = summary) ∨
    ∃ id stored, s.restored.lookup id = some stored ∧ stored.summary.id ∉ s.sessions ∧
      stored.summary = summary := by
  simp only [AppState.summaries, List.mem_append, List.mem_map, List.mem_filter, decide_eq_true_eq,
    AppState.get_eq_some]
  constructor
  · rintro (⟨⟨id, o⟩, ⟨he, hs⟩, rfl⟩ | ⟨⟨id, stored⟩, ⟨he, hs⟩, rfl⟩)
    · exact .inl ⟨id, o, ⟨hs, Table.mem_entries.mp he⟩, rfl⟩
    · exact .inr ⟨id, stored, Table.mem_entries.mp he, hs, rfl⟩
  · rintro (⟨id, o, ⟨hs, hl⟩, rfl⟩ | ⟨id, stored, hl, hs, rfl⟩)
    · exact .inl ⟨⟨id, o⟩, ⟨Table.mem_entries.mpr hl, hs⟩, rfl⟩
    · exact .inr ⟨⟨id, stored⟩, ⟨Table.mem_entries.mpr hl, hs⟩, rfl⟩

/-- The registry with a session that is marked as killed. -/
def flagged (id : SessionId) (o : Session) (s : AppState) : AppState :=
  { s with mentioned := insert id s.mentioned }.update id fun _ => { o with killed := true }

theorem get_flagged (hlive : s.get id = some o) (k : SessionId) :
    (flagged id o s).get k = if k = id then some { o with killed := true } else s.get k := by
  have hobject := (AppState.get_eq_some.mp hlive).2
  simp only [flagged, AppState.get, AppState.update, Table.lookup_modify]
  by_cases hk : k = id
  · subst hk
    simp [(AppState.get_eq_some.mp hlive).1, hobject]
  · simp [hk]

/-- The mark shows in no summary. -/
theorem mem_summaries_flagged (hlive : s.get id = some o) {summary : SessionSummary} :
    summary ∈ (flagged id o s).summaries ↔ summary ∈ s.summaries := by
  rw [mem_summaries, mem_summaries]
  refine or_congr ?_ Iff.rfl
  constructor
  · rintro ⟨k, o', hget, rfl⟩
    rw [get_flagged hlive] at hget
    split at hget
    · cases hget
      exact ⟨id, o, hlive, rfl⟩
    · exact ⟨k, o', hget, rfl⟩
  · rintro ⟨k, o', hget, rfl⟩
    by_cases hk : k = id
    · subst hk
      obtain rfl := Option.some.inj (hlive.symm.trans hget)
      exact ⟨k, { o with killed := true }, by rw [get_flagged hlive, if_pos rfl], rfl⟩
    · exact ⟨k, o', by rw [get_flagged hlive, if_neg hk, hget], rfl⟩

/-- To mark a session once more changes nothing. -/
theorem same_flagged (hlive : s.get id = some o) (hkilled : o.killed = true) :
    Same s (flagged id o s) := by
  refine { Same.refl s with objects := fun k => ?_ }
  have hobject := (AppState.get_eq_some.mp hlive).2
  have hsame : { o with killed := true } = o := by
    rw [← hkilled]
  simp only [flagged, AppState.update, Table.lookup_modify, hsame]
  split
  · next hk => rw [hk, hobject, Option.map_some]
  · rfl

/-- At every point at which a kill of a live session can fail, the caller is told so, and nothing
has changed if and only if the session was marked and its I/O thread stopped by a kill before. -/
theorem failed_kill_as_before_iff (child : Child) (storeError : Option String) (id : SessionId)
    (s : AppState) (io : SessionIo) (o : Session) (hlive : s.get id = some o) (e : List String)
    (hchild : primaryResult child = .error e) :
    (killSessionFor child storeError id s io).result = .error (s!"kill session {id}" :: e) ∧
    (AsBefore id s io (killSessionFor child storeError id s io) ↔
      o.killed = true ∧ io.ioShutdown = true) := by
  rw [killSessionFor_error storeError io hlive hchild]
  refine ⟨rfl, fun h => ?_, fun ⟨hkilled, hshutdown⟩ => ?_⟩
  · refine ⟨?_, h.reading.symm⟩
    have hmarked : (flagged id o s).get id = some { o with killed := true } := by
      rw [get_flagged hlive, if_pos rfl]
    have hevicted := h.evicted [] (List.replicate 5 ⟨true, 0⟩)
    by_contra hkilled
    rw [afterwards, afterwards, List.foldl_nil, List.foldl_nil,
      storedBy_evict_live hlive (eq_false_of_ne_true hkilled)] at hevicted
    cases hevicted.symm.trans (storedBy_evict_killed hmarked rfl ⟨true, 0⟩)
  · have hsame := same_flagged hlive hkilled
    refine ⟨⟨(AppState.get_eq_some.mp hlive).1, fun _ => mem_summaries_flagged hlive⟩, rfl, ?_, ?_,
      hshutdown.symm⟩
    · intro later final choices
      exact storedBy_persist (same_afterwards hsame id later) id final choices
    · intro later choices
      exact storedBy_evict (same_afterwards hsame id later) id choices

/-- A daemon with one session. -/
private def oneSession : AppState := ((sessionEvent (.create 1 "work" 0) .new).map (·.1)).getD .new

/-- The child runs as another user. -/
private def refusing : Child := .running (some "Operation not permitted")

private def firstTry : Outcome := killSessionFor refusing none 1 oneSession ⟨some 7, false, []⟩

/-- The kill is tried again, and fails again. -/
theorem failed_kill_as_before_again :
    AsBefore 1 firstTry.app firstTry.io
      (killSessionFor refusing none 1 firstTry.app firstTry.io) := by
  have hiff := failed_kill_as_before_iff refusing none 1 firstTry.app firstTry.io
    { Session.spawn 1 "work" 0 with killed := true } (by decide)
    ["kill PTY child", "Operation not permitted"] rfl
  exact hiff.2.mpr ⟨rfl, by decide⟩

/-- The session goes on after the kill has failed, but it is not restored when it exits. -/
theorem failed_kill_forgets_session :
    ¬ ∀ (child : Child) (storeError : Option String) (id : SessionId) (s : AppState)
      (io : SessionIo) (o : Session), s.get id = some o → ∀ e, primaryResult child = .error e →
      AsBefore id s io (killSessionFor child storeError id s io) := by
  intro hall
  have hevicted := (hall refusing none 1 oneSession ⟨some 7, false, []⟩ (.spawn 1 "work" 0)
    (by decide) _ rfl).evicted [.markExited 0] (List.replicate 5 ⟨true, 0⟩)
  exact absurd hevicted (by decide)

end FailedKill
end Shelly.Daemon
