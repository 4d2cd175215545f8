import Shelly.Framework.Pool
import Shelly.Mobile.ViewModel

namespace Shelly.Mobile.ShownSessions

/-- A list of the daemon. The place is history: the one it has among all the lists that the
daemon ever had. -/
structure Listing where
  sessions : List MobileSession
  place : Nat
  deriving DecidableEq

/-- What a creation or a kill that has finished does to the list on the screen. -/
inductive Change
  | created (session : MobileSession)
  | killed (sessionId : String)
  deriving DecidableEq

def Change.apply (sessions : List MobileSession) : Change → List MobileSession
  | .created session => distinctById (sessions ++ [session])
  | .killed sessionId => sessions.filter (·.id ≠ sessionId)

/-- A list computed from the screen, which is about to be shown. `deliveries` is history: how many
updates had been shown when the screen was read. -/
structure Computed where
  sessions : List MobileSession
  deliveries : Nat
  deriving DecidableEq

/-- The daemon's lists, the updates of the subscription on their way, and the screen. The task that
has read the list on the screen and not yet written it keeps the main thread. The last four fields
are history: how many updates were shown, the last of them, the creations and kills that finished
since, and whether an update was replaced by a list computed from an older one. -/
structure Shared where
  daemon : List (List MobileSession)
  updates : List Listing
  screen : ShellyUiState
  savedIds : List String
  savedActive : Option String
  main : Option Nat
  deliveries : Nat
  received : Option Listing
  changes : List Change
  overwritten : Bool
  deriving DecidableEq

inductive RefreshPc
  | requested
  | replied (listing : Listing)
  | done
  deriving DecidableEq

inductive CreatePc
  | requested
  | answered (session : MobileSession)
  | writing (session : MobileSession) (computed : Computed)
  | opening (session : MobileSession)
  | done
  deriving DecidableEq

inductive KillPc
  | requested
  | closing
  | reading
  | writing (computed : Computed)
  | done
  deriving DecidableEq

inductive ListTask
  | refresh (pc : RefreshPc)
  | create (pc : CreatePc)
  | kill (sessionId : String) (pc : KillPc)
  deriving DecidableEq

inductive Event
  | change (sessions : List MobileSession)
  | publish
  | deliver
  | reconnect
  | setUnlocked (unlocked : Bool)
  deriving DecidableEq

namespace Shared

variable (s : Shared)

def current : Listing := ⟨s.daemon.getLastD [], s.daemon.length - 1⟩

def applySessions (sessions : List MobileSession) : Shared :=
  { s with screen := s.screen.applySessions s.savedIds s.savedActive sessions }

/-- Reads the list on the screen. -/
def compute (change : Change) : Computed := ⟨change.apply s.screen.sessions, s.deliveries⟩

/-- Shows a list that was computed from the screen. -/
def write (change : Change) (computed : Computed) : Shared :=
  { s.applySessions computed.sessions with
    main := none
    changes := s.changes ++ [change]
    overwritten := s.overwritten || computed.deliveries ≠ s.deliveries }

/-- Shows a list that the daemon replied with. -/
def load (listing : Listing) : Shared :=
  { s.applySessions listing.sessions with
    overwritten := s.overwritten || s.received.any fun r => listing.place < r.place }

/-- The callback of the subscription, on a thread of its own. -/
def deliver (listing : Listing) : Shared :=
  if s.screen.unlocked then
    { s.applySessions listing.sessions with
      deliveries := s.deliveries + 1
      received := some listing
      changes := [] }
  else s

end Shared

/-- One step of a refresh. A request may fail. -/
def refreshStep (c : Option MobileSession) (s : Shared) : RefreshPc → Option (Shared × RefreshPc)
  | .requested => some (s, if c.isSome then .replied s.current else .done)
  | .replied listing => if s.main = none then some (s.load listing, .done) else none
  | .done => none

def createStep (c : Option MobileSession) (i : Nat) (s : Shared) :
    CreatePc → Option (Shared × CreatePc)
  | .requested => some (s, c.elim .done .answered)
  | .answered session =>
    if s.main = none then
      some ({ s with main := some i }, .writing session (s.compute (.created session)))
    else none
  | .writing session computed =>
    if s.main = some i then some (s.write (.created session) computed, .opening session) else none
  | .opening session =>
    if s.main = none then
      some ({ s with screen := s.screen.openTerminalSession session }, .done)
    else none
  | .done => none

def killStep (c : Option MobileSession) (i : Nat) (sessionId : String) (s : Shared) :
    KillPc → Option (Shared × KillPc)
  | .requested => some (s, if c.isSome then .closing else .done)
  | .closing =>
    if s.main = none then
      some ({ s with screen := s.screen.closeTerminalTab sessionId }, .reading)
    else none
  | .reading =>
    if s.main = none then
      some ({ s with main := some i }, .writing (s.compute (.killed sessionId)))
    else none
  | .writing computed =>
    if s.main = some i then some (s.write (.killed sessionId) computed, .done) else none
  | .done => none

def advance (c : Option MobileSession) (i : Nat) : ListTask → Shared → Option (Shared × ListTask)
  | .refresh pc, s => (refreshStep c s pc).map fun r => (r.1, .refresh r.2)
  | .create pc, s => (createStep c i s pc).map fun r => (r.1, .create r.2)
  | .kill sessionId pc, s => (killStep c i sessionId s pc).map fun r => (r.1, .kill sessionId r.2)

def event : Event → Shared → Option (Shared × Bool)
  | .change sessions, s => some ({ s with daemon := s.daemon ++ [sessions] }, true)
  | .publish, s => some ({ s with updates := s.updates ++ [s.current] }, true)
  | .deliver, s =>
    match s.updates with
    | [] => none
    | listing :: updates => some ({ s with updates }.deliver listing, true)
  | .reconnect, s => some ({ s with updates := [] }, true)
  | .setUnlocked unlocked, s =>
    if s.main = none then some ({ s with screen := s.screen.setUnlocked unlocked }, true) else none

def tasking : Tasking Shared ListTask (Option MobileSession) Event where
  init s := s.daemon ≠ [] ∧ s.updates = [] ∧ s.main = none ∧ s.received = none ∧
    s.overwritten = false
  start
    | .refresh .requested | .create .requested | .kill _ .requested => true
    | _ => false
  cancellable
    | .refresh .requested | .refresh (.replied _) => true
    | .create .requested | .create (.answered _) => true
    | .kill _ .requested | .kill _ .closing => true
    | _ => false
  advance := advance
  environment := event

def ListTask.finished : ListTask → Bool
  | .refresh .done | .create .done | .kill _ .done => true
  | _ => false

/-- The screen shows the last update, changed by what finished after it. -/
def Shared.ShowsReceived (s : Shared) : Prop :=
  ∀ r, s.received = some r → s.screen.sessions = s.changes.foldl Change.apply r.sessions

/-- No update was replaced by a list computed from an older one, and when nothing is in flight the
screen shows the last update. -/
def KeepsUp (p : Pool Shared ListTask) : Prop :=
  p.shared.overwritten = false ∧
    ((∀ i x, p.task i = some x → x.finished = true) → p.shared.ShowsReceived)

/-- A refresh shows its list only while that is the list of the last update and nothing was created
or killed since, and no update comes between the read and the write of a creation or a kill. -/
def InTime (p : Pool Shared ListTask) : Move ListTask (Option MobileSession) Event → Prop
  | .advance i _ =>
    match p.task i with
    | some (.refresh (.replied listing)) => ∀ r, p.shared.received = some r →
        r.place = listing.place ∧ p.shared.changes = []
    | _ => True
  | .environment .deliver => p.shared.main = none
  | _ => True

instance : ∀ p a, Decidable (InTime p a)
  | p, .advance i c =>
    match h : p.task i with
    | some (.refresh (.replied listing)) =>
      match hr : p.shared.received with
      | none => isTrue (by simp [InTime, h, hr])
      | some r => decidable_of_iff (r.place = listing.place ∧ p.shared.changes = [])
          (by simp [InTime, h, hr])
    | none | some (.refresh .requested) | some (.refresh .done) | some (.create _)
    | some (.kill _ _) => isTrue (by simp [InTime, h])
  | p, .environment .deliver => inferInstanceAs (Decidable (p.shared.main = none))
  | _, .spawn _ _ | _, .drop _ | _, .environment (.change _) | _, .environment .publish
  | _, .environment .reconnect | _, .environment (.setUnlocked _) => isTrue trivial

/-- Every list is one of the daemon's, and the screen shows the last update. -/
structure Global (s : Shared) : Prop where
  nonempty : s.daemon ≠ []
  updates : ∀ l ∈ s.updates, s.daemon[l.place]? = some l.sessions
  received : ∀ r, s.received = some r → s.daemon[r.place]? = some r.sessions
  kept : s.overwritten = false
  shows : s.ShowsReceived

/-- A reply is one of the daemon's lists. What is about to be written was computed from what the
screen still shows. -/
def Local (s : Shared) (i : Nat) : ListTask → Prop
  | .refresh (.replied listing) => s.daemon[listing.place]? = some listing.sessions
  | .create (.writing session computed) =>
    s.main = some i ∧ computed = s.compute (.created session)
  | .kill sessionId (.writing computed) =>
    s.main = some i ∧ computed = s.compute (.killed sessionId)
  | _ => True

theorem current_listed {s : Shared} (h : s.daemon ≠ []) :
    s.daemon[s.current.place]? = some s.current.sessions := by
  change s.daemon[s.daemon.length - 1]? = some (s.daemon.getLastD [])
  rw [← List.getLast?_eq_getElem?, List.getLastD_eq_getLast?, List.getLast?_eq_some_getLast h]
  rfl

theorem Global.screen {s : Shared} (h : Global s) {screen : ShellyUiState}
    (hsessions : screen.sessions = s.screen.sessions) (main : Option Nat) :
    Global { s with screen, main } :=
  ⟨h.nonempty, h.updates, h.received, h.kept, fun r hr => hsessions.trans (h.shows r hr)⟩

/-- The list is computed from the screen as it is, so nothing is lost. -/
theorem Global.write {s : Shared} (h : Global s) (change : Change) :
    Global (s.write change (s.compute change)) := by
  refine ⟨h.nonempty, h.updates, h.received, ?_, fun r hr => ?_⟩
  · change (s.overwritten || decide (s.deliveries ≠ s.deliveries)) = false
    rw [h.kept]
    simp
  · change change.apply s.screen.sessions = (s.changes ++ [change]).foldl Change.apply r.sessions
    rw [List.foldl_append, h.shows r hr]
    rfl

theorem Global.load {s : Shared} (h : Global s) {listing : Listing}
    (hlisted : s.daemon[listing.place]? = some listing.sessions)
    (htime : ∀ r, s.received = some r → r.place = listing.place ∧ s.changes = []) :
    Global (s.load listing) := by
  refine ⟨h.nonempty, h.updates, h.received, ?_, fun r hr => ?_⟩
  · change (s.overwritten || s.received.any fun r => listing.place < r.place) = false
    rw [h.kept, Bool.false_or]
    cases hr : s.received with
    | none => rfl
    | some r =>
      have hplace := (htime r hr).1
      exact decide_eq_false (by omega)
  · obtain ⟨hplace, hnone⟩ := htime r hr
    have hsame := h.received r hr
    rw [hplace, hlisted] at hsame
    change listing.sessions = s.changes.foldl Change.apply r.sessions
    rw [hnone]
    exact Option.some.inj hsame

theorem Global.deliver {s : Shared} (h : Global s) {listing : Listing}
    (hlisted : s.daemon[listing.place]? = some listing.sessions) : Global (s.deliver listing) := by
  unfold Shared.deliver
  split
  · refine ⟨h.nonempty, h.updates, fun r hr => ?_, h.kept, fun r hr => ?_⟩
    · obtain rfl := Option.some.inj hr
      exact hlisted
    · obtain rfl := Option.some.inj hr
      rfl
  · exact h

/-- What a step leaves of the shared state and of its own task. -/
theorem own_step {c : Option MobileSession} {i : Nat} {x x' : ListTask} {s s' : Shared}
    (hg : Global s) (hl : Local s i x)
    (htime : ∀ listing, x = .refresh (.replied listing) → ∀ r, s.received = some r →
      r.place = listing.place ∧ s.changes = [])
    (h : advance c i x s = some (s', x')) : Global s' ∧ Local s' i x' := by
  cases x with
  | refresh pc =>
    obtain ⟨⟨t, pc'⟩, hstep, heq⟩ := Option.map_eq_some_iff.mp h
    obtain ⟨rfl, rfl⟩ := Prod.mk.inj heq
    cases pc with
    | requested =>
      obtain ⟨rfl, rfl⟩ := Prod.mk.inj (Option.some.inj hstep)
      refine ⟨hg, ?_⟩
      cases c with
      | none => trivial
      | some _ => exact current_listed hg.nonempty
    | replied listing =>
      simp only [refreshStep, Option.ite_none_right_eq_some, Option.some.injEq,
        Prod.mk.injEq] at hstep
      obtain ⟨-, rfl, rfl⟩ := hstep
      exact ⟨hg.load hl (htime listing rfl), trivial⟩
    | done => cases hstep
  | create pc =>
    obtain ⟨⟨t, pc'⟩, hstep, heq⟩ := Option.map_eq_some_iff.mp h
    obtain ⟨rfl, rfl⟩ := Prod.mk.inj heq
    cases pc with
    | requested =>
      obtain ⟨rfl, rfl⟩ := Prod.mk.inj (Option.some.inj hstep)
      exact ⟨hg, by cases c <;> trivial⟩
    | answered session =>
      simp only [createStep, Option.ite_none_right_eq_some, Option.some.injEq,
        Prod.mk.injEq] at hstep
      obtain ⟨-, rfl, rfl⟩ := hstep
      exact ⟨hg.screen rfl (some i), rfl, rfl⟩
    | writing session computed =>
      simp only [createStep, Option.ite_none_right_eq_some, Option.some.injEq,
        Prod.mk.injEq] at hstep
      obtain ⟨-, rfl, rfl⟩ := hstep
      rw [hl.2]
      exact ⟨hg.write (.created session), trivial⟩
    | opening session =>
      simp only [createStep, Option.ite_none_right_eq_some, Option.some.injEq,
        Prod.mk.injEq] at hstep
      obtain ⟨-, rfl, rfl⟩ := hstep
      have hsessions : (s.screen.openTerminalSession session).sessions = s.screen.sessions := rfl
      exact ⟨hg.screen hsessions s.main, trivial⟩
    | done => cases hstep
  | kill sessionId pc =>
    obtain ⟨⟨t, pc'⟩, hstep, heq⟩ := Option.map_eq_some_iff.mp h
    obtain ⟨rfl, rfl⟩ := Prod.mk.inj heq
    cases pc with
    | requested =>
      obtain ⟨rfl, rfl⟩ := Prod.mk.inj (Option.some.inj hstep)
      exact ⟨hg, by cases c <;> trivial⟩
    | closing =>
      simp only [killStep, Option.ite_none_right_eq_some, Option.some.injEq,
        Prod.mk.injEq] at hstep
      obtain ⟨-, rfl, rfl⟩ := hstep
      exact ⟨hg.screen (ShellyUiState.sessions_closeTerminalTab sessionId) s.main, trivial⟩
    | reading =>
      simp only [killStep, Option.ite_none_right_eq_some, Option.some.injEq,
        Prod.mk.injEq] at hstep
      obtain ⟨-, rfl, rfl⟩ := hstep
      exact ⟨hg.screen rfl (some i), rfl, rfl⟩
    | writing computed =>
      simp only [killStep, Option.ite_none_right_eq_some, Option.some.injEq,
        Prod.mk.injEq] at hstep
      obtain ⟨-, rfl, rfl⟩ := hstep
      rw [hl.2]
      exact ⟨hg.write (.killed sessionId), trivial⟩
    | done => cases hstep

/-- A step of one task leaves the daemon's lists alone, and takes the main thread only when no
other task has it. -/
theorem advance_frame {c : Option MobileSession} {i : Nat} {x x' : ListTask} {s s' : Shared}
    (h : advance c i x s = some (s', x')) :
    s'.daemon = s.daemon ∧ (s' = s ∨ s.main = none ∨ s.main = some i) := by
  cases x with
  | refresh pc =>
    obtain ⟨⟨t, pc'⟩, hstep, heq⟩ := Option.map_eq_some_iff.mp h
    obtain ⟨rfl, -⟩ := Prod.mk.inj heq
    cases pc with
    | requested =>
      obtain ⟨rfl, -⟩ := Prod.mk.inj (Option.some.inj hstep)
      exact ⟨rfl, .inl rfl⟩
    | replied listing =>
      simp only [refreshStep, Option.ite_none_right_eq_some, Option.some.injEq,
        Prod.mk.injEq] at hstep
      obtain ⟨hmain, rfl, -⟩ := hstep
      exact ⟨rfl, .inr (.inl hmain)⟩
    | done => cases hstep
  | create pc =>
    obtain ⟨⟨t, pc'⟩, hstep, heq⟩ := Option.map_eq_some_iff.mp h
    obtain ⟨rfl, -⟩ := Prod.mk.inj heq
    cases pc with
    | requested =>
      obtain ⟨rfl, -⟩ := Prod.mk.inj (Option.some.inj hstep)
      exact ⟨rfl, .inl rfl⟩
    | done => cases hstep
    | _ =>
      simp only [createStep, Option.ite_none_right_eq_some, Option.some.injEq,
        Prod.mk.injEq] at hstep
      obtain ⟨hmain, rfl, -⟩ := hstep
      exact ⟨rfl, .inr (by simp [hmain])⟩
  | kill sessionId pc =>
    obtain ⟨⟨t, pc'⟩, hstep, heq⟩ := Option.map_eq_some_iff.mp h
    obtain ⟨rfl, -⟩ := Prod.mk.inj heq
    cases pc with
    | requested =>
      obtain ⟨rfl, -⟩ := Prod.mk.inj (Option.some.inj hstep)
      exact ⟨rfl, .inl rfl⟩
    | done => cases hstep
    | _ =>
      simp only [killStep, Option.ite_none_right_eq_some, Option.some.injEq,
        Prod.mk.injEq] at hstep
      obtain ⟨hmain, rfl, -⟩ := hstep
      exact ⟨rfl, .inr (by simp [hmain])⟩

/-- A task that waits to write keeps the others from the main thread. What the daemon listed stays
listed. -/
theorem local_frame {j : Nat} {y : ListTask} {s s' : Shared} (hl : Local s j y)
    (hdaemon : ∀ (place : Nat) (l : List MobileSession), s.daemon[place]? = some l →
      s'.daemon[place]? = some l)
    (hmain : s.main ≠ some j ∨
      s'.main = s.main ∧ s'.screen = s.screen ∧ s'.deliveries = s.deliveries) : Local s' j y := by
  have hwriting {change : Change} {computed : Computed}
      (h : s.main = some j ∧ computed = s.compute change) :
      s'.main = some j ∧ computed = s'.compute change := by
    rcases hmain with hfree | ⟨hsame, hscreen, hdeliveries⟩
    · exact absurd h.1 hfree
    · refine ⟨hsame.trans h.1, h.2.trans ?_⟩
      unfold Shared.compute
      rw [hscreen, hdeliveries]
  cases y with
  | refresh pc =>
    cases pc with
    | replied listing => exact hdaemon _ _ hl
    | requested => trivial
    | done => trivial
  | create pc =>
    cases pc with
    | writing session computed => exact hwriting hl
    | _ => trivial
  | kill sessionId pc =>
    cases pc with
    | writing computed => exact hwriting hl
    | _ => trivial

theorem listed_append {daemon : List (List MobileSession)} {place : Nat} {l : List MobileSession}
    (h : daemon[place]? = some l) (more : List (List MobileSession)) :
    (daemon ++ more)[place]? = some l := by
  obtain ⟨hlt, -⟩ := List.getElem?_eq_some_iff.mp h
  rw [List.getElem?_append_left hlt]
  exact h

theorem event_step {e : Event} {s s' : Shared} {keep : Bool} (hg : Global s)
    (htime : e = .deliver → s.main = none) (h : event e s = some (s', keep)) :
    Global s' ∧ ∀ j y, Local s j y → Local s' j y := by
  cases e with
  | change sessions =>
    obtain ⟨rfl, -⟩ := Prod.mk.inj (Option.some.inj h)
    refine ⟨⟨fun hnil => ?_, fun l hl => ?_, fun r hr => ?_, hg.kept, hg.shows⟩, fun j y hl => ?_⟩
    · exact absurd (List.append_eq_nil_iff.mp hnil).1 hg.nonempty
    · exact listed_append (hg.updates l hl) _
    · exact listed_append (hg.received r hr) _
    · exact local_frame hl (fun place l hplace => listed_append hplace _) (.inr ⟨rfl, rfl, rfl⟩)
  | publish =>
    obtain ⟨rfl, -⟩ := Prod.mk.inj (Option.some.inj h)
    refine ⟨⟨hg.nonempty, fun l hl => ?_, hg.received, hg.kept, hg.shows⟩, fun j y hl => ?_⟩
    · rcases List.mem_append.mp hl with hl | hl
      · exact hg.updates l hl
      · rw [List.mem_singleton.mp hl]
        exact current_listed hg.nonempty
    · exact local_frame hl (fun _ _ hplace => hplace) (.inr ⟨rfl, rfl, rfl⟩)
  | deliver =>
    simp only [event] at h
    split at h
    · cases h
    · rename_i listing updates hupdates
      obtain ⟨rfl, -⟩ := Prod.mk.inj (Option.some.inj h)
      have hrest : Global { s with updates } :=
        ⟨hg.nonempty, fun l hl => hg.updates l (by rw [hupdates]; exact List.mem_cons_of_mem _ hl),
          hg.received, hg.kept, hg.shows⟩
      refine ⟨hrest.deliver (hg.updates listing (by rw [hupdates]; exact List.mem_cons_self)),
        fun j y hl => local_frame hl (fun place l hplace => ?_) (.inl ?_)⟩
      · unfold Shared.deliver
        split <;> exact hplace
      · rw [htime rfl]
        exact fun heq => by cases heq
  | reconnect =>
    obtain ⟨rfl, -⟩ := Prod.mk.inj (Option.some.inj h)
    refine ⟨⟨hg.nonempty, fun l hl => (by cases hl), hg.received, hg.kept, hg.shows⟩, fun j y hl => ?_⟩
    exact local_frame hl (fun _ _ hplace => hplace) (.inr ⟨rfl, rfl, rfl⟩)
  | setUnlocked unlocked =>
    simp only [event, Option.ite_none_right_eq_some, Option.some.injEq, Prod.mk.injEq] at h
    obtain ⟨hmain, rfl, -⟩ := h
    have hsessions : (s.screen.setUnlocked unlocked).sessions = s.screen.sessions := rfl
    refine ⟨hg.screen hsessions s.main, fun j y hl => local_frame hl (fun _ _ hplace => hplace) (.inl ?_)⟩
    rw [hmain]
    exact fun heq => by cases heq

theorem noninterference : tasking.Noninterference InTime Global Local where
  init s := by
    rintro ⟨hdaemon, hupdates, -, hreceived, hkept⟩
    refine ⟨hdaemon, fun l hl => ?_, fun r hr => ?_, hkept, fun r hr => ?_⟩
    · rw [hupdates] at hl
      cases hl
    · rw [hreceived] at hr
      cases hr
    · rw [hreceived] at hr
      cases hr
  fresh p i x _ _ hx := by
    cases x with
    | refresh pc => cases pc <;> trivial
    | create pc => cases pc <;> trivial
    | kill sessionId pc => cases pc <;> trivial
  own p i c x s' x' hc hg hx hl h := by
    refine own_step hg hl (fun listing hlisting => ?_) h
    simp only [InTime, hx, hlisting] at hc
    exact hc
  others p i c x s' x' _ _ _ _ h j y hj _ hl := by
    obtain ⟨hdaemon, hmain⟩ := advance_frame h
    refine local_frame hl (fun place l hplace => by rw [hdaemon]; exact hplace) ?_
    rcases hmain with rfl | hmain | hmain
    · exact .inr ⟨rfl, rfl, rfl⟩
    · rw [hmain]
      exact .inl fun heq => by cases heq
    · rw [hmain]
      exact .inl fun heq => hj (Option.some.inj heq).symm
  environment p e s' keep hc hg h := by
    obtain ⟨hglobal, hlocal⟩ := event_step hg (fun he => by subst he; exact hc) h
    exact ⟨hglobal, fun _ j y _ hl => hlocal j y hl⟩

/-- In a run whose refreshes, creations and kills are in time, the screen keeps up with the
subscription. -/
theorem sessions_keep_up {p : Pool Shared ListTask} (h : tasking.machine.ReachableWhen InTime p) :
    KeepsUp p := by
  have hg := (noninterference.invariant h).1
  exact ⟨hg.kept, fun _ => hg.shows⟩

/-- One session of the daemon. -/
def shell : MobileSession := ⟨"s", "shell", ["sh"], "/", 1, 1, .idle, none, none⟩

/-- A daemon without sessions and an unlocked screen. -/
def started : Shared where
  daemon := [[]]
  updates := []
  screen := ⟨true, [], [], none⟩
  savedIds := []
  savedActive := none
  main := none
  deliveries := 0
  received := none
  changes := []
  overwritten := false

theorem started_init : tasking.machine.init (Pool.empty started) :=
  Tasking.init_empty ⟨by decide, rfl, rfl, rfl, rfl⟩

theorem sessions_keep_up_kill : ∃ p, tasking.machine.ReachableWhen InTime p ∧
    p.shared.received = some ⟨[shell], 1⟩ ∧ p.shared.screen.sessions = [] ∧ KeepsUp p := by
  obtain ⟨p, hr, hreceived, hsessions⟩ := tasking.machine.exists_reachable_of_exec InTime
    (fun p => p.shared.received = some ⟨[shell], 1⟩ ∧ p.shared.screen.sessions = [])
    [.environment (.change [shell]), .environment .publish, .environment .deliver,
      .spawn 0 (.refresh .requested), .advance 0 (some shell), .advance 0 none,
      .spawn 1 (.kill "s" .requested), .advance 1 (some shell), .advance 1 none, .advance 1 none,
      .advance 1 none]
    started_init (by decide)
  exact ⟨p, hr, hreceived, hsessions, sessions_keep_up hr⟩

/-- A refresh is answered, then a session is created elsewhere and its update is shown, then the
refresh shows its list: the new session is gone from the screen. -/
theorem refresh_goes_back : ¬ ∀ p, tasking.machine.Reachable p → KeepsUp p := by
  intro hall
  obtain ⟨p, hr, hoverwritten⟩ := tasking.machine.exists_reachable_of_exec Machine.Any
    (fun p => p.shared.overwritten = true ∧ p.shared.screen.sessions = [] ∧
      p.shared.received = some ⟨[shell], 1⟩)
    [.spawn 0 (.refresh .requested), .advance 0 (some shell), .environment (.change [shell]),
      .environment .publish, .environment .deliver, .advance 0 none]
    started_init (by decide)
  have hkept := (hall p hr).1
  rw [hoverwritten.1] at hkept
  cases hkept

end Shelly.Mobile.ShownSessions
