import Mathlib.Data.Finset.Dedup
import Mathlib.Data.Finset.Empty
import Mathlib.Data.Finset.Erase
import Mathlib.Data.Finset.Lattice.Basic
import Mathlib.Data.Finset.Lattice.Lemmas
import Shelly.Framework.Machine
import Shelly.Mobile.ViewModel

namespace Shelly.Mobile.TerminalTabs

/-- What the main thread does to the screen, one statement after the other. -/
inductive Statement
  | setUnlocked (unlocked : Bool)
  | openTerminalSession (session : MobileSession)
  | closeTerminalTab (sessionId : String)
  | closeTerminalSession
  | applySessions (sessions : List MobileSession)
  | applyWith (session : MobileSession)
  | applyWithout (sessionId : String)
  deriving DecidableEq

/-- The functions of the view model. A kill, a creation and a refresh are here from the moment
their request is answered. -/
inductive Call
  | setUnlocked (unlocked : Bool)
  | openTerminalSession (session : MobileSession)
  | closeTerminalTab (sessionId : String)
  | closeTerminalSession
  | killed (sessionId : String)
  | created (session : MobileSession)
  | refreshed (sessions : List MobileSession)
  deriving DecidableEq

def Call.statements : Call → List Statement
  | .setUnlocked unlocked => [.setUnlocked unlocked]
  | .openTerminalSession session => [.openTerminalSession session]
  | .closeTerminalTab sessionId => [.closeTerminalTab sessionId]
  | .closeTerminalSession => [.closeTerminalSession]
  | .killed sessionId => [.closeTerminalTab sessionId, .applyWithout sessionId]
  | .created session => [.applyWith session, .openTerminalSession session]
  | .refreshed sessions => [.applySessions sessions]

/-- What is left of saving the tabs: to read them, to write their identities and to write the
active one. -/
inductive Saving
  | reading
  | writingIds (ids : List String) (active : Option String)
  | writingActive (active : Option String)
  deriving DecidableEq

/-- The screen, the saved identities, and the main thread in the middle of a call. `closed` is
history: the tabs that were closed and not opened again. -/
structure State where
  screen : ShellyUiState
  savedIds : List String
  savedActive : Option String
  saving : Option Saving
  calling : List Statement
  closed : Finset String

inductive Action
  | call (c : Call)
  | next
  | save
  | subscription (sessions : List MobileSession)
  deriving DecidableEq

namespace State

def close (s : State) (screen : ShellyUiState) (ids : List String) (saving : Option Saving) :
    State :=
  { s with screen, saving, closed := s.closed ∪ ids.toFinset }

def applySessions (s : State) (sessions : List MobileSession) : State :=
  { s with screen := s.screen.applySessions s.savedIds s.savedActive sessions }

/-- One statement of the main thread. A lock saves the empty tabs only if it found the screen
unlocked. -/
def run (s : State) : Statement → State
  | .setUnlocked true => { s with screen := s.screen.setUnlocked true }
  | .setUnlocked false =>
    s.close (s.screen.setUnlocked false) s.screen.tabIds
      (if s.screen.unlocked then some (.writingIds [] none) else none)
  | .openTerminalSession session =>
    { s with
      screen := s.screen.openTerminalSession session
      saving := some .reading
      closed := s.closed.erase session.id }
  | .closeTerminalTab sessionId =>
    s.close (s.screen.closeTerminalTab sessionId) (s.screen.tabIds.filter (· = sessionId))
      (some .reading)
  | .closeTerminalSession =>
    s.close s.screen.closeTerminalSession s.screen.tabIds (some (.writingIds [] none))
  | .applySessions sessions => s.applySessions sessions
  -- The screen is read before it is updated.
  | .applyWith session =>
    let sessions := distinctById (s.screen.sessions ++ [session])
    { s with calling := .applySessions sessions :: s.calling }
  | .applyWithout sessionId =>
    let sessions := s.screen.sessions.filter (·.id ≠ sessionId)
    { s with calling := .applySessions sessions :: s.calling }

def save (s : State) : Saving → State
  | .reading =>
    { s with saving := some (.writingIds s.screen.tabIds s.screen.activeTerminalSessionId) }
  | .writingIds ids active =>
    { s with savedIds := ids, saving := some (.writingActive active) }
  | .writingActive active => { s with savedActive := active, saving := none }

end State

def step : Action → State → Option State
  | .call c, s =>
    if s.calling = [] ∧ s.saving = none then some { s with calling := c.statements } else none
  | .next, s =>
    match s.saving, s.calling with
    | none, statement :: rest => some ({ s with calling := rest }.run statement)
    | _, _ => none
  | .save, s => s.saving.map s.save
  -- The subscription calls back on a thread of its own.
  | .subscription sessions, s => some (s.applySessions sessions)

/-- The app starts locked, with the identities that an earlier run has saved. -/
def machine : Machine State Action where
  init s := s.screen = ⟨false, [], [], none⟩ ∧ s.savedIds.Nodup ∧ s.saving = none ∧
    s.calling = [] ∧ s.closed = ∅
  step := step

/-- The saved identities are about to be replaced by those of the tabs. -/
def State.saves (s : State) : Bool :=
  match s.saving with
  | some .reading | some (.writingIds _ _) => true
  | some (.writingActive _) | none => false

/-- The identities of the saved tabs, and of those about to be saved. -/
structure Inv (s : State) : Prop where
  consistent : s.screen.Consistent
  saved : s.savedIds.Nodup
  saving : ∀ ids active, s.saving = some (.writingIds ids active) → ids.Nodup

theorem Inv.applySessions {s : State} (h : Inv s) (sessions : List MobileSession) :
    Inv (s.applySessions sessions) where
  consistent := h.consistent.applySessions h.saved s.savedActive sessions
  saved := h.saved
  saving := h.saving

theorem Inv.run {s : State} (h : Inv s) (statement : Statement) : Inv (s.run statement) := by
  have hempty : ∀ ids active, some (Saving.writingIds [] none) = some (.writingIds ids active) →
      ids.Nodup := by
    rintro ids active ⟨⟩
    exact List.nodup_nil
  have hreading : ∀ ids active, some Saving.reading = some (.writingIds ids active) →
      ids.Nodup := fun ids active heq => by cases heq
  cases statement with
  | setUnlocked unlocked =>
    cases unlocked with
    | true => exact ⟨h.consistent.setUnlocked true, h.saved, h.saving⟩
    | false =>
      refine ⟨h.consistent.setUnlocked false, h.saved, fun ids active heq => ?_⟩
      change (if s.screen.unlocked then some (Saving.writingIds [] none) else none) = _ at heq
      split at heq
      · exact hempty ids active heq
      · cases heq
  | openTerminalSession session =>
    exact ⟨h.consistent.openTerminalSession session, h.saved, hreading⟩
  | closeTerminalTab sessionId =>
    exact ⟨h.consistent.closeTerminalTab sessionId, h.saved, hreading⟩
  | closeTerminalSession => exact ⟨.closeTerminalSession, h.saved, hempty⟩
  | applySessions sessions => exact h.applySessions sessions
  | applyWith session => exact ⟨h.consistent, h.saved, h.saving⟩
  | applyWithout sessionId => exact ⟨h.consistent, h.saved, h.saving⟩

theorem Inv.save {s : State} (h : Inv s) {saving : Saving} (hs : s.saving = some saving) :
    Inv (s.save saving) := by
  cases saving with
  | reading =>
    refine ⟨h.consistent, h.saved, ?_⟩
    rintro ids active ⟨⟩
    exact h.consistent.nodup
  | writingIds ids active =>
    exact ⟨h.consistent, h.saving ids active hs, fun ids active heq => by cases heq⟩
  | writingActive active => exact ⟨h.consistent, h.saved, fun ids active heq => by cases heq⟩

theorem Inv.step {a : Action} {s t : State} (h : Inv s) (ht : step a s = some t) : Inv t := by
  cases a with
  | call c =>
    simp only [TerminalTabs.step, Option.ite_none_right_eq_some, Option.some.injEq] at ht
    obtain ⟨-, rfl⟩ := ht
    exact ⟨h.consistent, h.saved, h.saving⟩
  | next =>
    simp only [TerminalTabs.step] at ht
    split at ht
    · rename_i statement rest hsaving hcalling
      obtain rfl := Option.some.inj ht
      have hrest : Inv { s with calling := rest } := ⟨h.consistent, h.saved, h.saving⟩
      exact hrest.run statement
    · cases ht
  | save =>
    obtain ⟨saving, hs, rfl⟩ := Option.map_eq_some_iff.mp ht
    exact h.save hs
  | subscription sessions =>
    obtain rfl := Option.some.inj ht
    exact h.applySessions sessions

theorem inv_of_reachable {s : State} (h : machine.Reachable s) : Inv s := by
  refine h.invariant ?_ fun t a u ht _ hu => ht.step hu
  rintro s ⟨hscreen, hsaved, hsaving, -, -⟩
  refine ⟨?_, hsaved, fun ids active heq => ?_⟩
  · rw [hscreen]
    exact ⟨List.nodup_nil, fun a ha => by cases ha⟩
  · rw [hsaving] at heq
    cases heq

/-- The subscription brings no list while the saved identities are not those of the tabs and no
tab is open, and a lock finds no open tab on a locked screen. -/
def Undisturbed (s : State) : Action → Prop
  | .subscription _ => s.saves = true → s.screen.unlocked = true → s.screen.terminalTabs ≠ []
  | .next => s.calling.head? = some (.setUnlocked false) → s.screen.unlocked = false →
      s.screen.terminalTabs = []
  | _ => True

instance : ∀ s a, Decidable (Undisturbed s a)
  | s, .subscription _ => inferInstanceAs (Decidable
      (s.saves = true → s.screen.unlocked = true → s.screen.terminalTabs ≠ []))
  | s, .next => inferInstanceAs (Decidable
      (s.calling.head? = some (.setUnlocked false) → s.screen.unlocked = false →
        s.screen.terminalTabs = []))
  | _, .call _ | _, .save => isTrue trivial

/-- No closed tab is open, or saved, or about to be saved. -/
structure Closed (s : State) : Prop where
  tabs : ∀ id ∈ s.screen.tabIds, id ∉ s.closed
  saved : s.saves = false → ∀ id ∈ s.savedIds, id ∉ s.closed
  saving : ∀ ids active, s.saving = some (.writingIds ids active) → ∀ id ∈ ids, id ∉ s.closed

/-- The saved identities are read only where they hold no closed tab. -/
theorem Closed.applySessions {s : State} (h : Closed s) (sessions : List MobileSession)
    (hread : s.saves = true → s.screen.unlocked = true → s.screen.terminalTabs ≠ []) :
    Closed (s.applySessions sessions) := by
  refine ⟨fun id hid => ?_, h.saved, h.saving⟩
  change id ∈ (s.screen.applySessions s.savedIds s.savedActive sessions).tabIds at hid
  rw [ShellyUiState.tabIds_applySessions] at hid
  split at hid
  · rename_i hopen
    obtain ⟨hempty, hunlocked⟩ := Bool.and_eq_true_iff.mp hopen
    have hsaves : s.saves = false := by
      cases hs : s.saves with
      | false => rfl
      | true => exact absurd (List.isEmpty_iff.mp hempty) (hread hs hunlocked)
    exact h.saved hsaves id (List.mem_filter.mp hid).1
  · exact h.tabs id hid

/-- A close saves what it leaves open. -/
theorem Closed.close {s : State} (h : Closed s) {screen : ShellyUiState} {ids : List String}
    {saving : Saving} (hleft : ∀ id ∈ screen.tabIds, id ∈ s.screen.tabIds ∧ id ∉ ids)
    (hsaving : saving = .reading ∨ saving = .writingIds [] none) :
    Closed (s.close screen ids (some saving)) := by
  refine ⟨fun id hid => ?_, fun hnone => ?_, fun ids' active heq => ?_⟩
  · obtain ⟨hbefore, hout⟩ := hleft id hid
    change id ∉ s.closed ∪ ids.toFinset
    rw [Finset.mem_union, List.mem_toFinset, not_or]
    exact ⟨h.tabs id hbefore, hout⟩
  · rcases hsaving with rfl | rfl <;> cases hnone
  · rcases hsaving with rfl | rfl
    · cases heq
    · obtain ⟨rfl, rfl⟩ := Saving.writingIds.inj (Option.some.inj heq)
      exact fun id hid => by cases hid

theorem Closed.run {s : State} (h : Closed s) (hsaving : s.saving = none) (statement : Statement)
    (hlock : statement = .setUnlocked false → s.screen.unlocked = false →
      s.screen.terminalTabs = []) : Closed (s.run statement) := by
  have hsaves : s.saves = false := by rw [State.saves, hsaving]
  cases statement with
  | setUnlocked unlocked =>
    cases unlocked with
    | true => exact ⟨h.tabs, h.saved, h.saving⟩
    | false =>
      change Closed (s.close _ _ _)
      by_cases hunlocked : s.screen.unlocked = true
      · rw [if_pos hunlocked]
        exact h.close (fun id hid => by cases hid) (.inr rfl)
      · rw [if_neg hunlocked]
        have hnone := hlock rfl (Bool.eq_false_of_not_eq_true hunlocked)
        have hclosed : s.closed ∪ s.screen.tabIds.toFinset = s.closed := by
          rw [ShellyUiState.tabIds, hnone]
          exact Finset.union_empty _
        refine ⟨fun id hid => (by cases hid), fun _ id hid => ?_, fun ids active heq => (by cases heq)⟩
        change id ∉ s.closed ∪ s.screen.tabIds.toFinset
        rw [hclosed]
        exact h.saved hsaves id hid
  | openTerminalSession session =>
    refine ⟨fun id hid => ?_, fun hnone => ?_, fun ids active heq => by cases heq⟩
    · change id ∉ s.closed.erase session.id
      rw [Finset.mem_erase, not_and]
      intro hne
      change id ∈ (s.screen.openTerminalSession session).tabIds at hid
      rw [ShellyUiState.tabIds_openTerminalSession] at hid
      split at hid
      · exact h.tabs id hid
      · rcases List.mem_append.mp hid with hid | hid
        · exact h.tabs id hid
        · exact absurd (List.mem_singleton.mp hid) hne
    · cases hnone
  | closeTerminalTab sessionId =>
    refine h.close (fun id hid => ?_) (.inl rfl)
    rw [ShellyUiState.tabIds_closeTerminalTab] at hid
    obtain ⟨hbefore, hne⟩ := List.mem_filter.mp hid
    refine ⟨hbefore, fun hout => of_decide_eq_true hne ?_⟩
    exact of_decide_eq_true (List.mem_filter.mp hout).2
  | closeTerminalSession => exact h.close (fun id hid => by cases hid) (.inr rfl)
  | applySessions sessions =>
    refine h.applySessions sessions fun hs => ?_
    rw [hsaves] at hs
    cases hs
  | applyWith session => exact ⟨h.tabs, h.saved, h.saving⟩
  | applyWithout sessionId => exact ⟨h.tabs, h.saved, h.saving⟩

theorem Closed.save {s : State} (h : Closed s) {saving : Saving} (hs : s.saving = some saving) :
    Closed (s.save saving) := by
  cases saving with
  | reading =>
    refine ⟨h.tabs, fun hnone => (by cases hnone), ?_⟩
    rintro ids active ⟨⟩
    exact h.tabs
  | writingIds ids active =>
    exact ⟨h.tabs, fun _ => h.saving ids active hs, fun ids active heq => by cases heq⟩
  | writingActive active =>
    refine ⟨h.tabs, fun _ => h.saved ?_, fun ids active heq => by cases heq⟩
    rw [State.saves, hs]

theorem Closed.step {a : Action} {s t : State} (h : Closed s) (ha : Undisturbed s a)
    (ht : step a s = some t) : Closed t := by
  cases a with
  | call c =>
    simp only [TerminalTabs.step, Option.ite_none_right_eq_some, Option.some.injEq] at ht
    obtain ⟨-, rfl⟩ := ht
    exact ⟨h.tabs, h.saved, h.saving⟩
  | next =>
    simp only [TerminalTabs.step] at ht
    split at ht
    · rename_i statement rest hsaving hcalling
      obtain rfl := Option.some.inj ht
      have hrest : Closed { s with calling := rest } := ⟨h.tabs, h.saved, h.saving⟩
      refine hrest.run hsaving statement fun heq => ha ?_
      rw [hcalling, heq]
      rfl
    · cases ht
  | save =>
    obtain ⟨saving, hs, rfl⟩ := Option.map_eq_some_iff.mp ht
    exact h.save hs
  | subscription sessions =>
    obtain rfl := Option.some.inj ht
    exact h.applySessions sessions ha

theorem closed_of_reachable {s : State} (h : machine.ReachableWhen Undisturbed s) : Closed s := by
  refine h.invariant ?_ fun t a u ht ha hu => ht.step ha hu
  rintro s ⟨hscreen, -, hsaving, -, hclosed⟩
  refine ⟨fun id hid => ?_, fun _ id _ => ?_, fun ids active heq => ?_⟩
  · rw [hscreen] at hid
    cases hid
  · rw [hclosed]
    exact Finset.notMem_empty id
  · rw [hsaving] at heq
    cases heq

/-- The tabs that are open are of different sessions and the active one is among them, and no tab
is open that was closed and not opened again. -/
def TabsConsistent (s : State) : Prop :=
  s.screen.tabIds.Nodup ∧ (∀ a, s.screen.activeTerminalSessionId = some a → a ∈ s.screen.tabIds) ∧
    ∀ id ∈ s.screen.tabIds, id ∉ s.closed

theorem tabs_consistent {s : State} (h : machine.ReachableWhen Undisturbed s) :
    TabsConsistent s := by
  have hinv := inv_of_reachable h.reachable
  exact ⟨hinv.consistent.nodup, hinv.consistent.active, (closed_of_reachable h).tabs⟩

/-- One session of the daemon. -/
def shell : MobileSession := ⟨"s", "shell", ["sh"], "/", 1, 1, .idle, none, none⟩

def freshlyStarted : State where
  screen := ⟨false, [], [], none⟩
  savedIds := []
  savedActive := none
  saving := none
  calling := []
  closed := ∅

theorem freshlyStarted_init : machine.init freshlyStarted := ⟨rfl, List.nodup_nil, rfl, rfl, rfl⟩

/-- A tab is opened on an unlocked screen, and saved. -/
def openRun : List Action :=
  [.call (.setUnlocked true), .next, .call (.openTerminalSession shell), .next, .save, .save,
    .save]

theorem tabs_consistent_closed : ∃ s, machine.ReachableWhen Undisturbed s ∧
    s.screen.tabIds = [] ∧ "s" ∈ s.closed ∧ TabsConsistent s := by
  obtain ⟨s, hr, htabs, hclosed⟩ := machine.exists_reachable_of_exec Undisturbed
    (fun s => s.screen.tabIds = [] ∧ "s" ∈ s.closed)
    (List.flatten [openRun,
      [.call (.closeTerminalTab "s"), .next, .save, .save, .save, .subscription [shell]]])
    freshlyStarted_init (by decide)
  exact ⟨s, hr, htabs, hclosed, tabs_consistent hr⟩

/-- A list of the subscription comes between the close of the only tab and the save of its being
closed, and opens it again. -/
theorem closed_tab_comes_back : ¬ ∀ s, machine.Reachable s → TabsConsistent s := by
  intro hall
  obtain ⟨s, hr, htabs, hclosed⟩ := machine.exists_reachable_of_exec Machine.Any
    (fun s => s.screen.tabIds = ["s"] ∧ "s" ∈ s.closed)
    (List.flatten [openRun,
      [.call (.closeTerminalTab "s"), .next, .subscription [shell], .save, .save, .save]])
    freshlyStarted_init (by decide)
  exact (hall s hr).2.2 "s" (by rw [htabs]; exact List.mem_singleton_self _) hclosed

end Shelly.Mobile.TerminalTabs
