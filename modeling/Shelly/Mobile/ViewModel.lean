import Mathlib.Data.List.Nodup
import Mathlib.Data.Option.Basic
import Shelly.Protocol.Messages

namespace Shelly.Mobile

structure MobileSession where
  id : String
  name : String
  command : List String
  cwd : String
  createdAt : Nat
  lastActivity : Nat
  state : AgentState
  lastLine : Option String
  model : Option String
  deriving DecidableEq

/-- Keeps the first session of each identity. -/
def distinctById : List MobileSession → List MobileSession
  | [] => []
  | session :: sessions => session :: (distinctById sessions).filter (·.id ≠ session.id)

/-- The part of the screen that shows sessions and terminals. -/
structure ShellyUiState where
  unlocked : Bool
  sessions : List MobileSession
  terminalTabs : List MobileSession
  activeTerminalSessionId : Option String
  deriving DecidableEq

namespace ShellyUiState

variable (s : ShellyUiState)

def tabIds : List String := s.terminalTabs.map MobileSession.id

def setUnlocked (unlocked : Bool) : ShellyUiState :=
  { s with
    unlocked
    terminalTabs := if unlocked then s.terminalTabs else []
    activeTerminalSessionId := if unlocked then s.activeTerminalSessionId else none }

/-- A tab that is open already is brought up to date in its place. -/
def openTerminalSession (session : MobileSession) : ShellyUiState :=
  { s with
    terminalTabs :=
      if s.terminalTabs.any (·.id = session.id) then
        s.terminalTabs.map fun tab => if tab.id = session.id then session else tab
      else s.terminalTabs ++ [session]
    activeTerminalSessionId := some session.id }

/-- The tab at the place of the closed one becomes active, or the last one. -/
def closeTerminalTab (sessionId : String) : ShellyUiState :=
  match s.terminalTabs.findIdx? (·.id = sessionId) with
  | none => s
  | some closedIndex =>
    let remaining := s.terminalTabs.filter (·.id ≠ sessionId)
    { s with
      terminalTabs := remaining
      activeTerminalSessionId :=
        if s.activeTerminalSessionId = some sessionId then
          (remaining[closedIndex]?.or remaining.getLast?).map MobileSession.id
        else s.activeTerminalSessionId.filter fun a => remaining.any (·.id = a) }

def closeTerminalSession : ShellyUiState :=
  { s with terminalTabs := [], activeTerminalSessionId := none }

/-- The last session with the identity, as in a map that is filled from the list. -/
def sessionById (sessions : List MobileSession) (id : String) : Option MobileSession :=
  sessions.findRev? (·.id = id)

/-- Shows a list of sessions. While no tab is open, the saved ones are opened again. -/
def applySessions (savedIds : List String) (savedActive : Option String)
    (sessions : List MobileSession) : ShellyUiState :=
  let updatedTabs :=
    if s.terminalTabs.isEmpty && s.unlocked then savedIds.filterMap (sessionById sessions)
    else s.terminalTabs.map fun tab => (sessionById sessions tab.id).getD tab
  let active := s.activeTerminalSessionId.or
    (savedActive.filter fun a => updatedTabs.any (·.id = a))
  { s with
    sessions
    terminalTabs := updatedTabs
    activeTerminalSessionId := active.filter fun a => updatedTabs.any (·.id = a) }

variable {s}

theorem sessionById_id {sessions : List MobileSession} {id : String} {session : MobileSession}
    (h : sessionById sessions id = some session) : session.id = id := by
  unfold sessionById at h
  rw [List.findRev?_eq_find?_reverse] at h
  have hid := List.find?_some h
  exact of_decide_eq_true hid

theorem any_id_iff {tabs : List MobileSession} {id : String} :
    tabs.any (·.id = id) = true ↔ id ∈ tabs.map MobileSession.id := by
  simp only [List.any_eq_true, decide_eq_true_iff, List.mem_map]

/-- Bringing tabs up to date leaves their identities alone. -/
theorem map_updated_ids (sessions tabs : List MobileSession) :
    (tabs.map fun tab => (sessionById sessions tab.id).getD tab).map MobileSession.id =
      tabs.map MobileSession.id := by
  rw [List.map_map]
  apply List.map_congr_left
  intro tab _
  change ((sessionById sessions tab.id).getD tab).id = tab.id
  cases h : sessionById sessions tab.id with
  | none => rfl
  | some session => exact sessionById_id h

/-- The saved identities that the list has a session for. -/
theorem filterMap_saved_ids (sessions : List MobileSession) (savedIds : List String) :
    (savedIds.filterMap (sessionById sessions)).map MobileSession.id =
      savedIds.filter fun id => (sessionById sessions id).isSome := by
  induction savedIds with
  | nil => rfl
  | cons id savedIds ih =>
    cases h : sessionById sessions id with
    | none => simpa [h] using ih
    | some session => simpa [h, sessionById_id h] using ih

@[simp] theorem sessions_closeTerminalTab (sessionId : String) :
    (s.closeTerminalTab sessionId).sessions = s.sessions := by
  unfold closeTerminalTab
  split <;> rfl

theorem tabIds_openTerminalSession (session : MobileSession) :
    (s.openTerminalSession session).tabIds =
      if session.id ∈ s.tabIds then s.tabIds else s.tabIds ++ [session.id] := by
  unfold openTerminalSession tabIds
  by_cases h : session.id ∈ s.terminalTabs.map MobileSession.id
  · rw [if_pos h]
    simp only [if_pos (any_id_iff.mpr h), List.map_map]
    apply List.map_congr_left
    intro tab _
    simp only [Function.comp_apply]
    split
    · rename_i heq
      exact heq.symm
    · rfl
  · rw [if_neg h]
    simp only [if_neg (mt any_id_iff.mp h), List.map_append, List.map_cons, List.map_nil]

theorem tabIds_closeTerminalTab (sessionId : String) :
    (s.closeTerminalTab sessionId).tabIds = s.tabIds.filter (· ≠ sessionId) := by
  unfold closeTerminalTab tabIds
  split
  · rename_i hnone
    rw [List.findIdx?_eq_none_iff] at hnone
    rw [List.filter_eq_self.mpr]
    intro id hid
    obtain ⟨tab, htab, rfl⟩ := List.mem_map.mp hid
    have hne := of_decide_eq_false (hnone tab htab)
    exact decide_eq_true hne
  · simp only [List.filter_map]
    rfl

theorem tabIds_applySessions (savedIds : List String) (savedActive : Option String)
    (sessions : List MobileSession) :
    (s.applySessions savedIds savedActive sessions).tabIds =
      if s.terminalTabs.isEmpty && s.unlocked then
        savedIds.filter fun id => (sessionById sessions id).isSome
      else s.tabIds := by
  unfold applySessions tabIds
  split
  · exact filterMap_saved_ids sessions savedIds
  · exact map_updated_ids sessions s.terminalTabs

/-- The tabs are of different sessions, and the active one is one of them. -/
structure Consistent (s : ShellyUiState) : Prop where
  nodup : s.tabIds.Nodup
  active : ∀ a, s.activeTerminalSessionId = some a → a ∈ s.tabIds

theorem Consistent.setUnlocked (h : s.Consistent) (unlocked : Bool) :
    (s.setUnlocked unlocked).Consistent := by
  cases unlocked with
  | true => exact ⟨h.nodup, h.active⟩
  | false => exact ⟨List.nodup_nil, fun a ha => by cases ha⟩

theorem Consistent.openTerminalSession (h : s.Consistent) (session : MobileSession) :
    (s.openTerminalSession session).Consistent := by
  refine ⟨?_, fun a ha => ?_⟩
  · rw [tabIds_openTerminalSession]
    split
    · exact h.nodup
    · rename_i hnew
      rw [List.nodup_append]
      refine ⟨h.nodup, List.nodup_singleton _, fun a ha b hb heq => hnew ?_⟩
      rw [← List.mem_singleton.mp hb, ← heq]
      exact ha
  · obtain rfl := Option.some.inj ha
    rw [tabIds_openTerminalSession]
    split
    · assumption
    · exact List.mem_append_right _ (List.mem_singleton_self _)

theorem Consistent.closeTerminalTab (h : s.Consistent) (sessionId : String) :
    (s.closeTerminalTab sessionId).Consistent := by
  refine ⟨?_, fun a ha => ?_⟩
  · rw [tabIds_closeTerminalTab]
    exact h.nodup.filter _
  · unfold ShellyUiState.closeTerminalTab at ha ⊢
    split at ha
    · exact h.active a ha
    · simp only at ha ⊢
      split at ha
      · obtain ⟨tab, htab, rfl⟩ := Option.map_eq_some_iff.mp ha
        refine List.mem_map_of_mem ?_
        rcases Option.or_eq_some_iff.mp htab with hnext | ⟨-, hlast⟩
        · exact List.mem_of_getElem? hnext
        · exact List.mem_of_getLast? hlast
      · exact any_id_iff.mp (Option.filter_eq_some_iff.mp ha).2

theorem Consistent.closeTerminalSession : s.closeTerminalSession.Consistent :=
  ⟨List.nodup_nil, fun a ha => by cases ha⟩

theorem Consistent.applySessions (h : s.Consistent) {savedIds : List String}
    (hsaved : savedIds.Nodup) (savedActive : Option String) (sessions : List MobileSession) :
    (s.applySessions savedIds savedActive sessions).Consistent := by
  refine ⟨?_, fun a ha => ?_⟩
  · rw [tabIds_applySessions]
    split
    · exact hsaved.filter _
    · exact h.nodup
  · exact any_id_iff.mp (Option.filter_eq_some_iff.mp ha).2

end ShellyUiState

end Shelly.Mobile
