import Mathlib.Data.List.Nodup
import Shelly.Protocol.Wire

namespace Shelly.Cli

/-- The text forms of a UUID, and the debug form of a message. -/
structure TextForms where
  parseUuid : String → Option Wire.Uuid
  uuidText : Wire.Uuid → String
  debug : Wire.ServerToClientMsg → String

/-- The session that a command line argument stands for, read off the daemon's answer. -/
def resolveSession (forms : TextForms) (answer : Wire.ServerToClientMsg) (value : String) :
    Except String Wire.SessionSummary :=
  match answer with
  | .sessionList sessions =>
    let notFound := s!"session not found: {value}"
    match forms.parseUuid value with
    | some id =>
      match sessions.find? fun session => session.id = id with
      | some session => .ok session
      | none => .error notFound
    | none =>
      match sessions.find? fun session => session.name = value with
      | some session => .ok session
      | none =>
        match sessions.find? fun session =>
            value.toList.isPrefixOf (forms.uuidText session.id).toList with
        | some session => .ok session
        | none => .error notFound
  | .error _ message => .error message
  | other => .error s!"unexpected daemon response: {forms.debug other}"

section Lookup

variable {forms : TextForms} {sessions : List Wire.SessionSummary} {s : Wire.SessionSummary}

/-- Under a key that no two entries share, an entry is the one that is found. -/
theorem find?_key {α κ : Type*} [DecidableEq κ] {key : α → κ} {l : List α} {x : α}
    (hkeys : (l.map key).Nodup) (hx : x ∈ l) : (l.find? fun y => key y = key x) = some x := by
  cases hfound : l.find? fun y => key y = key x with
  | none =>
    have hno := List.find?_eq_none.mp hfound x hx
    simp at hno
  | some y =>
    have hy : y ∈ l := List.mem_of_find?_eq_some hfound
    have hkey : key y = key x := by simpa using List.find?_some hfound
    rw [List.inj_on_of_nodup_map hkeys hy hx hkey]

/-- A name that is no identifier is looked up as a name. -/
theorem resolveSession_name (hnames : (sessions.map (·.name)).Nodup) (hs : s ∈ sessions)
    (hparse : forms.parseUuid s.name = none) :
    resolveSession forms (.sessionList sessions) s.name = .ok s := by
  have hfound := find?_key hnames hs
  simp only [resolveSession, hparse, hfound]

/-- A name that is an identifier is looked up as an identifier. -/
theorem resolveSession_id {id : Wire.Uuid} (hids : (sessions.map (·.id)).Nodup) (hs : s ∈ sessions)
    (hparse : forms.parseUuid s.name = some id) :
    resolveSession forms (.sessionList sessions) s.name = .ok s ↔ id = s.id := by
  simp only [resolveSession, hparse]
  constructor
  · intro h
    cases hfound : sessions.find? fun session => session.id = id with
    | none =>
      rw [hfound] at h
      cases h
    | some session =>
      rw [hfound] at h
      obtain rfl : session = s := Except.ok.inj h
      have hid : session.id = id := by simpa using List.find?_some hfound
      exact hid.symm
  · intro hid
    subst hid
    have hfound := find?_key hids hs
    simp only [hfound]

end Lookup

/-- A listed session is found by its name if and only if the name is not read as the identifier
of another session, listed or not. -/
theorem resolveSession_name_iff (forms : TextForms) {sessions : List Wire.SessionSummary}
    (hnames : (sessions.map (·.name)).Nodup) (hids : (sessions.map (·.id)).Nodup)
    {s : Wire.SessionSummary} (hs : s ∈ sessions) :
    resolveSession forms (.sessionList sessions) s.name = .ok s ↔
      ∀ id, forms.parseUuid s.name = some id → id = s.id := by
  cases hparse : forms.parseUuid s.name with
  | none => simp [resolveSession_name hnames hs hparse]
  | some id => simp [resolveSession_id hids hs hparse]

section Examples

private def otherId : Wire.Uuid := .replicate 16 0x11

private def otherIdText : String := "11111111-1111-1111-1111-111111111111"

/-- Readers of one identifier. -/
private def oneUuid : TextForms where
  parseUuid text := if text = otherIdText then some otherId else none
  uuidText id := if id = otherId then otherIdText else ""
  debug _ := ""

private def summaryOf (id : Wire.Uuid) (name : String) : Wire.SessionSummary where
  id := id
  name := name
  command := ["/bin/sh"]
  cwd := "/"
  createdAt := 0
  lastActivity := 0
  state := .idle
  lastLine := none
  model := none

/-- Two sessions, one of them with the identifier of the other for its name. -/
private def twins : List Wire.SessionSummary :=
  [summaryOf otherId "build", summaryOf (.replicate 16 0x22) otherIdText]

theorem resolveSession_name_build :
    resolveSession oneUuid (.sessionList twins) "build" = .ok (summaryOf otherId "build") :=
  (resolveSession_name_iff oneUuid (by decide) (by decide) (s := summaryOf otherId "build")
    (by decide)).mpr fun id hid => by cases hid

/-- The name of one session stands for the other one. -/
theorem resolved_to_another :
    ¬ ∀ (forms : TextForms) (sessions : List Wire.SessionSummary) (s : Wire.SessionSummary),
      (sessions.map (·.name)).Nodup → (sessions.map (·.id)).Nodup → s ∈ sessions →
      resolveSession forms (.sessionList sessions) s.name = .ok s := by
  intro hall
  have hother : resolveSession oneUuid (.sessionList twins) otherIdText =
      .ok (summaryOf otherId "build") := by decide
  have hnamed := hall oneUuid twins (summaryOf (.replicate 16 0x22) otherIdText)
    (by decide) (by decide) (by decide)
  have hsame := Except.ok.inj (hother.symm.trans hnamed)
  exact absurd hsame (by decide)

end Examples

end Shelly.Cli
