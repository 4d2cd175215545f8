import Mathlib.Data.List.ReduceOption
import Shelly.Framework.Json
import Shelly.Protocol.Messages
import Shelly.Protocol.Text

namespace Shelly

def toAsciiLowercase (s : String) : String := String.ofList (s.toList.map Char.toLower)

namespace Daemon

def inferFromStructuredEvent (eventName : String) : Option AgentState :=
  match toAsciiLowercase (trim eventName) with
  | "awaiting_input" | "approval_requested" | "turn_waiting" => some .awaitingInput
  | "turn_started" | "working" => some .working
  | "turn_finished" | "idle" => some .idle
  | "crashed" | "error" => some .crashed
  | _ => none

/-- The fields of an event, in their order. -/
inductive CodexField
  | type | event | status
  deriving DecidableEq

def CodexField.all : List CodexField := [.type, .event, .status]

def CodexField.key : CodexField → String
  | .type => "type"
  | .event => "event"
  | .status => "status"

def CodexField.ofKey (key : String) : Option CodexField := CodexField.all.find? (·.key = key)

/-- A field that is missing is `none`. -/
abbrev CodexEvent : Type := CodexField → Option String

/-- The fields read so far. -/
abbrev CodexFields : Type := CodexField → Option (Option String)

def CodexFields.new : CodexFields := fun _ => none

def CodexFields.set (fields : CodexFields) (f : CodexField) (text : Option String) : CodexFields :=
  Function.update fields f (some text)

def CodexFields.finish (fields : CodexFields) : CodexEvent := fun f => (fields f).join

/-- Reads a text or nothing. -/
def readOptionString : Json → Option (Option String)
  | .null => some none
  | .string (some text) => some (some text)
  | _ => none

/-- Reads an object. Keys without a field are passed over, whatever their value is. -/
def visitMap : CodexFields → List (Option String × Json) → Option CodexEvent
  | fields, [] => some fields.finish
  | _, (none, _) :: _ => none
  | fields, (some key, json) :: rest =>
    match CodexField.ofKey key with
    | none => visitMap fields rest
    | some f =>
      if (fields f).isSome then none
      else (readOptionString json).bind fun text => visitMap (fields.set f text) rest

/-- Reads an array that holds the values of the fields in their order. -/
def visitSeq : List CodexField → CodexFields → List Json → Option CodexEvent
  | _, fields, [] => some fields.finish
  | [], _, _ :: _ => none
  | f :: later, fields, json :: rest =>
    (readOptionString json).bind fun text => visitSeq later (fields.set f text) rest

def readCodexEvent : Json → Option CodexEvent
  | .object members => visitMap .new members
  | .array elements => visitSeq CodexField.all .new elements
  | _ => none

/-- What the daemon makes of a line. -/
def inferFromJsonLine (parse : String → Option Json) (line : String) : Option AgentState :=
  (parse line).bind fun json =>
    (readCodexEvent json).bind fun event =>
      (CodexField.all.map event).reduceOption.findSome? inferFromStructuredEvent

end Daemon

namespace Cli

def codexStateFromName (event : String) : Option AgentState :=
  match toAsciiLowercase (trim event) with
  | "awaiting_input" | "approval_requested" | "turn_waiting" => some .awaitingInput
  | "turn_started" | "working" => some .working
  | "turn_finished" | "idle" => some .idle
  | "crashed" | "error" => some .crashed
  | _ => none

/-- What the hook makes of a text. -/
def codexStateFromJson (parse : String → Option Json) (payload : String) : Option AgentState :=
  (parse payload).bind fun json =>
    (readValue jsonDepth json).bind fun value =>
      (["type", "event", "status"].filterMap fun key => (value.get key).bind JsonValue.asStr).findSome?
        codexStateFromName

end Cli

namespace Daemon

open Cli

theorem codexStateFromName_eq : codexStateFromName = inferFromStructuredEvent := rfl

section Typed

variable {f : CodexField} {key : String} {json : Json} {text : Option String}
  {fields : CodexFields} {members : List (Option String × Json)} {event : CodexEvent}

theorem ofKey_eq_some : CodexField.ofKey key = some f ↔ key = f.key := by
  constructor
  · intro h
    have hkey : f.key = key := by simpa using List.find?_some h
    exact hkey.symm
  · rintro rfl
    cases f <;> decide

theorem ofKey_eq_none (h : CodexField.ofKey key = none) (f : CodexField) : key ≠ f.key := by
  intro hkey
  rw [ofKey_eq_some.mpr hkey] at h
  cases h

theorem key_inj {f g : CodexField} (h : f.key = g.key) : f = g := by
  have hf := ofKey_eq_some.mpr h
  rw [ofKey_eq_some.mpr (rfl : f.key = f.key)] at hf
  exact Option.some.inj hf

/-- Nothing, or a text that can be read. -/
def IsText (json : Json) : Prop := json = .null ∨ ∃ text, json = .string (some text)

theorem readOptionString_isSome : (readOptionString json).isSome ↔ IsText json := by
  cases json with
  | null => simp [readOptionString, IsText]
  | string text => cases text <;> simp [readOptionString, IsText]
  | _ => simp [readOptionString, IsText]

theorem readOptionString_eq (h : readOptionString json = some text) : text = json.text := by
  cases json with
  | null => cases h; rfl
  | string content =>
    cases content with
    | none => cases h
    | some content => cases h; rfl
  | _ => cases h

theorem CodexFields.set_self (fields : CodexFields) (f : CodexField) (text : Option String) :
    fields.set f text f = some text := by
  rw [CodexFields.set, Function.update_self]

theorem CodexFields.set_other {g : CodexField} (h : g ≠ f) :
    fields.set f text g = fields g := by
  rw [CodexFields.set, Function.update_of_ne h]

/-- Every field comes at most once and is a text or nothing, and every key can be read. -/
structure StrictMembers (fields : CodexFields) (members : List (Option String × Json)) : Prop where
  keys : ∀ m ∈ members, m.1.isSome = true
  once : ∀ f : CodexField,
    members.countP (fun m => m.1 = some f.key) + (if (fields f).isSome then 1 else 0) ≤ 1
  texts : ∀ f : CodexField, ∀ m ∈ members, m.1 = some f.key → IsText m.2

theorem strictMembers_skip (hkey : CodexField.ofKey key = none) :
    StrictMembers fields ((some key, json) :: members) ↔ StrictMembers fields members := by
  have hother (f : CodexField) : ¬ (some key = some f.key) :=
    fun h => ofKey_eq_none hkey f (Option.some.inj h)
  constructor
  · intro h
    refine ⟨fun m hm => h.keys m (List.mem_cons_of_mem _ hm), fun f => ?_,
      fun f m hm => h.texts f m (List.mem_cons_of_mem _ hm)⟩
    have honce := h.once f
    rwa [List.countP_cons_of_neg (by simpa using hother f)] at honce
  · intro h
    refine ⟨?_, fun f => ?_, ?_⟩
    · intro m hm
      rcases List.mem_cons.mp hm with rfl | hm
      · rfl
      · exact h.keys m hm
    · rw [List.countP_cons_of_neg (by simpa using hother f)]
      exact h.once f
    · intro f m hm hmkey
      rcases List.mem_cons.mp hm with rfl | hm
      · exact (hother f hmkey).elim
      · exact h.texts f m hm hmkey

theorem strictMembers_set (hnew : (fields f).isSome = false) :
    StrictMembers fields ((some f.key, json) :: members) ↔
      IsText json ∧ StrictMembers (fields.set f text) members := by
  have hother {g : CodexField} (hg : g ≠ f) : ¬ (some f.key = some g.key) :=
    fun h => hg (key_inj (Option.some.inj h)).symm
  constructor
  · intro h
    refine ⟨h.texts f _ List.mem_cons_self rfl, fun m hm => h.keys m (List.mem_cons_of_mem _ hm),
      fun g => ?_, fun g m hm => h.texts g m (List.mem_cons_of_mem _ hm)⟩
    have honce := h.once g
    by_cases hg : g = f
    · subst hg
      rw [List.countP_cons_of_pos (by simp), hnew] at honce
      simp only [CodexFields.set_self, Option.isSome_some, if_true]
      simp only [Bool.false_eq_true, if_false] at honce
      omega
    · rw [List.countP_cons_of_neg (by simpa using hother hg)] at honce
      rwa [CodexFields.set_other hg]
  · rintro ⟨htext, h⟩
    refine ⟨?_, fun g => ?_, ?_⟩
    · intro m hm
      rcases List.mem_cons.mp hm with rfl | hm
      · rfl
      · exact h.keys m hm
    · have honce := h.once g
      by_cases hg : g = f
      · subst hg
        simp only [CodexFields.set_self, Option.isSome_some, if_true] at honce
        rw [List.countP_cons_of_pos (by simp), hnew]
        simp only [Bool.false_eq_true, if_false]
        omega
      · rw [List.countP_cons_of_neg (by simpa using hother hg)]
        rwa [CodexFields.set_other hg] at honce
    · intro g m hm hmkey
      rcases List.mem_cons.mp hm with rfl | hm
      · exact htext
      · exact h.texts g m hm hmkey

/-- Which objects are read as an event. -/
theorem visitMap_isSome (fields : CodexFields) (members : List (Option String × Json)) :
    (visitMap fields members).isSome ↔ StrictMembers fields members := by
  induction members generalizing fields with
  | nil =>
    refine ⟨fun _ => ⟨by simp, fun f => ?_, by simp⟩, fun _ => rfl⟩
    rw [List.countP_nil]
    split <;> omega
  | cons m members ih =>
    obtain ⟨key, json⟩ := m
    cases key with
    | none =>
      refine ⟨fun h => by simp [visitMap] at h, fun h => ?_⟩
      have hkey := h.keys _ List.mem_cons_self
      cases hkey
    | some key =>
      cases hkey : CodexField.ofKey key with
      | none =>
        rw [visitMap, strictMembers_skip hkey, ← ih fields]
        simp only [hkey]
      | some f =>
        obtain rfl := ofKey_eq_some.mp hkey
        rw [visitMap]
        simp only [hkey]
        cases hset : (fields f).isSome with
        | true =>
          refine ⟨fun h => by simp at h, fun h => ?_⟩
          have honce := h.once f
          rw [List.countP_cons_of_pos (by simp), hset] at honce
          simp only [if_true] at honce
          omega
        | false =>
          simp only [Bool.false_eq_true, if_false]
          cases htext : readOptionString json with
          | none =>
            refine ⟨fun h => by simp at h, fun h => ?_⟩
            have hread := readOptionString_isSome.mpr (h.texts f _ List.mem_cons_self rfl)
            rw [htext] at hread
            cases hread
          | some text =>
            have hread := readOptionString_isSome.mp (Option.isSome_of_eq_some htext)
            have hmore : StrictMembers fields ((some f.key, json) :: members) ↔
                IsText json ∧ StrictMembers (fields.set f text) members :=
              strictMembers_set hset
            rw [hmore, Option.bind_some, ih]
            exact ⟨fun h => ⟨hread, h⟩, fun h => h.2⟩

/-- A field of an event that was read is the text of the last member of its key. -/
theorem visitMap_eq (h : visitMap fields members = some event) (f : CodexField) :
    event f = match lastMember f.key members with
      | some json => json.text
      | none => (fields f).join := by
  induction members generalizing fields with
  | nil => cases h; rfl
  | cons m members ih =>
    obtain ⟨key, json⟩ := m
    cases key with
    | none => cases h
    | some key =>
      rw [visitMap] at h
      rw [lastMember_cons]
      cases hkey : CodexField.ofKey key with
      | none =>
        simp only [hkey] at h
        have hother : ¬ (some f.key = some key) :=
          fun hsame => ofKey_eq_none hkey f (Option.some.inj hsame).symm
        rw [ih h, if_neg hother, Option.or_none]
      | some g =>
        obtain rfl := ofKey_eq_some.mp hkey
        simp only [hkey] at h
        split_ifs at h with hset
        obtain ⟨text, htext, hrest⟩ := Option.bind_eq_some_iff.mp h
        rw [ih hrest]
        cases lastMember f.key members with
        | some last => rfl
        | none =>
          by_cases hf : f = g
          · subst hf
            simp [CodexFields.set_self, readOptionString_eq htext]
          · have hother : ¬ (some f.key = some g.key) :=
              fun hsame => hf (key_inj (Option.some.inj hsame))
            simp [CodexFields.set_other hf, hother]

/-- Which arrays are read as an event. -/
theorem visitSeq_isSome (later : List CodexField) (fields : CodexFields) (elements : List Json) :
    (visitSeq later fields elements).isSome ↔
      elements.length ≤ later.length ∧ ∀ json ∈ elements, IsText json := by
  induction elements generalizing later fields with
  | nil => simp [visitSeq]
  | cons json elements ih =>
    cases later with
    | nil => simp [visitSeq]
    | cons f later =>
      rw [visitSeq, List.forall_mem_cons, ← readOptionString_isSome, List.length_cons,
        List.length_cons, Nat.add_le_add_iff_right]
      cases readOptionString json with
      | none => simp
      | some text => simp [ih]

/-- The fields of an event that was read off an array are its elements. -/
theorem visitSeq_eq {later : List CodexField} {elements : List Json}
    (h : visitSeq later fields elements = some event) (hnodup : later.Nodup)
    (hnew : ∀ f ∈ later, fields f = none) :
    (later.map event).reduceOption = elements.filterMap Json.text ∧
      ∀ f ∉ later, event f = (fields f).join := by
  induction elements generalizing later fields with
  | nil =>
    rw [visitSeq] at h
    cases h
    refine ⟨?_, fun f _ => rfl⟩
    have hnone : later.map fields.finish = later.map fun _ => none :=
      List.map_congr_left fun f hf => by rw [CodexFields.finish, hnew f hf, Option.join_none]
    rw [hnone, List.reduceOption, List.filterMap_map]
    simp
  | cons json elements ih =>
    cases later with
    | nil => cases h
    | cons f later =>
      rw [visitSeq] at h
      obtain ⟨text, htext, hrest⟩ := Option.bind_eq_some_iff.mp h
      obtain ⟨hf, hlater⟩ := List.nodup_cons.mp hnodup
      have hne {g : CodexField} (hg : g ∈ later) : g ≠ f := fun hsame => hf (hsame ▸ hg)
      obtain ⟨htexts, hothers⟩ := ih hrest hlater fun g hg => by
        rw [CodexFields.set_other (hne hg), hnew g (List.mem_cons_of_mem _ hg)]
      have hthis : event f = json.text := by
        rw [hothers f hf, CodexFields.set_self, Option.join_some, readOptionString_eq htext]
      constructor
      · rw [List.map_cons, List.filterMap_cons, hthis]
        cases json.text with
        | none => rw [List.reduceOption_cons_of_none, htexts]
        | some text => rw [List.reduceOption_cons_of_some, htexts]
      · intro g hg
        have hgf : g ≠ f := fun hsame => hg (hsame ▸ List.mem_cons_self)
        rw [hothers g fun hmem => hg (List.mem_cons_of_mem _ hmem), CodexFields.set_other hgf]

end Typed

section Agreement

variable {json : Json} {parse : String → Option Json}

/-- Which texts the daemon reads as an event: an object in which every field comes at most once,
or an array of at most three values, each field a text or nothing. -/
def Strict : Json → Prop
  | .object members => StrictMembers .new members
  | .array elements => elements.length ≤ 3 ∧ ∀ json ∈ elements, IsText json
  | _ => False

/-- Which texts the hook looks for fields in: an object without unreadable parts that is not too
deep. -/
def Held (json : Json) : Prop :=
  (∃ members, json = .object members) ∧ json.readable = true ∧ json.depth ≤ jsonDepth

/-- The texts where the names of events stand. -/
def eventTexts : Json → List String
  | .object members => CodexField.all.filterMap fun f => (lastMember f.key members).bind Json.text
  | .array elements => elements.filterMap Json.text
  | _ => []

/-- Some text where the name of an event stands is the name of a state. -/
def NamesState (json : Json) : Prop :=
  ∃ text ∈ eventTexts json, (inferFromStructuredEvent text).isSome = true

theorem readCodexEvent_isSome (json : Json) : (readCodexEvent json).isSome ↔ Strict json := by
  cases json with
  | object members => exact visitMap_isSome .new members
  | array elements => exact visitSeq_isSome CodexField.all .new elements
  | _ => simp [readCodexEvent, Strict]

theorem eventTexts_eq {event : CodexEvent} (h : readCodexEvent json = some event) :
    (CodexField.all.map event).reduceOption = eventTexts json := by
  cases json with
  | object members =>
    have hfield (f : CodexField) : event f = (lastMember f.key members).bind Json.text := by
      rw [visitMap_eq h f]
      cases lastMember f.key members <;> rfl
    rw [List.reduceOption, List.filterMap_map, eventTexts]
    exact List.filterMap_congr fun f _ => hfield f
  | array elements => exact (visitSeq_eq h (by decide) fun f _ => rfl).1
  | _ => cases h

/-- The daemon sees the names of a text that it reads as an event. -/
theorem inferFromJsonLine_eq {line : String} (h : parse line = some json) :
    inferFromJsonLine parse line = if (readCodexEvent json).isSome
      then (eventTexts json).findSome? inferFromStructuredEvent else none := by
  rw [inferFromJsonLine, h, Option.bind_some]
  cases hevent : readCodexEvent json with
  | none => rfl
  | some event =>
    rw [Option.bind_some, eventTexts_eq hevent]
    rfl

theorem texts_of_object {members : List (Option String × Json)} {value : JsonValue}
    (h : readValue jsonDepth (.object members) = some value) :
    (["type", "event", "status"].filterMap fun key => (value.get key).bind JsonValue.asStr) =
      eventTexts (.object members) := by
  have htext (f : CodexField) : (value.get f.key).bind JsonValue.asStr =
      (lastMember f.key members).bind Json.text := text_get_readValue h
  have hkeys : ["type", "event", "status"] = CodexField.all.map CodexField.key := rfl
  rw [hkeys, List.filterMap_map, eventTexts]
  exact List.filterMap_congr fun f _ => htext f

/-- The hook sees the names of an object that it can read. -/
theorem codexStateFromJson_eq {payload : String} (h : parse payload = some json) :
    (Held json → codexStateFromJson parse payload =
      (eventTexts json).findSome? inferFromStructuredEvent) ∧
    (¬ Held json → codexStateFromJson parse payload = none) := by
  have hread := isSome_readValue jsonDepth json
  rw [codexStateFromJson, h, Option.bind_some, codexStateFromName_eq]
  cases hvalue : readValue jsonDepth json with
  | none =>
    refine ⟨fun hheld => ?_, fun _ => rfl⟩
    rw [hvalue, hheld.2.1, decide_eq_true hheld.2.2] at hread
    cases hread
  | some value =>
    rw [Option.bind_some]
    constructor
    · rintro ⟨⟨members, rfl⟩, -⟩
      rw [texts_of_object hvalue]
    · intro hheld
      rw [hvalue] at hread
      have hwhole : json.readable = true ∧ json.depth ≤ jsonDepth := by simpa using hread.symm
      have hobject (members : List (Option String × Json)) : json ≠ .object members :=
        fun hjson => hheld ⟨⟨members, hjson⟩, hwhole⟩
      have hget := (readValue_spec hvalue).2 hobject
      simp [hget]

/-- The two readers agree on a text if and only if, where it names a state, both or neither of
them read it as an event. -/
theorem codex_readers_agree_iff (parse : String → Option Json) (text : String) :
    inferFromJsonLine parse text = codexStateFromJson parse text ↔
      ∀ json, parse text = some json → NamesState json → (Strict json ↔ Held json) := by
  cases hjson : parse text with
  | none => simp [inferFromJsonLine, codexStateFromJson, hjson]
  | some json =>
    obtain ⟨hheld, hnot⟩ := codexStateFromJson_eq hjson
    have hnames : NamesState json ↔
        ((eventTexts json).findSome? inferFromStructuredEvent).isSome = true :=
      List.findSome?_isSome_iff.symm
    have hall : (∀ json', some json = some json' → NamesState json' → (Strict json' ↔ Held json')) ↔
        (NamesState json → (Strict json ↔ Held json)) :=
      ⟨fun h => h json rfl, fun h json' hsame => by cases hsame; exact h⟩
    rw [hall, hnames, inferFromJsonLine_eq hjson, ← readCodexEvent_isSome]
    generalize (eventTexts json).findSome? inferFromStructuredEvent = state at hheld
    by_cases hread : Held json
    · rw [hheld hread]
      cases (readCodexEvent json).isSome <;> cases state <;> simp [hread]
    · rw [hnot hread]
      cases (readCodexEvent json).isSome <;> cases state <;> simp [hread]

/-- A type that is no text, in front of the name of a state. -/
private def wrongType : String := "\x7b\"type\":1,\"event\":\"working\"\x7d"

private def parseWrongType (text : String) : Option Json :=
  if text = wrongType then
    some (.object [(some "type", .number true), (some "event", .string (some "working"))])
  else none

theorem codex_readers_disagree :
    ¬ ∀ text, inferFromJsonLine parseWrongType text = codexStateFromJson parseWrongType text := by
  intro h
  have hwrong := h wrongType
  revert hwrong
  decide

end Agreement

end Daemon

end Shelly
