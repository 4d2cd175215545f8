import Mathlib.Data.List.Basic

namespace Shelly

/-- A JSON text as it is written. Members stand in their order, and a key may come twice. A number
says whether a 64-bit float holds it; a text with half of a surrogate pair is `none`. -/
inductive Json
  | null
  | bool (b : Bool)
  | number (inRange : Bool)
  | string (text : Option String)
  | array (elements : List Json)
  | object (members : List (Option String × Json))

/-- What a reader without a type of its own makes of a JSON text. No key comes twice. -/
inductive JsonValue
  | null
  | bool (b : Bool)
  | number
  | string (text : String)
  | array (elements : List JsonValue)
  | object (members : List (String × JsonValue))

namespace JsonValue

def insertMember (key : String) (value : JsonValue) (members : List (String × JsonValue)) :
    List (String × JsonValue) :=
  (key, value) :: members.filter (·.1 ≠ key)

def get (key : String) : JsonValue → Option JsonValue
  | .object members => members.lookup key
  | _ => none

def asStr : JsonValue → Option String
  | .string text => some text
  | _ => none

theorem lookup_insertMember (key key' : String) (value : JsonValue)
    (members : List (String × JsonValue)) :
    (insertMember key value members).lookup key' =
      if key' = key then some value else members.lookup key' := by
  rw [insertMember, List.lookup_cons]
  by_cases hkey : key' = key
  · simp [hkey]
  · have hkey' : (key' == key) = false := by simpa using hkey
    rw [if_neg hkey, hkey']
    dsimp only
    induction members with
    | nil => rfl
    | cons m members ih =>
      by_cases hm : m.1 = key
      · have hother : (key' == m.1) = false := by simpa [hm] using hkey
        rw [List.filter_cons_of_neg (by simpa using hm), ih, List.lookup_cons, hother]
      · rw [List.filter_cons_of_pos (by simpa using hm), List.lookup_cons, List.lookup_cons, ih]

end JsonValue

/-- How many arrays and objects may stand in one another. -/
def jsonDepth : Nat := 127

mutual

/-- Reads a text whose arrays and objects stand at most so deep in one another. -/
def readValue : Nat → Json → Option JsonValue
  | _, .null => some .null
  | _, .bool b => some (.bool b)
  | _, .number inRange => if inRange then some .number else none
  | _, .string text => text.map .string
  | 0, .array _ => none
  | depth + 1, .array elements => (readElements depth elements).map .array
  | 0, .object _ => none
  | depth + 1, .object members => (readMembers depth [] members).map .object

def readElements : Nat → List Json → Option (List JsonValue)
  | _, [] => some []
  | depth, json :: rest =>
    (readValue depth json).bind fun value => (readElements depth rest).map (value :: ·)

/-- A member replaces an earlier one of its key. -/
def readMembers : Nat → List (String × JsonValue) → List (Option String × Json) →
    Option (List (String × JsonValue))
  | _, read, [] => some read
  | _, _, (none, _) :: _ => none
  | depth, read, (some key, json) :: rest =>
    (readValue depth json).bind fun value =>
      readMembers depth (JsonValue.insertMember key value read) rest

end

namespace Json

mutual

/-- Every number and every text of it can be read. -/
def readable : Json → Bool
  | .null => true
  | .bool _ => true
  | .number inRange => inRange
  | .string text => text.isSome
  | .array elements => readableElements elements
  | .object members => readableMembers members

def readableElements : List Json → Bool
  | [] => true
  | json :: rest => json.readable && readableElements rest

def readableMembers : List (Option String × Json) → Bool
  | [] => true
  | (key, json) :: rest => key.isSome && json.readable && readableMembers rest

end

mutual

/-- How deep its arrays and objects stand in one another. -/
def depth : Json → Nat
  | .null => 0
  | .bool _ => 0
  | .number _ => 0
  | .string _ => 0
  | .array elements => depthElements elements + 1
  | .object members => depthMembers members + 1

def depthElements : List Json → Nat
  | [] => 0
  | json :: rest => max json.depth (depthElements rest)

def depthMembers : List (Option String × Json) → Nat
  | [] => 0
  | (_, json) :: rest => max json.depth (depthMembers rest)

end

end Json

section Reading

variable {α β : Type*} {depth : Nat} {json : Json} {value : JsonValue}

theorem isSome_bind {x : Option α} {f : α → Option β} {b : Bool} (h : ∀ a, (f a).isSome = b) :
    (x.bind f).isSome = (x.isSome && b) := by
  cases x with
  | none => rfl
  | some a => simp [h a]

mutual

/-- What is read is what is not too deep and has no unreadable part. -/
theorem isSome_readValue (depth : Nat) (json : Json) :
    (readValue depth json).isSome = (json.readable && decide (json.depth ≤ depth)) := by
  match depth, json with
  | _, .null => simp [readValue, Json.readable, Json.depth]
  | _, .bool b => simp [readValue, Json.readable, Json.depth]
  | _, .number inRange => cases inRange <;> simp [readValue, Json.readable, Json.depth]
  | _, .string text => simp [readValue, Json.readable, Json.depth]
  | 0, .array elements => simp [readValue, Json.depth]
  | depth + 1, .array elements =>
    have helements := isSome_readElements depth elements
    simp [readValue, Json.readable, Json.depth, helements]
  | 0, .object members => simp [readValue, Json.depth]
  | depth + 1, .object members =>
    have hmembers := isSome_readMembers depth [] members
    simp [readValue, Json.readable, Json.depth, hmembers]

theorem isSome_readElements (depth : Nat) (elements : List Json) :
    (readElements depth elements).isSome =
      (Json.readableElements elements && decide (Json.depthElements elements ≤ depth)) := by
  match elements with
  | [] => simp [readElements, Json.readableElements, Json.depthElements]
  | json :: rest =>
    have hjson := isSome_readValue depth json
    have hrest := isSome_readElements depth rest
    have hmap (value : JsonValue) : ((readElements depth rest).map (value :: ·)).isSome =
        (Json.readableElements rest && decide (Json.depthElements rest ≤ depth)) := by
      rw [Option.isSome_map, hrest]
    rw [readElements, isSome_bind hmap, hjson, Json.readableElements, Json.depthElements]
    simp only [Nat.max_le, Bool.decide_and]
    ac_rfl

theorem isSome_readMembers (depth : Nat) (read : List (String × JsonValue))
    (members : List (Option String × Json)) :
    (readMembers depth read members).isSome =
      (Json.readableMembers members && decide (Json.depthMembers members ≤ depth)) := by
  match members with
  | [] => simp [readMembers, Json.readableMembers, Json.depthMembers]
  | (none, _) :: _ => simp [readMembers, Json.readableMembers]
  | (some key, json) :: rest =>
    have hjson := isSome_readValue depth json
    have hrest (value : JsonValue) :=
      isSome_readMembers depth (JsonValue.insertMember key value read) rest
    rw [readMembers, isSome_bind hrest, hjson, Json.readableMembers, Json.depthMembers]
    simp only [Nat.max_le, Bool.decide_and, Option.isSome_some, Bool.true_and]
    ac_rfl

end

/-- The text that a value is. -/
def Json.text : Json → Option String
  | .string text => text
  | _ => none

/-- A value is the text that was read, and only an object has members. -/
theorem readValue_spec (h : readValue depth json = some value) :
    value.asStr = json.text ∧
      ((∀ members, json ≠ .object members) → ∀ key, value.get key = none) := by
  cases json with
  | null => cases depth <;> (cases h; exact ⟨rfl, fun _ _ => rfl⟩)
  | bool b => cases depth <;> (cases h; exact ⟨rfl, fun _ _ => rfl⟩)
  | number inRange =>
    cases inRange with
    | true => cases depth <;> (cases h; exact ⟨rfl, fun _ _ => rfl⟩)
    | false => cases depth <;> cases h
  | string text =>
    have hvalue : text.map JsonValue.string = some value := by cases depth <;> exact h
    obtain ⟨s, rfl, rfl⟩ := Option.map_eq_some_iff.mp hvalue
    exact ⟨rfl, fun _ _ => rfl⟩
  | array elements =>
    cases depth with
    | zero => cases h
    | succ depth =>
      rw [readValue] at h
      obtain ⟨values, -, rfl⟩ := Option.map_eq_some_iff.mp h
      exact ⟨rfl, fun _ _ => rfl⟩
  | object members =>
    cases depth with
    | zero => cases h
    | succ depth =>
      rw [readValue] at h
      obtain ⟨values, -, rfl⟩ := Option.map_eq_some_iff.mp h
      exact ⟨rfl, fun hobject => (hobject members rfl).elim⟩

/-- The last member of a key. -/
def lastMember (key : String) (members : List (Option String × Json)) : Option Json :=
  members.reverse.lookup (some key)

variable {key key' : String} {members : List (Option String × Json)}
  {read values : List (String × JsonValue)}

@[simp] theorem lastMember_nil : lastMember key [] = none := rfl

theorem lastMember_cons (m : Option String × Json) (members : List (Option String × Json)) :
    lastMember key (m :: members) =
      (lastMember key members).or (if some key = m.1 then some m.2 else none) := by
  rw [lastMember, lastMember, List.reverse_cons, List.lookup_append, List.lookup_cons]
  by_cases hm : some key = m.1
  · simp [hm]
  · have hm' : (some key == m.1) = false := by simpa using hm
    rw [hm', if_neg hm]
    rfl

/-- Under a key stands the text of the last member of this key. -/
theorem text_readMembers (h : readMembers depth read members = some values) :
    (values.lookup key).bind JsonValue.asStr = match lastMember key members with
      | some json => json.text
      | none => (read.lookup key).bind JsonValue.asStr := by
  induction members generalizing read with
  | nil =>
    rw [readMembers] at h
    cases h
    rfl
  | cons m members ih =>
    obtain ⟨key', json⟩ := m
    cases key' with
    | none => cases h
    | some key' =>
      rw [readMembers] at h
      obtain ⟨value, hvalue, hrest⟩ := Option.bind_eq_some_iff.mp h
      rw [ih hrest, lastMember_cons, JsonValue.lookup_insertMember]
      cases lastMember key members with
      | some last => rfl
      | none =>
        by_cases hkey : key = key'
        · simp [hkey, (readValue_spec hvalue).1]
        · simp [hkey]

/-- The text under a key of an object that could be read. -/
theorem text_get_readValue (h : readValue depth (.object members) = some value) :
    (value.get key).bind JsonValue.asStr = (lastMember key members).bind Json.text := by
  cases depth with
  | zero => cases h
  | succ depth =>
    rw [readValue] at h
    obtain ⟨values, hvalues, rfl⟩ := Option.map_eq_some_iff.mp h
    rw [JsonValue.get, text_readMembers hvalues]
    cases lastMember key members with
    | none => rfl
    | some json => rfl

end Reading

end Shelly
