import Mathlib.Data.Option.Basic

namespace Shelly

/-- A TOML document as a tree. Its numbers and its dates are of some type `S`. -/
inductive Toml (S : Type*)
  | string (s : String)
  | boolean (b : Bool)
  | scalar (x : S)
  | array (items : List (Toml S))
  | table (entries : List (String × Toml S))

/-- The entries of a table, whose keys a parser keeps distinct. -/
abbrev TomlTable (S : Type*) := List (String × Toml S)

namespace Toml

variable {S : Type*}

/-- What stands at the end of a path of keys: nothing, a table, or a value that is none. Two trees
are equal when the same stands at the end of every path. -/
def node : List String → Toml S → Option (Option (Toml S))
  | [], .table _ => some none
  | [], value => some (some value)
  | key :: path, .table entries => (entries.lookup key).bind (node path)
  | _ :: _, _ => none

/-- The old tree, with the defaults where it has nothing. -/
def Keeps (defaults old new : Toml S) : Prop :=
  ∀ path, new.node path = (old.node path).or (defaults.node path)

/-- The old tree, with a value at one path and the defaults where it has nothing. -/
def KeepsBut (path : List String) (value : Toml S) (defaults old new : Toml S) : Prop :=
  ∀ other, new.node other =
    if other = path then some (some value) else (old.node other).or (defaults.node other)

/-- The entries that a struct with these fields does not name. -/
def without (fields : List String) (entries : TomlTable S) : TomlTable S :=
  entries.filter fun e => e.1 ∉ fields

variable {entries : TomlTable S} {fields path : List String} {key : String}
  {value defaults old new t : Toml S}

@[simp] theorem node_nil_table : (table entries).node [] = some none := rfl

@[simp] theorem node_cons_table :
    (table entries).node (key :: path) = (entries.lookup key).bind (node path) := rfl

@[simp] theorem node_nil_boolean (b : Bool) :
    (boolean b : Toml S).node [] = some (some (.boolean b)) := rfl

@[simp] theorem node_cons_boolean (b : Bool) : (boolean b : Toml S).node (key :: path) = none := rfl

@[simp] theorem node_nil_string (s : String) :
    (string s : Toml S).node [] = some (some (.string s)) := rfl

@[simp] theorem node_cons_string (s : String) : (string s : Toml S).node (key :: path) = none := rfl

theorem isSome_node_nil (t : Toml S) : (t.node []).isSome = true := by
  cases t <;> rfl

/-- A table is told from everything else. -/
theorem node_nil_eq_table (h : t.node [] = some none) : ∃ entries, t = table entries := by
  cases t with
  | table entries => exact ⟨entries, rfl⟩
  | _ => cases h

theorem lookup_without (fields : List String) (entries : TomlTable S) (key : String) :
    (without fields entries).lookup key =
      if key ∈ fields then none else entries.lookup key := by
  induction entries with
  | nil => simp [without]
  | cons e entries ih =>
    unfold without at ih ⊢
    by_cases he : e.1 ∈ fields
    · rw [List.filter_cons_of_neg (by simpa using he), ih, List.lookup_cons]
      by_cases hkey : key ∈ fields
      · rw [if_pos hkey, if_pos hkey]
      · have hne : (key == e.1) = false := by
          rw [beq_eq_false_iff_ne]
          intro heq
          exact hkey (heq ▸ he)
        rw [hne]
    · rw [List.filter_cons_of_pos (by simpa using he), List.lookup_cons, List.lookup_cons, ih]
      cases hbeq : key == e.1 with
      | true =>
        have hkey : key = e.1 := eq_of_beq hbeq
        simp [hkey, he]
      | false => rfl

/-- Two tables are compared key by key. -/
theorem keeps_table {defaults old new : TomlTable S}
    (h : ∀ key path, (new.lookup key).bind (node path) =
      ((old.lookup key).bind (node path)).or ((defaults.lookup key).bind (node path))) :
    Keeps (table defaults) (table old) (table new) := by
  intro path
  cases path with
  | nil => rfl
  | cons key path => exact h key path

/-- A tree that keeps another may be given a value at one path. -/
theorem Keeps.keepsBut {set : Toml S} (h : Keeps defaults old new)
    (hset : ∀ other, set.node other = if other = path then some (some value) else new.node other) :
    KeepsBut path value defaults old set := by
  intro other
  rw [hset other, h other]

/-- What is at another path is kept. -/
theorem KeepsBut.kept {other : List String} {x : Option (Toml S)}
    (h : KeepsBut path value defaults old new) (hne : other ≠ path)
    (hold : old.node other = some x) : new.node other = some x := by
  rw [h other, if_neg hne, hold, Option.some_or]

/-- Neither a table nor a part of one stands below this value. -/
def Leaf (t : Toml S) : Prop := ∀ key path, t.node (key :: path) = none

theorem leaf_boolean (b : Bool) : (boolean b : Toml S).Leaf := fun _ _ => rfl

theorem leaf_string (s : String) : (string s : Toml S).Leaf := fun _ _ => rfl

theorem Leaf.or_node {a b : Toml S} (ha : a.Leaf) (hb : b.Leaf) (path : List String) :
    (b.node path).or (a.node path) = b.node path := by
  cases path with
  | nil => exact Option.or_of_isSome (isSome_node_nil b)
  | cons key path => rw [hb, ha, Option.or_none]

/-- A struct with one field that is kept or takes its default, and the rest as it was. -/
theorem keeps_struct {field : String} {a b : Toml S} {rest : TomlTable S} (ha : a.Leaf)
    (hb : b.Leaf)
    (hfield : entries.lookup field = some b ∨ entries.lookup field = none ∧ b = a)
    (hrest : ∀ key, key ≠ field → rest.lookup key = entries.lookup key) :
    Keeps (table [(field, a)]) (table entries) (table ((field, b) :: rest)) := by
  refine keeps_table fun key path => ?_
  by_cases hkey : key = field
  · subst hkey
    rcases hfield with hb' | ⟨hnone, rfl⟩
    · simp [hb', ha.or_node hb]
    · simp [hnone]
  · have hne : (key == field) = false := beq_eq_false_iff_ne.mpr hkey
    simp [List.lookup_cons, hne, hrest key hkey]

/-- Two trees that differ in the one Boolean field of one table. -/
theorem node_set {name field : String} {b b' : Bool} {entries' : TomlTable S}
    (hother : ∀ key, key ≠ name → entries'.lookup key = entries.lookup key)
    (h : entries.lookup name = some (table [(field, boolean b)]))
    (h' : entries'.lookup name = some (table [(field, boolean b')])) (other : List String) :
    (table entries').node other = if other = [name, field] then some (some (boolean b')) else
      (table entries).node other := by
  rcases other with _ | ⟨key, path⟩
  · simp
  · by_cases hkey : key = name
    · subst hkey
      rcases path with _ | ⟨key', path⟩
      · simp [h, h']
      · by_cases hfield : key' = field
        · subst hfield
          cases path <;> simp [h, h']
        · have hne : (key' == field) = false := beq_eq_false_iff_ne.mpr hfield
          simp [h, h', List.lookup_cons, hne, hfield]
    · simp [hother key hkey, hkey]

end Toml
end Shelly
