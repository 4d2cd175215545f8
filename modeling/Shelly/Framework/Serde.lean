import Mathlib.Data.Finmap
import Mathlib.Data.List.FinRange

namespace Shelly.Serde

mutual

/-- What a derived serializer tells a format about a type. -/
inductive Shape
  | bool | u8 | u16 | u32 | u64 | i32 | str
  | bytes (n : Nat)
  | option (s : Shape)
  | seq (s : Shape)
  | map
  | struct (fs : Fields)
  | enum (n : Nat) (name : Fin n → String) (payload : Fin n → Fields)

/-- The fields of a record or of a variant, in their order. A missing field may be
given its default value. A variant without fields is a unit variant. -/
inductive Fields
  | nil
  | field (name : String) (defaulted : Bool) (s : Shape) (rest : Fields)

end

/-- Fields without a default value. -/
def fields : List (String × Shape) → Fields
  | [] => .nil
  | (name, s) :: rest => .field name false s (fields rest)

/-- A hash map from texts to texts. -/
abbrev TextMap := Finmap fun _ : String => String

mutual

/-- The values of a shape. -/
def Shape.Val : Shape → Type
  | .bool => Bool
  | .u8 => UInt8
  | .u16 => UInt16
  | .u32 => UInt32
  | .u64 => UInt64
  | .i32 => Int32
  | .str => String
  | .bytes n => Vector UInt8 n
  | .option s => Option s.Val
  | .seq s => List s.Val
  | .map => TextMap
  | .struct fs => fs.Val
  | .enum n _ payload => Σ i : Fin n, (payload i).Val

def Fields.Val : Fields → Type
  | .nil => Unit
  | .field _ _ s rest => s.Val × rest.Val

end

namespace Fields

def names : Fields → List String
  | nil => []
  | field name _ _ rest => name :: rest.names

def isNil : Fields → Bool
  | nil => true
  | field .. => false

/-- The value of a unit variant. -/
def unit? : (fs : Fields) → Option fs.Val
  | nil => some ()
  | field .. => none

theorem unit?_eq_some {fs : Fields} (h : fs.isNil = true) (v : fs.Val) : fs.unit? = some v := by
  cases fs with
  | nil => rfl
  | field => cases h

end Fields

def Shape.isOption : Shape → Bool
  | .option _ => true
  | _ => false

mutual

/-- The names of a record or of an enumeration differ, and an optional value is not
optional again. -/
def Shape.wellFormed : Shape → Bool
  | .option s => !s.isOption && s.wellFormed
  | .seq s => s.wellFormed
  | .struct fs => decide fs.names.Nodup && fs.wellFormed
  | .enum n name payload => decide (n ≤ 2 ^ 32) && decide (List.ofFn name).Nodup &&
      (List.finRange n).all fun i => decide (payload i).names.Nodup && (payload i).wellFormed
  | _ => true

def Fields.wellFormed : Fields → Bool
  | .nil => true
  | .field _ _ s rest => s.wellFormed && rest.wellFormed

end

theorem wellFormed_struct {fs : Fields} :
    (Shape.struct fs).wellFormed = true ↔ fs.names.Nodup ∧ fs.wellFormed = true := by
  simp [Shape.wellFormed]

theorem wellFormed_enum {n : Nat} {name : Fin n → String} {payload : Fin n → Fields} :
    (Shape.enum n name payload).wellFormed = true ↔ n ≤ 2 ^ 32 ∧ Function.Injective name ∧
      ∀ i, (payload i).names.Nodup ∧ (payload i).wellFormed = true := by
  simp [Shape.wellFormed, List.nodup_ofFn, and_assoc]

/-- The order in which hash maps are walked. -/
structure HashOrder where
  walk : TextMap → AList fun _ : String => String
  toFinmap_walk : ∀ m, (walk m).toFinmap = m

instance : Nonempty HashOrder := by
  have hwalk : ∀ m : TextMap, ∃ l : AList fun _ : String => String, l.toFinmap = m :=
    fun m => Finmap.induction_on m fun l => ⟨l, rfl⟩
  choose walk hwalk using hwalk
  exact ⟨⟨walk, hwalk⟩⟩

namespace HashOrder

def entries (order : HashOrder) (m : TextMap) : List (String × String) :=
  (order.walk m).entries.map fun e => (e.1, e.2)

end HashOrder

/-- A map from entries that are inserted one after the other. -/
def collect (entries : List (String × String)) : TextMap :=
  entries.foldl (fun m e => m.insert e.1 e.2) ∅

mutual

/-- All lengths, those of names included, are below the bound. -/
def Shape.Fits (order : HashOrder) (bound : Nat) : (s : Shape) → s.Val → Prop
  | .bool, _ | .u8, _ | .u16, _ | .u32, _ | .u64, _ | .i32, _ => True
  | .str, (v : String) => v.utf8ByteSize < bound
  | .bytes n, _ => n < bound
  | .option s, (v : Option s.Val) => ∀ a ∈ v, s.Fits order bound a
  | .seq s, (v : List s.Val) => v.length < bound ∧ ∀ a ∈ v, s.Fits order bound a
  | .map, (v : TextMap) => (order.entries v).length < bound ∧
      ∀ e ∈ order.entries v, e.1.utf8ByteSize < bound ∧ e.2.utf8ByteSize < bound
  | .struct fs, v => fs.names.length < bound ∧ fs.Fits order bound v
  | .enum _ name payload, v => (name v.1).utf8ByteSize < bound ∧
      (payload v.1).names.length < bound ∧ (payload v.1).Fits order bound v.2

def Fields.Fits (order : HashOrder) (bound : Nat) : (fs : Fields) → fs.Val → Prop
  | .nil, _ => True
  | .field name _ s rest, v =>
      name.utf8ByteSize < bound ∧ s.Fits order bound v.1 ∧ rest.Fits order bound v.2

end

private theorem lookup_foldl_insert (entries : List (Sigma fun _ : String => String))
    (hnodup : entries.NodupKeys) (m : TextMap) (k : String) :
    (entries.foldl (fun m e => m.insert e.1 e.2) m).lookup k =
      (entries.dlookup k).or (m.lookup k) := by
  induction entries generalizing m with
  | nil => rfl
  | cons e entries ih =>
    obtain ⟨hnotin, hnodup⟩ := List.nodupKeys_cons.mp hnodup
    rw [List.foldl_cons, ih hnodup]
    by_cases hk : k = e.1
    · subst hk
      have hnone : entries.dlookup e.1 = none := List.dlookup_eq_none.mpr hnotin
      rw [hnone, Option.none_or, Finmap.lookup_insert, List.dlookup_cons_eq, Option.some_or]
    · rw [Finmap.lookup_insert_of_ne _ hk, List.dlookup_cons_ne _ _ hk]

/-- A type with a derived serializer and deserializer. -/
class Derived (α : Type) where
  shape : Shape
  wellFormed : shape.wellFormed = true
  toVal : α → shape.Val
  ofVal : shape.Val → α
  ofVal_toVal : ∀ a, ofVal (toVal a) = a

attribute [simp] Derived.ofVal_toVal

@[simp] theorem Derived.ofVal_comp_toVal {α : Type} [Derived α] :
    (Derived.ofVal ∘ Derived.toVal : α → α) = id := funext Derived.ofVal_toVal

/-- The entries of a map, inserted in any order, give the map. -/
theorem collect_entries (order : HashOrder) (m : TextMap) : collect (order.entries m) = m := by
  apply Finmap.ext_lookup
  intro k
  rw [collect, HashOrder.entries, List.foldl_map, lookup_foldl_insert _ (order.walk m).nodupKeys,
    Finmap.lookup_empty, Option.or_none]
  exact congrArg (Finmap.lookup k) (order.toFinmap_walk m)

end Shelly.Serde
