import Mathlib.Data.List.TakeWhile
import Shelly.Framework.JsonText
import Shelly.Framework.Word

namespace Shelly

section Digits

theorem toDigits_head_ne_zero {n : Nat} (h : 10 ≤ n) : (Nat.toDigits 10 n).head? ≠ some '0' := by
  induction n using Nat.strong_induction_on with
  | _ n ih =>
    rw [Nat.toDigits_of_base_le (by decide) h]
    have hne : Nat.toDigits 10 (n / 10) ≠ [] := Nat.toDigits_ne_nil
    rw [List.head?_append_of_ne_nil _ hne]
    by_cases hsmall : n / 10 < 10
    · have hpos : 0 < n / 10 := by omega
      have hall : ∀ d < 10, 0 < d → some d.digitChar ≠ some '0' := by decide
      rw [Nat.toDigits_of_lt_base hsmall]
      exact hall _ hsmall hpos
    · exact ih (n / 10) (by omega) (by omega)

theorem isDigit_toDigits (n : Nat) : ∀ c ∈ Nat.toDigits 10 n, c.isDigit = true :=
  fun _ => Nat.isDigit_of_mem_toDigits (by decide) (by decide)

theorem isNumeral_toDigits (n : Nat) : isNumeral (Nat.toDigits 10 n) = true := by
  have hdigits := isDigit_toDigits n
  have hne : Nat.toDigits 10 n ≠ [] := Nat.toDigits_ne_nil
  have hsign : (Nat.toDigits 10 n).head? ≠ some '-' := by
    intro hhead
    have hdigit := hdigits '-' (List.mem_of_head? hhead)
    cases hdigit
  have htake : (Nat.toDigits 10 n).takeWhile Char.isDigit = Nat.toDigits 10 n :=
    List.takeWhile_eq_self_iff.mpr hdigits
  have hdrop : (Nat.toDigits 10 n).dropWhile Char.isDigit = [] :=
    List.dropWhile_eq_nil_iff.mpr hdigits
  have hfirst : (Nat.toDigits 10 n).head? ≠ some '0' ∨ (Nat.toDigits 10 n).length = 1 := by
    by_cases hsmall : n < 10
    · right
      rw [Nat.toDigits_of_lt_base hsmall]
      rfl
    · exact .inl (toDigits_head_ne_zero (by omega))
  simp only [isNumeral, if_neg hsign, htake, hdrop, isFraction, isExponent]
  simpa [hne] using hfirst

end Digits

def Numeral.ofNat (n : Nat) : Numeral := ⟨Nat.toDigits 10 n, isNumeral_toDigits n⟩

namespace JsonText

def ofNat (n : Nat) : JsonText := .number (.ofNat n)

section Read

variable {α : Type}

def text : JsonText → Option String
  | .string s => some s
  | _ => none

/-- An unsigned number of 64 bits. A fraction or an exponent makes it another number. -/
def u64 : JsonText → Option Nat
  | .number n =>
    if n.chars.all Char.isDigit = true ∧ Nat.ofDigitChars 10 n.chars 0 ≤ u64Max then
      some (Nat.ofDigitChars 10 n.chars 0)
    else none
  | _ => none

def nullable (read : JsonText → Option α) : JsonText → Option (Option α)
  | .null => some none
  | x => (read x).map some

def elements (read : JsonText → Option α) : JsonText → Option (List α)
  | .array xs => xs.mapM read
  | _ => none

/-- One of some names, alone or as the only key of an object without a value for it. -/
def variant (names : List (String × α)) : JsonText → Option α
  | .string s => names.lookup s
  | .object [(s, .null)] => names.lookup s
  | _ => none

/-- What is given for the fields of a record: by their names, or in their order. -/
structure Slots where
  ordered : Bool
  given : String → Option JsonText

/-- A record with these fields. None is given twice, and a strict one has no others. -/
def slots (names : List String) (strict : Bool) : JsonText → Option Slots
  | .object members =>
    if ((members.map Prod.fst).filter fun name => decide (name ∈ names)).Nodup ∧
        (strict = true → ∀ m ∈ members, m.1 ∈ names) then
      some ⟨false, fun name => members.lookup name⟩
    else none
  | .array xs =>
    if xs.length ≤ names.length then some ⟨true, fun name => xs[names.idxOf name]?⟩ else none
  | _ => none

namespace Slots

variable (s : Slots) (read : JsonText → Option α) (name : String)

def required : Option α := (s.given name).bind read

/-- A field that an object may leave out. -/
def optional : Option (Option α) :=
  match s.given name with
  | some x => nullable read x
  | none => if s.ordered then none else some none

/-- A field that may also be left out at the end of an array. -/
def defaulted : Option (Option α) :=
  match s.given name with
  | some x => nullable read x
  | none => some none

end Slots

end Read

section Written

theorem u64_ofNat {n : Nat} (h : n ≤ u64Max) : u64 (ofNat n) = some n := by
  have hdigits : (Nat.toDigits 10 n).all Char.isDigit = true :=
    List.all_eq_true.mpr (isDigit_toDigits n)
  have hvalue : Nat.ofDigitChars 10 (Nat.toDigits 10 n) 0 = n := Nat.ofDigitChars_ten_toDigits
  simp only [u64, ofNat, Numeral.ofNat, hdigits, hvalue, h, and_self, if_true]

theorem elements_map_string (texts : List String) :
    elements text (.array (texts.map .string)) = some texts := by
  induction texts with
  | nil => rfl
  | cons t texts ih =>
    simp only [elements] at ih
    simp only [elements, List.map_cons, List.mapM_cons, ih]
    rfl

/-- An object with each of the fields once is read as a record. -/
theorem slots_object {names : List String} {members : List (String × JsonText)} {strict : Bool}
    (hnames : members.map Prod.fst = names) (hnodup : names.Nodup) :
    slots names strict (.object members) = some ⟨false, fun name => members.lookup name⟩ := by
  have hmem : ∀ m ∈ members, m.1 ∈ names := fun m hm => hnames ▸ List.mem_map_of_mem hm
  have hall : (members.map Prod.fst).filter (fun name => decide (name ∈ names)) = names := by
    rw [hnames]
    exact List.filter_eq_self.mpr fun name hname => decide_eq_true hname
  rw [slots, hall, if_pos ⟨hnodup, fun _ => hmem⟩]

end Written

end JsonText

end Shelly
