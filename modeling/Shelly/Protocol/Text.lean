import Mathlib.Data.String.Basic

namespace Shelly

/-- The text after the prefix, if it starts with it. -/
def stripPrefix (start s : String) : Option String :=
  if start.toList.isPrefixOf s.toList then
    some (String.ofList (s.toList.drop start.toList.length))
  else none

theorem stripPrefix_append (start s : String) : stripPrefix start (start ++ s) = some s := by
  have hprefix : start.toList.isPrefixOf (start.toList ++ s.toList) = true :=
    List.isPrefixOf_iff_prefix.mpr (List.prefix_append _ _)
  rw [stripPrefix, String.toList_append, if_pos hprefix, List.drop_left, String.ofList_toList]

theorem stripPrefix_eq_none {start s : String} (h : ¬ start.toList <+: s.toList) :
    stripPrefix start s = none := by
  rw [stripPrefix, if_neg fun hprefix => h (List.isPrefixOf_iff_prefix.mp hprefix)]

def bytesOf (s : String) : List UInt8 := s.toUTF8.data.toList

theorem bytesOf_append (s t : String) : bytesOf (s ++ t) = bytesOf s ++ bytesOf t := by
  simp [bytesOf, String.toByteArray_append]

def isAscii (s : String) : Bool := s.toList.all (·.toNat < 128)

section Separators

variable {α : Type*} {sep : α} {a a' b b' : List α}

/-- A list is cut in one way before the first separator. -/
theorem eq_of_append_cons (ha : sep ∉ a) (ha' : sep ∉ a') (h : a ++ sep :: b = a' ++ sep :: b') :
    a = a' ∧ b = b' := by
  induction a generalizing a' with
  | nil =>
    cases a' with
    | nil => exact ⟨rfl, (List.cons.inj h).2⟩
    | cons x a' =>
      obtain rfl := (List.cons.inj h).1
      exact (ha' List.mem_cons_self).elim
  | cons x a ih =>
    cases a' with
    | nil =>
      obtain rfl := (List.cons.inj h).1
      exact (ha List.mem_cons_self).elim
    | cons x' a' =>
      obtain ⟨rfl, hrest⟩ := List.cons.inj h
      obtain ⟨rfl, hb⟩ := ih (fun hm => ha (List.mem_cons_of_mem x hm))
        (fun hm => ha' (List.mem_cons_of_mem x hm)) hrest
      exact ⟨rfl, hb⟩

/-- A list is cut in one way behind the last separator. -/
theorem eq_of_append_cons_last (hb : sep ∉ b) (hb' : sep ∉ b')
    (h : a ++ sep :: b = a' ++ sep :: b') : a = a' ∧ b = b' := by
  have hreverse := congrArg List.reverse h
  simp only [List.reverse_append, List.reverse_cons, List.append_assoc,
    List.singleton_append] at hreverse
  have hcut := eq_of_append_cons (fun hm => hb (List.mem_reverse.mp hm))
    (fun hm => hb' (List.mem_reverse.mp hm)) hreverse
  exact ⟨List.reverse_inj.mp hcut.2, List.reverse_inj.mp hcut.1⟩

/-- A list is cut in one way at any separator, if a longer first part never has another
second part. -/
theorem eq_of_append_cons_of_extends (hb : ∀ x, a' = a ++ x → b = b')
    (hb' : ∀ x, a = a' ++ x → b' = b) (h : a ++ sep :: b = a' ++ sep :: b') : a = a' ∧ b = b' := by
  rcases List.append_eq_append_iff.mp h with ⟨x, ha, hrest⟩ | ⟨x, ha, hrest⟩
  · obtain rfl := hb x ha
    have hlength := congrArg List.length hrest
    rw [List.length_append] at hlength
    obtain rfl := List.eq_nil_of_length_eq_zero (show x.length = 0 by omega)
    exact ⟨(ha.trans (List.append_nil a)).symm, rfl⟩
  · obtain rfl := hb' x ha
    have hlength := congrArg List.length hrest
    rw [List.length_append] at hlength
    obtain rfl := List.eq_nil_of_length_eq_zero (show x.length = 0 by omega)
    exact ⟨ha.trans (List.append_nil a'), rfl⟩

end Separators

/-- The decimal digits of a number. -/
theorem isDigit_of_mem_toString {n : Nat} {c : Char} (h : c ∈ (toString n).toList) :
    c.isDigit = true := by
  rw [Nat.toString_eq_repr, Nat.toList_repr] at h
  exact Nat.isDigit_of_mem_toDigits (by decide) (by decide) h

theorem toString_nat_inj {n m : Nat} (h : (toString n).toList = (toString m).toList) : n = m := by
  rw [Nat.toString_eq_repr, Nat.toString_eq_repr, Nat.toList_repr, Nat.toList_repr] at h
  have hn := Nat.ofDigitChars_ten_toDigits (n := n)
  rwa [h, Nat.ofDigitChars_ten_toDigits, eq_comm] at hn

/-- A character has at most four bytes. -/
theorem utf8ByteSize_le (s : String) : s.utf8ByteSize ≤ 4 * s.toList.length := by
  rw [← String.utf8Len_toList]
  induction s.toList with
  | nil => simp
  | cons c cs ih =>
    have hc := c.utf8Size_le_four
    simp only [String.utf8Len_cons, List.length_cons]
    omega

/-- The length in bytes lies within the bounds. -/
def lengthWithin (lo hi : Nat) (s : String) : Bool :=
  decide (lo ≤ s.utf8ByteSize) && decide (s.utf8ByteSize ≤ hi)

/-- The characters with the Unicode property White_Space. -/
def isWhitespace (c : Char) : Bool :=
  let n := c.toNat
  (9 ≤ n && n ≤ 13) || n = 0x20 || n = 0x85 || n = 0xA0 || n = 0x1680 ||
    (0x2000 ≤ n && n ≤ 0x200A) || n = 0x2028 || n = 0x2029 || n = 0x202F || n = 0x205F || n = 0x3000

/-- The characters of the general category Cc. -/
def isControl (c : Char) : Bool :=
  let n := c.toNat
  n ≤ 0x1F || (0x7F ≤ n && n ≤ 0x9F)

def trim (s : String) : String :=
  String.ofList ((s.toList.dropWhile isWhitespace).reverse.dropWhile isWhitespace).reverse

def codeAlphabet : String := "0123456789ABCDEFGHJKMNPQRSTVWXYZ"

/-- Drops spaces and dashes, and reads the letters that look like digits as digits. -/
def normalizeCode (input : String) : String :=
  String.ofList <| (input.toList.filter fun c => !isWhitespace c && c != '-').map fun c =>
    match c.toUpper with
    | 'I' | 'L' => '1'
    | 'O' => '0'
    | other => other

end Shelly
