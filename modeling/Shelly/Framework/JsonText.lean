import Shelly.Framework.Codec

namespace Shelly

def isExponent : List Char → Bool
  | [] => true
  | c :: cs =>
    let digits := if cs.head? = some '+' ∨ cs.head? = some '-' then cs.tail else cs
    (c = 'e' || c = 'E') && !digits.isEmpty && digits.all Char.isDigit

def isFraction : List Char → Bool
  | '.' :: cs => !(cs.takeWhile Char.isDigit).isEmpty && isExponent (cs.dropWhile Char.isDigit)
  | cs => isExponent cs

/-- A number as JSON writes it. -/
def isNumeral (cs : List Char) : Bool :=
  let unsigned := if cs.head? = some '-' then cs.tail else cs
  let integer := unsigned.takeWhile Char.isDigit
  !integer.isEmpty && (integer.head? ≠ some '0' || integer.length = 1) &&
    isFraction (unsigned.dropWhile Char.isDigit)

structure Numeral where
  chars : List Char
  numeral : isNumeral chars = true
  deriving DecidableEq

/-- A text of JSON: what it says, without the spaces between its parts. -/
inductive JsonText
  | null
  | bool (b : Bool)
  | number (n : Numeral)
  | string (text : String)
  | array (elements : List JsonText)
  | object (members : List (String × JsonText))

namespace JsonText

section Write

def hexDigit (n : Nat) : Char := "0123456789abcdef".toList.getD n '0'

/-- A character between quotation marks. -/
def escape (c : Char) : List Char :=
  if c = '\x22' then ['\\', '\x22']
  else if c = '\\' then ['\\', '\\']
  else if c = '\x08' then ['\\', 'b']
  else if c = '\t' then ['\\', 't']
  else if c = '\n' then ['\\', 'n']
  else if c = '\x0c' then ['\\', 'f']
  else if c = '\r' then ['\\', 'r']
  else if c.toNat < 0x20 then
    ['\\', 'u', '0', '0', hexDigit (c.toNat / 16), hexDigit (c.toNat % 16)]
  else [c]

def writeString (text : String) : List Char :=
  '\x22' :: (text.toList.flatMap escape ++ ['\x22'])

mutual

/-- The compact text, without any spaces. -/
def write : JsonText → List Char
  | null => "null".toList
  | bool true => "true".toList
  | bool false => "false".toList
  | number n => n.chars
  | string text => writeString text
  | array [] => ['[', ']']
  | array (x :: xs) => '[' :: (x.write ++ writeElements xs)
  | object [] => ['\x7b', '\x7d']
  | object ((key, x) :: members) =>
    '\x7b' :: (writeString key ++ ':' :: (x.write ++ writeMembers members))

def writeElements : List JsonText → List Char
  | [] => [']']
  | x :: xs => ',' :: (x.write ++ writeElements xs)

def writeMembers : List (String × JsonText) → List Char
  | [] => ['\x7d']
  | (key, x) :: members => ',' :: (writeString key ++ ':' :: (x.write ++ writeMembers members))

end

end Write

section Parse

def isSpace (c : Char) : Bool := c = ' ' || c = '\t' || c = '\n' || c = '\r'

def skipSpace (cs : List Char) : List Char := cs.dropWhile isSpace

def hexValue (c : Char) : Option Nat :=
  if '0' ≤ c ∧ c ≤ '9' then some (c.toNat - '0'.toNat)
  else if 'a' ≤ c ∧ c ≤ 'f' then some (c.toNat - 'a'.toNat + 10)
  else if 'A' ≤ c ∧ c ≤ 'F' then some (c.toNat - 'A'.toNat + 10)
  else none

def readHex : List Char → Option (Nat × List Char)
  | a :: b :: c :: d :: cs =>
    (hexValue a).bind fun a => (hexValue b).bind fun b => (hexValue c).bind fun c =>
      (hexValue d).map fun d => (((a * 16 + b) * 16 + c) * 16 + d, cs)
  | _ => none

/-- A character by its number, or by two halves of a pair. -/
def readUnicode (cs : List Char) : Option (Char × List Char) :=
  (readHex cs).bind fun (n, cs) =>
    if 0xDC00 ≤ n ∧ n ≤ 0xDFFF then none
    else if 0xD800 ≤ n ∧ n ≤ 0xDBFF then
      match cs with
      | '\\' :: 'u' :: cs =>
        (readHex cs).bind fun (m, cs) =>
          if 0xDC00 ≤ m ∧ m ≤ 0xDFFF then
            some (Char.ofNat (0x10000 + (n - 0xD800) * 0x400 + (m - 0xDC00)), cs)
          else none
      | _ => none
    else some (Char.ofNat n, cs)

/-- What stands behind a backslash. -/
def readEscape : List Char → Option (Char × List Char)
  | [] => none
  | c :: cs =>
    if c = '\x22' then some ('\x22', cs)
    else if c = '\\' then some ('\\', cs)
    else if c = '/' then some ('/', cs)
    else if c = 'b' then some ('\x08', cs)
    else if c = 'f' then some ('\x0c', cs)
    else if c = 'n' then some ('\n', cs)
    else if c = 'r' then some ('\r', cs)
    else if c = 't' then some ('\t', cs)
    else if c = 'u' then readUnicode cs
    else none

/-- The characters up to the closing quotation mark. -/
def readChars : Nat → List Char → Option (List Char × List Char)
  | 0, _ => none
  | _ + 1, [] => none
  | fuel + 1, c :: cs =>
    if c = '\x22' then some ([], cs)
    else if c = '\\' then
      (readEscape cs).bind fun (c, cs) =>
        (readChars fuel cs).map fun (text, cs) => (c :: text, cs)
    else if c.toNat < 0x20 then none
    else (readChars fuel cs).map fun (text, cs) => (c :: text, cs)

def isNumeralChar (c : Char) : Bool :=
  c.isDigit || c = '-' || c = '+' || c = '.' || c = 'e' || c = 'E'

def readNumber (cs : List Char) : Option (JsonText × List Char) :=
  if h : isNumeral (cs.takeWhile isNumeralChar) = true then
    some (.number ⟨_, h⟩, cs.dropWhile isNumeralChar)
  else none

/-- The rest of a word. -/
def expect (word : String) (x : JsonText) (cs : List Char) : Option (JsonText × List Char) :=
  if word.toList.isPrefixOf cs then some (x, cs.drop word.toList.length) else none

mutual

/-- One value, in so many arrays and objects that may still be opened, and what follows it. -/
def parseValue : Nat → Nat → List Char → Option (JsonText × List Char)
  | 0, _, _ => none
  | fuel + 1, depth, cs =>
    match skipSpace cs with
    | [] => none
    | c :: cs =>
      if c = '\x22' then
        (readChars fuel cs).map fun (text, cs) => (.string (String.ofList text), cs)
      else if c = '[' then
        if depth = 0 then none
        else if (skipSpace cs).head? = some ']' then some (.array [], (skipSpace cs).tail)
        else (parseElements fuel (depth - 1) cs).map fun (xs, cs) => (.array xs, cs)
      else if c = '\x7b' then
        if depth = 0 then none
        else if (skipSpace cs).head? = some '\x7d' then some (.object [], (skipSpace cs).tail)
        else (parseMembers fuel (depth - 1) cs).map fun (members, cs) => (.object members, cs)
      else if c = 'n' then expect "ull" .null cs
      else if c = 't' then expect "rue" (.bool true) cs
      else if c = 'f' then expect "alse" (.bool false) cs
      else readNumber (c :: cs)

/-- The elements of an array that is not empty. -/
def parseElements : Nat → Nat → List Char → Option (List JsonText × List Char)
  | 0, _, _ => none
  | fuel + 1, depth, cs =>
    (parseValue fuel depth cs).bind fun (x, cs) =>
      match skipSpace cs with
      | ']' :: cs => some ([x], cs)
      | ',' :: cs => (parseElements fuel depth cs).map fun (xs, cs) => (x :: xs, cs)
      | _ => none

/-- The members of an object that is not empty. -/
def parseMembers : Nat → Nat → List Char → Option (List (String × JsonText) × List Char)
  | 0, _, _ => none
  | fuel + 1, depth, cs =>
    match skipSpace cs with
    | '\x22' :: cs =>
      (readChars fuel cs).bind fun (key, cs) =>
        match skipSpace cs with
        | ':' :: cs =>
          (parseValue fuel depth cs).bind fun (x, cs) =>
            match skipSpace cs with
            | '\x7d' :: cs => some ([(String.ofList key, x)], cs)
            | ',' :: cs =>
              (parseMembers fuel depth cs).map fun (members, cs) =>
                ((String.ofList key, x) :: members, cs)
            | _ => none
        | _ => none
    | _ => none

end

/-- How many arrays and objects may stand in one another. -/
def maxDepth : Nat := 127

/-- A text with nothing but spaces around it. -/
def parse (cs : List Char) : Option JsonText :=
  (parseValue (cs.length + 1) maxDepth cs).bind fun (x, cs) =>
    if (skipSpace cs).isEmpty then some x else none

def toVec (x : JsonText) : List UInt8 := utf8Bytes (String.ofList x.write)

def fromSlice (bytes : List UInt8) : Option JsonText :=
  (textOfUtf8 bytes).bind fun text => parse text.toList

end Parse

section Characters

theorem hexValue_hexDigit {n : Nat} (h : n < 16) : hexValue (hexDigit n) = some n := by
  have hall : ∀ n < 16, hexValue (hexDigit n) = some n := by decide
  exact hall n h

/-- What is written between quotation marks for one character is read as it. -/
theorem readChars_escape (c : Char) (fuel : Nat) (rest : List Char) :
    readChars (fuel + 1) (escape c ++ rest) =
      (readChars fuel rest).map fun (text, cs) => (c :: text, cs) := by
  unfold escape
  split_ifs with hquote hslash hb ht hn hf hr hcontrol
  · subst hquote
    rfl
  · subst hslash
    rfl
  · subst hb
    rfl
  · subst ht
    rfl
  · subst hn
    rfl
  · subst hf
    rfl
  · subst hr
    rfl
  · have hhigh := hexValue_hexDigit (n := c.toNat / 16) (by omega)
    have hlow := hexValue_hexDigit (n := c.toNat % 16) (by omega)
    have hzero : hexValue '0' = some 0 := by decide
    have hread : readEscape ('u' :: '0' :: '0' :: hexDigit (c.toNat / 16) ::
        hexDigit (c.toNat % 16) :: rest) = some (c, rest) := by
      have hchar : ((0 * 16 + 0) * 16 + c.toNat / 16) * 16 + c.toNat % 16 = c.toNat := by omega
      have hlone : ¬ (0xDC00 ≤ c.toNat ∧ c.toNat ≤ 0xDFFF) := by omega
      have hpair : ¬ (0xD800 ≤ c.toNat ∧ c.toNat ≤ 0xDBFF) := by omega
      have hunicode : readUnicode ('0' :: '0' :: hexDigit (c.toNat / 16) ::
          hexDigit (c.toNat % 16) :: rest) = some (c, rest) := by
        simp only [readUnicode, readHex, hzero, hhigh, hlow, Option.bind_some, Option.map_some,
          hchar, if_neg hlone, if_neg hpair, Char.ofNat_toNat]
      rw [readEscape]
      exact hunicode
    simp only [List.cons_append, List.nil_append]
    rw [readChars]
    exact congrArg (Option.bind · _) hread
  · rw [List.singleton_append, readChars, if_neg hquote, if_neg hslash, if_neg hcontrol]

theorem readChars_flatMap (text : List Char) {fuel : Nat} (rest : List Char)
    (h : text.length < fuel) :
    readChars fuel (text.flatMap escape ++ '\x22' :: rest) = some (text, rest) := by
  induction text generalizing fuel with
  | nil =>
    obtain ⟨fuel, rfl⟩ := Nat.exists_eq_succ_of_ne_zero (Nat.ne_of_gt h)
    rfl
  | cons c text ih =>
    obtain ⟨fuel, rfl⟩ := Nat.exists_eq_succ_of_ne_zero (Nat.ne_of_gt (Nat.zero_lt_of_lt h))
    rw [List.length_cons] at h
    rw [List.flatMap_cons, List.append_assoc, readChars_escape, ih (by omega)]
    rfl

theorem escape_ne_nil (c : Char) : escape c ≠ [] := by
  unfold escape
  split_ifs <;> exact List.cons_ne_nil _ _

theorem length_le_flatMap_escape (text : List Char) :
    text.length ≤ (text.flatMap escape).length := by
  induction text with
  | nil => exact Nat.le_refl _
  | cons c text ih =>
    have hpos := List.length_pos_iff.mpr (escape_ne_nil c)
    rw [List.flatMap_cons, List.length_append, List.length_cons]
    omega

end Characters

section Numbers

theorem isNumeralChar_of_isDigit {c : Char} (h : c.isDigit = true) : isNumeralChar c = true := by
  simp [isNumeralChar, h]

theorem isNumeralChar_of_isExponent {cs : List Char} (h : isExponent cs = true) :
    ∀ c ∈ cs, isNumeralChar c = true := by
  cases cs with
  | nil => exact fun _ hc => absurd hc List.not_mem_nil
  | cons e cs =>
    simp only [isExponent, Bool.and_eq_true, Bool.or_eq_true, decide_eq_true_eq] at h
    obtain ⟨⟨hletter, -⟩, hdigits⟩ := h
    intro c hc
    rcases List.mem_cons.mp hc with rfl | hc
    · rcases hletter with rfl | rfl <;> decide
    · split_ifs at hdigits with hsign
      · cases cs with
        | nil => cases hc
        | cons sign cs =>
          rcases List.mem_cons.mp hc with rfl | hc
          · simp only [List.head?_cons, Option.some.injEq] at hsign
            rcases hsign with rfl | rfl <;> decide
          · exact isNumeralChar_of_isDigit (List.all_eq_true.mp hdigits c hc)
      · exact isNumeralChar_of_isDigit (List.all_eq_true.mp hdigits c hc)

theorem isNumeralChar_of_takeWhile {cs : List Char}
    (h : ∀ c ∈ cs.dropWhile Char.isDigit, isNumeralChar c = true) :
    ∀ c ∈ cs, isNumeralChar c = true := by
  intro c hc
  rw [← List.takeWhile_append_dropWhile (p := Char.isDigit) (l := cs), List.mem_append] at hc
  rcases hc with hc | hc
  · exact isNumeralChar_of_isDigit (List.all_eq_true.mp List.all_takeWhile c hc)
  · exact h c hc

theorem isNumeralChar_of_isFraction {cs : List Char} (h : isFraction cs = true) :
    ∀ c ∈ cs, isNumeralChar c = true := by
  unfold isFraction at h
  split at h
  · obtain ⟨-, hexponent⟩ := Bool.and_eq_true_iff.mp h
    have hrest := isNumeralChar_of_takeWhile (isNumeralChar_of_isExponent hexponent)
    exact List.forall_mem_cons.mpr ⟨by decide, hrest⟩
  · exact isNumeralChar_of_isExponent h

theorem isNumeralChar_of_mem (n : Numeral) : ∀ c ∈ n.chars, isNumeralChar c = true := by
  obtain ⟨cs, h⟩ := n
  simp only [isNumeral, Bool.and_eq_true] at h
  obtain ⟨-, hfraction⟩ := h
  have hunsigned := isNumeralChar_of_takeWhile (isNumeralChar_of_isFraction hfraction)
  intro c hc
  split_ifs at hunsigned with hsign
  · cases cs with
    | nil => cases hc
    | cons sign cs =>
      rcases List.mem_cons.mp hc with rfl | hc
      · obtain rfl := Option.some.inj hsign
        decide
      · exact hunsigned c hc
  · exact hunsigned c hc

theorem numeral_ne_nil (n : Numeral) : n.chars ≠ [] := by
  intro hnil
  have h := n.numeral
  rw [hnil] at h
  cases h

/-- What follows a number does not go on with it. -/
def Stops (rest : List Char) : Prop := ∀ c ∈ rest.head?, JsonText.isNumeralChar c = false

theorem takeWhile_numeral (n : Numeral) {rest : List Char} (h : Stops rest) :
    (n.chars ++ rest).takeWhile JsonText.isNumeralChar = n.chars ∧
      (n.chars ++ rest).dropWhile JsonText.isNumeralChar = rest := by
  have hrest : rest.takeWhile JsonText.isNumeralChar = [] ∧
      rest.dropWhile JsonText.isNumeralChar = rest := by
    cases rest with
    | nil => exact ⟨rfl, rfl⟩
    | cons c rest =>
      have hstop := h c rfl
      exact ⟨List.takeWhile_cons_of_neg (by simp [hstop]),
        List.dropWhile_cons_of_neg (by simp [hstop])⟩
  constructor
  · rw [List.takeWhile_append_of_pos (isNumeralChar_of_mem n), hrest.1, List.append_nil]
  · rw [List.dropWhile_append_of_pos (isNumeralChar_of_mem n), hrest.2]

theorem readNumber_numeral (n : Numeral) {rest : List Char} (h : Stops rest) :
    readNumber (n.chars ++ rest) = some (.number n, rest) := by
  obtain ⟨htake, hdrop⟩ := takeWhile_numeral n h
  simp only [readNumber, htake, hdrop, n.numeral, dif_pos]

end Numbers

section RoundTrip

mutual

/-- How deep its arrays and objects stand in one another. -/
def depth : JsonText → Nat
  | null | bool _ | number _ | string _ => 0
  | array xs => depthElements xs + 1
  | object members => depthMembers members + 1

def depthElements : List JsonText → Nat
  | [] => 0
  | x :: xs => max x.depth (depthElements xs)

def depthMembers : List (String × JsonText) → Nat
  | [] => 0
  | (_, x) :: members => max x.depth (depthMembers members)

end

/-- How a value can begin: not with a space, and not as an array ends. -/
def Begins (cs : List Char) : Prop :=
  ∃ c rest, cs = c :: rest ∧ isSpace c = false ∧ c ≠ ']'

theorem Begins.append {cs : List Char} (h : Begins cs) (rest : List Char) :
    Begins (cs ++ rest) := by
  obtain ⟨c, cs, rfl, hspace, hend⟩ := h
  exact ⟨c, cs ++ rest, rfl, hspace, hend⟩

theorem Begins.skipSpace {cs : List Char} (h : Begins cs) : skipSpace cs = cs := by
  obtain ⟨c, cs, rfl, hspace, -⟩ := h
  exact List.dropWhile_cons_of_neg (by simp [hspace])

theorem Begins.head_ne {cs : List Char} (h : Begins cs) : cs.head? ≠ some ']' := by
  obtain ⟨c, cs, rfl, -, hend⟩ := h
  simpa using hend

theorem Begins.length_pos {cs : List Char} (h : Begins cs) : 0 < cs.length := by
  obtain ⟨c, cs, rfl, -, -⟩ := h
  exact Nat.succ_pos _

/-- The first character of a number is that of no other value. -/
theorem numeralChar_ne {c : Char} (h : isNumeralChar c = true) :
    isSpace c = false ∧ c ≠ ']' ∧ c ≠ '\x22' ∧ c ≠ '[' ∧ c ≠ '\x7b' ∧ c ≠ 'n' ∧ c ≠ 't' ∧
      c ≠ 'f' := by
  refine ⟨?_, ?_, ?_, ?_, ?_, ?_, ?_, ?_⟩
  · by_contra hspace
    simp only [isSpace, Bool.not_eq_false, Bool.or_eq_true, decide_eq_true_eq] at hspace
    rcases hspace with ((rfl | rfl) | rfl) | rfl <;> cases h
  all_goals
    rintro rfl
    cases h

theorem begins_write (x : JsonText) : Begins x.write := by
  cases x with
  | null => exact ⟨'n', _, rfl, by decide, by decide⟩
  | bool b => cases b with
    | false => exact ⟨'f', _, rfl, by decide, by decide⟩
    | true => exact ⟨'t', _, rfl, by decide, by decide⟩
  | number n =>
    obtain ⟨c, cs, hcs⟩ := List.exists_cons_of_ne_nil (numeral_ne_nil n)
    obtain ⟨hspace, hend, -⟩ := numeralChar_ne (isNumeralChar_of_mem n c (by simp [hcs]))
    exact ⟨c, cs, by rw [write, hcs], hspace, hend⟩
  | string text => exact ⟨'\x22', _, rfl, by decide, by decide⟩
  | array xs => cases xs with
    | nil => exact ⟨'[', _, rfl, by decide, by decide⟩
    | cons x xs => exact ⟨'[', _, rfl, by decide, by decide⟩
  | object members => cases members with
    | nil => exact ⟨'\x7b', _, rfl, by decide, by decide⟩
    | cons m members => exact ⟨'\x7b', _, rfl, by decide, by decide⟩

theorem stops_writeElements (xs : List JsonText) (rest : List Char) :
    Stops (writeElements xs ++ rest) := by
  cases xs with
  | nil =>
    rintro c ⟨⟩
    decide
  | cons x xs =>
    rintro c ⟨⟩
    decide

theorem stops_writeMembers (members : List (String × JsonText)) (rest : List Char) :
    Stops (writeMembers members ++ rest) := by
  cases members with
  | nil =>
    rintro c ⟨⟩
    decide
  | cons m members =>
    rintro c ⟨⟩
    decide

theorem parseValue_number (n : Numeral) {fuel depth : Nat} {rest : List Char}
    (h : Stops rest) : parseValue (fuel + 1) depth (n.chars ++ rest) = some (.number n, rest) := by
  have hread := readNumber_numeral n h
  obtain ⟨c, cs, hcs⟩ := List.exists_cons_of_ne_nil (numeral_ne_nil n)
  obtain ⟨hspace, -, hquote, harray, hobject, hn, ht, hf⟩ :=
    numeralChar_ne (isNumeralChar_of_mem n c (by simp [hcs]))
  rw [hcs, List.cons_append] at hread ⊢
  have hskip : skipSpace (c :: (cs ++ rest)) = c :: (cs ++ rest) :=
    List.dropWhile_cons_of_neg (by simp [hspace])
  simp only [parseValue, hskip, if_neg hquote, if_neg harray, if_neg hobject, if_neg hn, if_neg ht,
    if_neg hf]
  exact hread

theorem parseValue_string (text : String) {fuel depth : Nat} (rest : List Char)
    (h : (writeString text).length ≤ fuel + 1) :
    parseValue (fuel + 1) depth (writeString text ++ rest) = some (.string text, rest) := by
  have hlong := length_le_flatMap_escape text.toList
  simp only [writeString, List.length_cons, List.length_append, List.length_nil] at h
  have hread : readChars fuel (text.toList.flatMap escape ++ '\x22' :: rest) =
      some (text.toList, rest) := readChars_flatMap text.toList rest (by omega)
  have hskip : skipSpace ('\x22' :: (text.toList.flatMap escape ++ '\x22' :: rest)) =
      '\x22' :: (text.toList.flatMap escape ++ '\x22' :: rest) := rfl
  simp only [writeString, List.cons_append, List.append_assoc, List.nil_append, parseValue, hskip,
    if_pos, hread, Option.map_some, String.ofList_toList]

/-- An array that is opened and does not end at once. -/
theorem parseValue_array {fuel depth : Nat} {cs : List Char} (h : Begins cs) :
    parseValue (fuel + 1) (depth + 1) ('[' :: cs) =
      (parseElements fuel depth cs).map fun (xs, cs) => (.array xs, cs) := by
  have hopen : skipSpace ('[' :: cs) = '[' :: cs := rfl
  have hquote : ('[' : Char) ≠ '\x22' := by decide
  have hnext : ¬ (skipSpace cs).head? = some ']' := by
    rw [h.skipSpace]
    exact h.head_ne
  simp only [parseValue, hopen, if_neg hquote, if_pos, Nat.add_one_ne_zero, if_false,
    if_neg hnext, Nat.add_sub_cancel]

theorem parseValue_object (fuel depth : Nat) (cs : List Char) :
    parseValue (fuel + 1) (depth + 1) ('\x7b' :: '\x22' :: cs) =
      (parseMembers fuel depth ('\x22' :: cs)).map fun (members, cs) => (.object members, cs) := by
  have hopen : skipSpace ('\x7b' :: '\x22' :: cs) = '\x7b' :: '\x22' :: cs := rfl
  have hquote : ('\x7b' : Char) ≠ '\x22' := by decide
  have harray : ('\x7b' : Char) ≠ '[' := by decide
  have hnext : ¬ (skipSpace ('\x22' :: cs)).head? = some '\x7d' := by
    change ¬ some '\x22' = some '\x7d'
    decide
  simp only [parseValue, hopen, if_neg hquote, if_neg harray, if_pos, Nat.add_one_ne_zero,
    if_false, if_neg hnext, Nat.add_sub_cancel]

/-- The key of a member, up to its value. -/
theorem parseMembers_key (key : String) {fuel depth : Nat} (cs : List Char)
    (h : (writeString key).length ≤ fuel + 1) :
    parseMembers (fuel + 1) depth (writeString key ++ ':' :: cs) =
      (parseValue fuel depth cs).bind fun (x, cs) =>
        match skipSpace cs with
        | '\x7d' :: cs => some ([(key, x)], cs)
        | ',' :: cs =>
          (parseMembers fuel depth cs).map fun (members, cs) => ((key, x) :: members, cs)
        | _ => none := by
  have hlong := length_le_flatMap_escape key.toList
  simp only [writeString, List.length_cons, List.length_append, List.length_nil] at h
  have hread : readChars fuel (key.toList.flatMap escape ++ '\x22' :: ':' :: cs) =
      some (key.toList, ':' :: cs) := readChars_flatMap key.toList (':' :: cs) (by omega)
  have hopen (rest : List Char) : skipSpace ('\x22' :: rest) = '\x22' :: rest := rfl
  have hcolon : skipSpace (':' :: cs) = ':' :: cs := rfl
  simp only [writeString, List.cons_append, List.append_assoc, List.nil_append, parseMembers,
    hopen, hread, Option.bind_some, hcolon, String.ofList_toList]

mutual

theorem parseValue_write : (x : JsonText) → {fuel depth : Nat} → {rest : List Char} →
    x.write.length ≤ fuel + 1 → x.depth ≤ depth → Stops rest →
    parseValue (fuel + 1) depth (x.write ++ rest) = some (x, rest)
  | null, _, _, _, _, _, _ => rfl
  | bool true, _, _, _, _, _, _ => rfl
  | bool false, _, _, _, _, _, _ => rfl
  | number n, _, _, _, _, _, hstops => parseValue_number n hstops
  | string text, _, _, rest, hfuel, _, _ => parseValue_string text rest hfuel
  | array [], _, depth, _, _, hdepth, _ => by
    obtain ⟨depth, rfl⟩ := Nat.exists_eq_add_of_le' hdepth
    rfl
  | array (x :: xs), fuel, depth, rest, hfuel, hdepth, _ => by
    simp only [JsonText.depth, depthElements] at hdepth
    obtain ⟨depth, rfl⟩ : ∃ k, depth = k + 1 := ⟨depth - 1, by omega⟩
    simp only [write, List.length_cons] at hfuel
    have hbegins := (begins_write x).append (writeElements xs ++ rest)
    have helements : parseElements fuel depth (x.write ++ (writeElements xs ++ rest)) =
        some (x :: xs, rest) := parseElements_write x xs (by omega) (by omega)
    rw [write, List.cons_append, List.append_assoc, parseValue_array hbegins, helements]
    rfl
  | object [], _, depth, _, _, hdepth, _ => by
    obtain ⟨depth, rfl⟩ := Nat.exists_eq_add_of_le' hdepth
    rfl
  | object ((key, x) :: members), fuel, depth, rest, hfuel, hdepth, _ => by
    simp only [JsonText.depth, depthMembers] at hdepth
    obtain ⟨depth, rfl⟩ : ∃ k, depth = k + 1 := ⟨depth - 1, by omega⟩
    simp only [write, List.length_cons] at hfuel
    have hmembers : parseMembers fuel depth
        (writeString key ++ ':' :: (x.write ++ (writeMembers members ++ rest))) =
        some ((key, x) :: members, rest) :=
      parseMembers_write key x members (by omega) (by omega)
    have hobject := parseValue_object fuel depth (key.toList.flatMap escape ++ '\x22' :: ':' ::
      (x.write ++ (writeMembers members ++ rest)))
    simp only [write, writeString, List.cons_append, List.append_assoc, List.nil_append]
      at hmembers ⊢
    rw [hobject, hmembers]
    rfl
termination_by x => sizeOf x

theorem parseElements_write : (x : JsonText) → (xs : List JsonText) → {fuel depth : Nat} →
    {rest : List Char} → (x.write ++ writeElements xs).length ≤ fuel →
    max x.depth (depthElements xs) ≤ depth →
    parseElements fuel depth (x.write ++ (writeElements xs ++ rest)) = some (x :: xs, rest)
  | x, [], fuel, depth, rest, hfuel, hdepth => by
    have hpos := (begins_write x).length_pos
    rw [List.length_append, writeElements, List.length_singleton] at hfuel
    obtain ⟨fuel, rfl⟩ : ∃ k, fuel = k + 2 := ⟨fuel - 2, by omega⟩
    have hx : parseValue (fuel + 1) depth (x.write ++ (writeElements [] ++ rest)) =
        some (x, writeElements [] ++ rest) :=
      parseValue_write x (by omega) (by omega) (stops_writeElements [] rest)
    rw [parseElements, hx]
    rfl
  | x, y :: ys, fuel, depth, rest, hfuel, hdepth => by
    have hpos := (begins_write x).length_pos
    rw [List.length_append, writeElements, List.length_cons] at hfuel
    obtain ⟨fuel, rfl⟩ : ∃ k, fuel = k + 2 := ⟨fuel - 2, by omega⟩
    have hx : parseValue (fuel + 1) depth (x.write ++ (writeElements (y :: ys) ++ rest)) =
        some (x, writeElements (y :: ys) ++ rest) :=
      parseValue_write x (by omega) (by omega) (stops_writeElements (y :: ys) rest)
    rw [parseElements, hx]
    simp only [depthElements] at hdepth
    have hys : parseElements (fuel + 1) depth (y.write ++ (writeElements ys ++ rest)) =
        some (y :: ys, rest) := parseElements_write y ys (by omega) (by omega)
    have hcomma (cs : List Char) : skipSpace (',' :: cs) = ',' :: cs := rfl
    simp only [writeElements, List.cons_append, List.append_assoc, Option.bind_some, hcomma, hys,
      Option.map_some]
termination_by x xs => sizeOf x + sizeOf xs

theorem parseMembers_write : (key : String) → (x : JsonText) →
    (members : List (String × JsonText)) → {fuel depth : Nat} → {rest : List Char} →
    (writeString key ++ ':' :: (x.write ++ writeMembers members)).length ≤ fuel →
    max x.depth (depthMembers members) ≤ depth →
    parseMembers fuel depth
      (writeString key ++ ':' :: (x.write ++ (writeMembers members ++ rest))) =
      some ((key, x) :: members, rest)
  | key, x, [], fuel, depth, rest, hfuel, hdepth => by
    have hkey : 0 < (writeString key).length := Nat.succ_pos _
    rw [List.length_append, List.length_cons, List.length_append, writeMembers,
      List.length_singleton] at hfuel
    obtain ⟨fuel, rfl⟩ : ∃ k, fuel = k + 2 := ⟨fuel - 2, by omega⟩
    have hx : parseValue (fuel + 1) depth (x.write ++ (writeMembers [] ++ rest)) =
        some (x, writeMembers [] ++ rest) :=
      parseValue_write x (by omega) (by omega) (stops_writeMembers [] rest)
    rw [parseMembers_key key _ (by omega), hx]
    rfl
  | key, x, (other, y) :: ys, fuel, depth, rest, hfuel, hdepth => by
    have hkey : 0 < (writeString key).length := Nat.succ_pos _
    rw [List.length_append, List.length_cons, List.length_append, writeMembers,
      List.length_cons] at hfuel
    obtain ⟨fuel, rfl⟩ : ∃ k, fuel = k + 2 := ⟨fuel - 2, by omega⟩
    have hx : parseValue (fuel + 1) depth
        (x.write ++ (writeMembers ((other, y) :: ys) ++ rest)) =
        some (x, writeMembers ((other, y) :: ys) ++ rest) :=
      parseValue_write x (by omega) (by omega) (stops_writeMembers ((other, y) :: ys) rest)
    rw [parseMembers_key key _ (by omega), hx]
    simp only [depthMembers] at hdepth
    have hys : parseMembers (fuel + 1) depth
        (writeString other ++ ':' :: (y.write ++ (writeMembers ys ++ rest))) =
        some ((other, y) :: ys, rest) := parseMembers_write other y ys (by omega) (by omega)
    have hcomma (cs : List Char) : skipSpace (',' :: cs) = ',' :: cs := rfl
    simp only [writeMembers, List.cons_append, List.append_assoc, Option.bind_some, hcomma, hys,
      Option.map_some]
termination_by _ x members => sizeOf x + sizeOf members

end

/-- What is written is read back, whatever the texts in it. -/
theorem parse_write (x : JsonText) (h : x.depth ≤ maxDepth) : parse x.write = some x := by
  have hread : parseValue (x.write.length + 1) maxDepth (x.write ++ []) = some (x, []) :=
    parseValue_write x (Nat.le_succ _) h fun _ hc => by cases hc
  rw [List.append_nil] at hread
  rw [parse, hread]
  rfl

theorem fromSlice_toVec (x : JsonText) (h : x.depth ≤ maxDepth) :
    fromSlice (toVec x) = some x := by
  rw [fromSlice, toVec, textOfUtf8_utf8Bytes, Option.bind_some, String.toList_ofList,
    parse_write x h]

end RoundTrip

end JsonText

end Shelly
