import Shelly.Framework.RadixText
import Shelly.Protocol.Text

namespace Shelly

/-- A space or a dash between the characters of a code. -/
def isSeparator (c : Char) : Bool := isWhitespace c || c == '-'

/-- What is read for a character of a typed code. -/
def readSymbol (c : Char) : Char :=
  match c.toUpper with
  | 'I' | 'L' => '1'
  | 'O' => '0'
  | other => other

def sasDomain : String := "shelly-pair-sas-v1\x00"

def sasBytes : Nat := 10

/-- Groups of four characters, the last one shorter where they do not come out even. -/
def hexGroups : List Char → List (List Char)
  | [] => []
  | a :: b :: c :: d :: rest => [a, b, c, d] :: hexGroups rest
  | last => [last]

section Digests

-- SHA-256 of the bytes.
variable (sha256 : List UInt8 → List UInt8)

/-- The name under which the relay keeps where a code leads. -/
def pairingCodeLocator (code : String) : String :=
  String.ofList (Radix.hexLower.encode (sha256 (bytesOf (normalizeCode code))))

/-- The short string that both sides of a pairing show. -/
def pairingSas (code : String) (daemonPublicKey phonePublicKey : List UInt8) : String :=
  let digest := sha256
    (bytesOf sasDomain ++ bytesOf (normalizeCode code) ++ daemonPublicKey ++ phonePublicKey)
  let encoded := Radix.hexUpper.encode (digest.take sasBytes)
  String.intercalate "-" ((hexGroups encoded).map String.ofList)

end Digests

-- The digest of the code `AB234CD` with two fixed keys.
example : pairingSas
    (fun _ => [0x84, 0xA9, 0xFB, 0x21, 0x1F, 0xC7, 0x20, 0xDF, 0x3B, 0x6E, 0x21, 0xDB])
    "ab2-34 cd" [] [] = "84A9-FB21-1FC7-20DF-3B6E" := by decide

section Normalisation

variable {c : Char}

theorem toList_normalizeCode (s : String) :
    (normalizeCode s).toList = (s.toList.filter (!isSeparator ·)).map readSymbol := by
  have hsame : (fun c => !isWhitespace c && c != '-') = fun c => !isSeparator c := by
    funext c
    rw [isSeparator, Bool.not_or, bne]
  rw [normalizeCode, String.toList_ofList, hsame]
  rfl

def lowerCase : List Char := "abcdefghijklmnopqrstuvwxyz".toList

theorem toUpper_eq_or_mem (c : Char) : c.toUpper = c ∨ c ∈ lowerCase := by
  by_cases hlower : 'a'.val ≤ c.val ∧ c.val ≤ 'z'.val
  · right
    have hlo : 97 ≤ c.toNat := hlower.1
    have hhi : c.toNat ≤ 122 := hlower.2
    have hall : lowerCase = (List.range' 97 26).map Char.ofNat := by decide
    have hmem : c.toNat ∈ List.range' 97 26 := by
      rw [List.mem_range'_1]
      omega
    rw [hall, ← Char.ofNat_toNat c]
    exact List.mem_map_of_mem hmem
  · exact .inl (dif_neg hlower)

/-- What is read is no separator, and is read as itself. -/
theorem readSymbol_read (h : isSeparator c = false) :
    isSeparator (readSymbol c) = false ∧ readSymbol (readSymbol c) = readSymbol c := by
  rcases toUpper_eq_or_mem c with hsame | hmem
  · rw [readSymbol, hsame]
    split
    · decide
    · decide
    · decide
    · next other hI hL hO =>
      refine ⟨h, ?_⟩
      rw [readSymbol, hsame]
      split <;> simp_all
  · have hall : lowerCase.all (fun c => !isSeparator (readSymbol c) &&
        readSymbol (readSymbol c) == readSymbol c) = true := by decide
    have hread := List.all_eq_true.mp hall c hmem
    rw [Bool.and_eq_true, Bool.not_eq_true', beq_iff_eq] at hread
    exact hread

/-- Normalising a second time changes nothing. -/
theorem normalizeCode_normalizeCode (s : String) :
    normalizeCode (normalizeCode s) = normalizeCode s := by
  apply String.toList_injective
  rw [toList_normalizeCode (normalizeCode s), toList_normalizeCode s]
  induction s.toList with
  | nil => rfl
  | cons c l ih =>
    cases h : isSeparator c with
    | true => simp [h, ih]
    | false =>
      obtain ⟨hkept, hsame⟩ := readSymbol_read h
      simp [h, hkept, hsame, ih]

end Normalisation

section Renderings

/-- How a character of a code may be written. -/
def writtenAs (c : Char) : List Char :=
  c :: c.toLower ::
    if c = '1' then ['I', 'i', 'L', 'l'] else if c = '0' then ['O', 'o'] else []

/-- The text is a rendering of the code: its characters one after the other, each written in one
of its ways, with separators anywhere. -/
inductive Renders : List Char → List Char → Prop
  | nil : Renders [] []
  | separator {s : Char} {text code : List Char} :
    isSeparator s = true → Renders text code → Renders (s :: text) code
  | symbol {c c' : Char} {text code : List Char} :
    c' ∈ writtenAs c → Renders text code → Renders (c' :: text) (c :: code)

variable {c c' : Char} {text code : List Char}

/-- Each way to write a character of the alphabet is read as this character. -/
theorem readSymbol_of_writtenAs (hc : c ∈ codeAlphabet.toList) (h : c' ∈ writtenAs c) :
    isSeparator c' = false ∧ readSymbol c' = c := by
  have hall : codeAlphabet.toList.all (fun c => (writtenAs c).all fun c' =>
      !isSeparator c' && readSymbol c' == c) = true := by decide
  have hread := List.all_eq_true.mp (List.all_eq_true.mp hall c hc) c' h
  rw [Bool.and_eq_true, Bool.not_eq_true', beq_iff_eq] at hread
  exact hread

theorem read_of_renders (h : Renders text code) (hcode : ∀ c ∈ code, c ∈ codeAlphabet.toList) :
    (text.filter (!isSeparator ·)).map readSymbol = code := by
  induction h with
  | nil => rfl
  | separator hs _ ih => simp [hs, ih hcode]
  | symbol hwritten _ ih =>
    obtain ⟨hkept, hread⟩ := readSymbol_of_writtenAs (hcode _ List.mem_cons_self) hwritten
    have hrest := ih fun c hc => hcode c (List.mem_cons_of_mem _ hc)
    simp [hkept, hread, hrest]

/-- Every rendering of a code over the alphabet is normalised to the code. -/
theorem normalizeCode_of_renders {text code : String} (h : Renders text.toList code.toList)
    (hcode : ∀ c ∈ code.toList, c ∈ codeAlphabet.toList) : normalizeCode text = code := by
  apply String.toList_injective
  rw [toList_normalizeCode, read_of_renders h hcode]

/-- A code is a rendering of itself. -/
theorem Renders.refl (code : List Char) : Renders code code := by
  induction code with
  | nil => exact .nil
  | cons c code ih => exact .symbol List.mem_cons_self ih

end Renderings

end Shelly
