import Shelly.Framework.Codec

namespace Shelly

def isContinuation (byte : UInt8) : Bool := 0x80 ≤ byte && byte ≤ 0xBF

/-- The second bytes that lead on to a character after this first one. -/
def isSecond (first second : UInt8) : Bool :=
  (if first = 0xE0 then 0xA0 else if first = 0xF0 then 0x90 else 0x80) ≤ second &&
    second ≤ (if first = 0xED then 0x9F else if first = 0xF4 then 0x8F else 0xBF)

/-- How much of bytes that begin with no character is replaced at once: the longest
part that could have begun one. -/
def invalidLength (bytes : List UInt8) : Nat :=
  let first := bytes.headD 0
  if 0xE0 ≤ first ∧ first ≤ 0xF4 ∧ isSecond first ((bytes.drop 1).headD 0) then
    if 0xF0 ≤ first ∧ isContinuation ((bytes.drop 2).headD 0) then 3 else 2
  else 1

def lossyChars : Nat → List UInt8 → List Char
  | 0, _ => []
  | _ + 1, [] => []
  | fuel + 1, byte :: rest =>
    match (byte :: rest).toByteArray.utf8DecodeChar? 0 with
    | some c => c :: lossyChars fuel ((byte :: rest).drop c.utf8Size)
    | none =>
      Char.ofNat 0xFFFD :: lossyChars fuel ((byte :: rest).drop (invalidLength (byte :: rest)))

/-- Decodes UTF-8 and replaces what is invalid. -/
def fromUtf8Lossy (bytes : List UInt8) : String := String.ofList (lossyChars bytes.length bytes)

def charBytes (chars : List Char) : List UInt8 := chars.flatMap String.utf8EncodeChar

theorem utf8Bytes_ofList (chars : List Char) :
    utf8Bytes (String.ofList chars) = charBytes chars := by
  rw [utf8Bytes, String.toUTF8_eq_toByteArray, String.toByteArray_ofList]
  exact List.toList_data_toByteArray

theorem lossyChars_charBytes (chars : List Char) {fuel : Nat}
    (h : (charBytes chars).length ≤ fuel) :
    lossyChars fuel (charBytes chars) = chars := by
  induction chars generalizing fuel with
  | nil => cases fuel <;> rfl
  | cons c chars ih =>
    have hbytes : charBytes (c :: chars) = String.utf8EncodeChar c ++ charBytes chars := rfl
    have hlength : (String.utf8EncodeChar c).length = c.utf8Size := String.length_utf8EncodeChar c
    have hpos := c.utf8Size_pos
    have hread : (charBytes (c :: chars)).toByteArray.utf8DecodeChar? 0 = some c := by
      rw [hbytes, List.toByteArray_append]
      exact ByteArray.utf8DecodeChar?_utf8EncodeChar_append
    have hdrop : (charBytes (c :: chars)).drop c.utf8Size = charBytes chars :=
      List.drop_left' hlength
    obtain ⟨byte, rest, hcons⟩ : ∃ byte rest, charBytes (c :: chars) = byte :: rest := by
      apply List.exists_cons_of_length_pos
      rw [hbytes, List.length_append]
      omega
    rw [hbytes, List.length_append] at h
    rw [hcons] at hread hdrop ⊢
    cases fuel with
    | zero => omega
    | succ fuel =>
      rw [lossyChars, hread]
      simp only [hdrop]
      rw [ih (by omega)]

/-- A text is decoded to itself. -/
theorem fromUtf8Lossy_utf8Bytes (s : String) : fromUtf8Lossy (utf8Bytes s) = s := by
  conv_lhs => rw [← String.ofList_toList (s := s), utf8Bytes_ofList, fromUtf8Lossy,
    lossyChars_charBytes _ (Nat.le_refl _)]
  exact String.ofList_toList

example : fromUtf8Lossy [0xF0, 0x90, 0x80, 0x41, 0xE2, 0x82, 0xAC, 0xFF] =
    String.ofList [Char.ofNat 0xFFFD, 'A', Char.ofNat 0x20AC, Char.ofNat 0xFFFD] := by
  decide

end Shelly
