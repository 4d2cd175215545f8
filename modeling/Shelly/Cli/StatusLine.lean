import Mathlib.Algebra.GroupWithZero.Nat
import Shelly.Protocol.Text

namespace Shelly.Cli

section StatusLine

/-! The width of a character comes from the Unicode tables; a control character has none. -/

variable (charWidth : Char → Option Nat)

/-- The columns of characters in a row. -/
def columns (characters : List Char) : Nat :=
  (characters.map fun character => (charWidth character).getD 0).sum

def displayWidth (text : String) : Nat := columns charWidth text.toList

def sanitizedSessionName (name : String) : String :=
  let sanitized := String.ofList (name.toList.filter fun character => !isControl character)
  let trimmed := trim sanitized
  if trimmed = "" then "session" else trimmed

/-- The loop over the characters that still fit. -/
def takeColumns (target width : Nat) : List Char → List Char
  | [] => []
  | character :: characters =>
    let characterWidth := (charWidth character).getD 0
    if target < width + characterWidth then []
    else character :: takeColumns target (width + characterWidth) characters

def truncateToWidth (text : String) (maxWidth : Nat) : String :=
  if displayWidth charWidth text ≤ maxWidth then text
  else if maxWidth = 0 then ""
  else String.ofList (takeColumns charWidth (maxWidth - 1) 0 text.toList ++ ['…'])

def statusLine (sessionName : String) (cols : UInt16) : String :=
  let width := max cols.toNat 1
  let sessionName := sanitizedSessionName sessionName
  let full := "shelly -> " ++ sessionName
  let line := truncateToWidth charWidth full width
  let used := displayWidth charWidth line
  line ++ String.ofList (List.replicate (width - used) ' ')

variable {charWidth}

theorem columns_append (a b : List Char) :
    columns charWidth (a ++ b) = columns charWidth a + columns charWidth b := by
  simp [columns]

theorem columns_cons (character : Char) (characters : List Char) :
    columns charWidth (character :: characters) =
      (charWidth character).getD 0 + columns charWidth characters := by
  simp [columns]

theorem columns_replicate {character : Char} (h : charWidth character = some 1) (n : Nat) :
    columns charWidth (List.replicate n character) = n := by
  simp [columns, h]

theorem columns_takeColumns {target width : Nat} (characters : List Char) (h : width ≤ target) :
    width + columns charWidth (takeColumns charWidth target width characters) ≤ target := by
  induction characters generalizing width with
  | nil => simpa [takeColumns, columns] using h
  | cons character characters ih =>
    rw [takeColumns]
    split
    · simpa [columns] using h
    · rename_i hfits
      have hrest := ih (show width + (charWidth character).getD 0 ≤ target by omega)
      rw [columns_cons]
      omega

theorem takeColumns_prefix (target width : Nat) (characters : List Char) :
    takeColumns charWidth target width characters <+: characters := by
  induction characters generalizing width with
  | nil => exact List.prefix_rfl
  | cons character characters ih =>
    rw [takeColumns]
    split
    · exact List.nil_prefix
    · exact List.cons_prefix_cons.mpr ⟨rfl, ih _⟩

/-- What is left of a text is the text, or a beginning of it and the ellipsis, and it fits. -/
theorem truncateToWidth_spec (hellipsis : charWidth '…' = some 1) (text : String) {maxWidth : Nat}
    (hpos : 0 < maxWidth) :
    displayWidth charWidth (truncateToWidth charWidth text maxWidth) ≤ maxWidth ∧
      (truncateToWidth charWidth text maxWidth = text ∨
        ∃ kept, kept <+: text.toList ∧
          (truncateToWidth charWidth text maxWidth).toList = kept ++ ['…']) := by
  unfold truncateToWidth
  split
  · rename_i hfits
    exact ⟨hfits, .inl rfl⟩
  · rw [if_neg (by omega)]
    refine ⟨?_, .inr ⟨_, takeColumns_prefix _ _ _, String.toList_ofList⟩⟩
    have hkept : 0 + columns charWidth (takeColumns charWidth (maxWidth - 1) 0 text.toList) ≤
        maxWidth - 1 := columns_takeColumns text.toList (Nat.zero_le _)
    have hmark : columns charWidth ['…'] = 1 := by simp [columns, hellipsis]
    rw [displayWidth, String.toList_ofList, columns_append, hmark]
    omega

/-- The status line is as wide as the terminal. It shows whole characters: those of the text or of a
beginning of it with the ellipsis, and then blanks; none of them reaches over the edge. -/
theorem statusLine_geometry (hellipsis : charWidth '…' = some 1) (hspace : charWidth ' ' = some 1)
    (sessionName : String) (cols : UInt16) :
    displayWidth charWidth (statusLine charWidth sessionName cols) = max cols.toNat 1 ∧
      (∃ shown blanks, (statusLine charWidth sessionName cols).toList =
          shown ++ List.replicate blanks ' ' ∧
        (shown = ("shelly -> " ++ sanitizedSessionName sessionName).toList ∨
          ∃ kept, kept <+: ("shelly -> " ++ sanitizedSessionName sessionName).toList ∧
            shown = kept ++ ['…'])) ∧
      ∀ before character after,
        (statusLine charWidth sessionName cols).toList = before ++ character :: after →
        columns charWidth before + (charWidth character).getD 0 ≤ max cols.toNat 1 := by
  have hpos : 0 < max cols.toNat 1 := by omega
  obtain ⟨hfits, hshown⟩ :=
    truncateToWidth_spec hellipsis ("shelly -> " ++ sanitizedSessionName sessionName) hpos
  have hline : (statusLine charWidth sessionName cols).toList =
      (truncateToWidth charWidth ("shelly -> " ++ sanitizedSessionName sessionName)
        (max cols.toNat 1)).toList ++
      List.replicate (max cols.toNat 1 - displayWidth charWidth (truncateToWidth charWidth
        ("shelly -> " ++ sanitizedSessionName sessionName) (max cols.toNat 1))) ' ' := by
    rw [statusLine, String.toList_append, String.toList_ofList]
  have hwidth : displayWidth charWidth (statusLine charWidth sessionName cols) =
      max cols.toNat 1 := by
    rw [displayWidth, hline, columns_append, columns_replicate hspace]
    change displayWidth charWidth _ + _ = _
    omega
  refine ⟨hwidth, ⟨_, _, hline, ?_⟩, fun before character after h => ?_⟩
  · exact hshown.imp_left (congrArg String.toList)
  · have htotal := hwidth
    rw [displayWidth, h, columns_append, columns_cons] at htotal
    omega

/-- A width of two for what lies above U+1100, and none for control characters. -/
private def someWidth (character : Char) : Option Nat :=
  if isControl character then none
  else if character = '…' then some 1
  else if 0x300 ≤ character.toNat ∧ character.toNat < 0x370 then some 0
  else if 0x1100 ≤ character.toNat then some 2
  else some 1

/-- The second wide character would end in column 14: the line ends before it. -/
theorem statusLine_geometry_wide :
    statusLine someWidth "日本" 13 = "shelly -> 日…" ∧
      displayWidth someWidth (statusLine someWidth "日本" 13) = 13 :=
  ⟨by decide, (statusLine_geometry (by decide) (by decide) "日本" 13).1⟩

end StatusLine

end Shelly.Cli
