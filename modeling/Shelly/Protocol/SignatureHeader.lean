import Shelly.Framework.RadixText
import Shelly.Protocol.Signing

namespace Shelly

open Radix

/-- The number of a version: decimal digits, at least one. -/
def IsVersionNumber (n : String) : Prop := n.toList ≠ [] ∧ ∀ c ∈ n.toList, c.isDigit = true

variable {n rest s : String} {bytes : List UInt8}

theorem isVersionMarker_v (h : IsVersionNumber n) : isVersionMarker ("v" ++ n) = true := by
  rw [isVersionMarker, stripPrefix_append]
  simp [h.1, List.all_eq_true.mpr h.2]

theorem not_marker_of_last {l : List Char} {last : Char} (h : last.isDigit = false)
    (hlast : l.getLast? = some last) (hlength : 2 ≤ l.length) :
    isVersionMarker (String.ofList l) = false := by
  rw [isVersionMarker]
  split
  · rename_i digits hdigits
    have hmem : last ∈ digits.toList := by
      obtain ⟨-, hs⟩ := Option.ite_none_right_eq_some.mp hdigits
      have htail : l.drop 1 = digits.toList := by
        simpa using congrArg String.toList (Option.some.inj hs)
      have hshort : ¬ l.length ≤ 1 := by omega
      apply List.mem_of_getLast?
      rw [← htail, List.getLast?_drop, if_neg hshort, hlast]
    have hall : ¬ digits.toList.all Char.isDigit = true := fun hall => by
      rw [List.all_eq_true.mp hall last hmem] at h
      cases h
    simp only [Bool.eq_false_of_not_eq_true hall, Bool.and_false]
  · rfl

/-- A header is split into what it was built from. -/
theorem splitSignatureHeader_signatureHeader (version : SignatureVersion) (encoded : String) :
    splitSignatureHeader (signatureHeader version encoded) = some (version, encoded) := by
  cases version with
  | v1 => simp only [splitSignatureHeader, signatureHeader, stripPrefix_append]
  | v2 =>
    have hnone : stripPrefix v1SignaturePrefix (v2SignaturePrefix ++ encoded) = none := by
      apply stripPrefix_eq_none
      rw [String.toList_append]
      simp [v1SignaturePrefix, v2SignaturePrefix]
    simp only [splitSignatureHeader, signatureHeader, hnone, stripPrefix_append]

/-- A header that names no known version is refused as a marker or is a bare value. -/
theorem splitSignatureHeader_unknown (hpad : '=' ∉ n.toList) (h₁ : n ≠ "1") (h₂ : n ≠ "2") :
    splitSignatureHeader ("v" ++ n ++ "=" ++ rest) =
      if isVersionMarker ("v" ++ n) then none else some (.v1, "v" ++ n ++ "=" ++ rest) := by
  have htext : ("v" ++ n ++ "=" ++ rest).toList = ('v' :: n.toList) ++ '=' :: rest.toList := by
    simp [String.toList_append]
  -- A known prefix ends at the first separator, so it would be the whole marker.
  have hnone : ∀ d : Char, d ≠ '=' → n.toList ≠ [d] →
      ¬ ['v', d, '='] <+: ("v" ++ n ++ "=" ++ rest).toList := by
    rintro d hd hne ⟨l, hl⟩
    rw [htext] at hl
    have hcut := eq_of_append_cons (a := ['v', d]) (b := l) (by simpa using hd.symm)
      (by simpa using hpad) hl
    exact hne (List.cons.inj hcut.1).2.symm
  have hv₁ : stripPrefix v1SignaturePrefix ("v" ++ n ++ "=" ++ rest) = none :=
    stripPrefix_eq_none (hnone '1' (by decide) fun hn => h₁ (String.toList_inj.mp hn))
  have hv₂ : stripPrefix v2SignaturePrefix ("v" ++ n ++ "=" ++ rest) = none :=
    stripPrefix_eq_none (hnone '2' (by decide) fun hn => h₂ (String.toList_inj.mp hn))
  have hversion : String.ofList (("v" ++ n ++ "=" ++ rest).toList.takeWhile (· ≠ '=')) =
      "v" ++ n := by
    have hall : ∀ c ∈ 'v' :: n.toList, decide (c ≠ '=') = true := by
      intro c hc
      apply decide_eq_true
      rintro rfl
      exact hpad (by simpa using hc)
    rw [htext, List.takeWhile_append_of_pos hall]
    apply String.toList_inj.mp
    simp
  have hmem : '=' ∈ ("v" ++ n ++ "=" ++ rest).toList := by
    rw [htext]
    simp
  simp only [splitSignatureHeader, hv₁, hv₂, hversion, hmem, true_and]

/-- A version that does not exist is refused, whatever follows. -/
theorem splitSignatureHeader_unsupported (h : IsVersionNumber n) (h₁ : n ≠ "1") (h₂ : n ≠ "2") :
    splitSignatureHeader ("v" ++ n ++ "=" ++ rest) = none := by
  have hpad : '=' ∉ n.toList := fun hpad => by cases h.2 '=' hpad
  rw [splitSignatureHeader_unknown hpad h₁ h₂, if_pos (isVersionMarker_v h)]

/-- The text of a signature is no marker: its last character before the padding stands for
two bits, and none of the digits does. -/
theorem splitSignatureHeader_base64Encode (h : bytes.length = 64) :
    splitSignatureHeader (base64Encode bytes) = some (.v1, base64Encode bytes) := by
  have hmod : bytes.length % 3 = 1 := by omega
  obtain ⟨init, last, htext, hlast, hlength⟩ := base64_encode_mod_one hmod
  have hcount : (base64.encode bytes).length = 86 := by
    rw [Alphabet.encode, encodeDigits, List.length_map, List.length_map, length_chunks, h]
    rfl
  have hdigit : ∀ c ∈ ['A', 'Q', 'g', 'w'], c.isDigit = false := by simp
  have hmarker : isVersionMarker (String.ofList (base64.encode bytes)) = false := by
    apply not_marker_of_last (hdigit last hlast)
    · rw [htext, List.getLast?_concat]
    · omega
  -- The first three characters are digits of the text, so that none of them is a separator.
  have hnone : ∀ start : String, start.toList.length = 3 → '=' ∈ start.toList →
      ¬ start.toList <+: (base64Encode bytes).toList := by
    intro start hthree hpad hprefix
    rw [base64Encode, String.toList_ofList] at hprefix
    have hinside : start.toList <+: base64.encode bytes :=
      List.prefix_of_prefix_length_le hprefix (List.prefix_append _ _) (by omega)
    exact not_pad_of_mem_base64 (hinside.subset hpad) rfl
  have hv₁ := stripPrefix_eq_none (hnone v1SignaturePrefix (by decide) (by decide))
  have hv₂ := stripPrefix_eq_none (hnone v2SignaturePrefix (by decide) (by decide))
  simp only [splitSignatureHeader, hv₁, hv₂, takeWhile_base64Encode, hmarker, Bool.false_eq_true,
    and_false, if_false]

end Shelly
