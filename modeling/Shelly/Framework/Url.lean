import Mathlib.Algebra.GroupWithZero.Nat
import Shelly.Framework.RadixText

namespace Shelly

/-- What the parser of the URL standard makes of an `https` URL. The authority holds the
credentials, the host and the port. -/
structure Url (A : Type*) where
  authority : A
  path : List (List Char)
  query : Option (List Char)
  fragment : Option (List Char)

namespace Url

section Sets

def c0ControlSet (c : Char) : Bool := c.toNat ≤ 0x1f || 0x7e < c.toNat

def querySet (c : Char) : Bool := c0ControlSet c || [0x20, 0x22, 0x23, 0x3c, 0x3e].contains c.toNat

def specialQuerySet (c : Char) : Bool := querySet c || c.toNat = 0x27

def fragmentSet (c : Char) : Bool :=
  c0ControlSet c || [0x20, 0x22, 0x3c, 0x3e, 0x60].contains c.toNat

def pathSet (c : Char) : Bool := querySet c || [0x3f, 0x5e, 0x60, 0x7b, 0x7d].contains c.toNat

def isC0ControlOrSpace (c : Char) : Bool := c.toNat ≤ 0x20

def isTabOrNewline (c : Char) : Bool := c = '\t' || c = '\n' || c = '\r'

/-- In an `https` URL a backslash is as good as a slash. -/
def isSlash (c : Char) : Bool := c = '/' || c = '\\'

def endsAuthority (c : Char) : Bool := isSlash c || c = '?' || c = '#'

end Sets

section Parse

def percentEncodeChar (c : Char) : List Char :=
  (String.utf8EncodeChar c).flatMap fun b => '%' :: Radix.hexUpper.encode [b]

def percentEncode (set : Char → Bool) (c : Char) : List Char :=
  if set c then percentEncodeChar c else [c]

def isSingleDot (segment : List Char) : Bool :=
  [".".toList, "%2e".toList].contains (segment.map Char.toLower)

def isDoubleDot (segment : List Char) : Bool :=
  ["..".toList, ".%2e".toList, "%2e.".toList, "%2e%2e".toList].contains (segment.map Char.toLower)

/-- The path when a segment ends, at a slash or at the end of the path. -/
def closeSegment (path : List (List Char)) (buffer : List Char) (slash : Bool) :
    List (List Char) :=
  if isDoubleDot buffer then (if slash then path.dropLast else path.dropLast ++ [[]])
  else if isSingleDot buffer then (if slash then path else path ++ [[]])
  else path ++ [buffer]

def fragmentState (input : List Char) : List Char := input.flatMap (percentEncode fragmentSet)

/-- The query, and the fragment behind it. -/
def queryState (buffer : List Char) : List Char → List Char × Option (List Char)
  | [] => (buffer, none)
  | c :: rest =>
    if c = '#' then (buffer, some (fragmentState rest))
    else queryState (buffer ++ percentEncode specialQuerySet c) rest

/-- The path, the query and the fragment. -/
def pathState (path : List (List Char)) (buffer : List Char) :
    List Char → List (List Char) × Option (List Char) × Option (List Char)
  | [] => (closeSegment path buffer false, none, none)
  | c :: rest =>
    if isSlash c then pathState (closeSegment path buffer true) [] rest
    else if c = '?' then
      let (query, fragment) := queryState [] rest
      (closeSegment path buffer false, some query, fragment)
    else if c = '#' then (closeSegment path buffer false, none, some (fragmentState rest))
    else pathState path (buffer ++ percentEncode pathSet c) rest

def pathStartState : List Char → List (List Char) × Option (List Char) × Option (List Char)
  | [] => pathState [] [] []
  | c :: rest => if isSlash c then pathState [] [] rest else pathState [] [] (c :: rest)

/-- Controls and spaces at the end are dropped. -/
def stripEnd (input : List Char) : List Char := (input.reverse.dropWhile isC0ControlOrSpace).reverse

def withoutNewlines (input : List Char) : List Char := input.filter fun c => !isTabOrNewline c

/-- Parses an `https` URL; no other scheme is here. The parser of the authority is a parameter,
which is given everything up to the first slash, question mark or hash. -/
def parse {A : Type*} (authorityOf : List Char → Option A) (input : List Char) : Option (Url A) :=
  let text := withoutNewlines (stripEnd (input.dropWhile isC0ControlOrSpace))
  if (text.take 6).map Char.toLower = "https:".toList then
    let rest := (text.drop 6).dropWhile isSlash
    (authorityOf (rest.takeWhile fun c => !endsAuthority c)).map fun authority =>
      let (path, query, fragment) := pathStartState (rest.dropWhile fun c => !endsAuthority c)
      ⟨authority, path, query, fragment⟩
  else none

end Parse

/-- A text with some of its characters percent-encoded. -/
inductive EncodedAs : List Char → List Char → Prop
  | nil : EncodedAs [] []
  | keep (c : Char) {text encoded : List Char} : EncodedAs text encoded →
      EncodedAs (c :: text) (c :: encoded)
  | encode (c : Char) {text encoded : List Char} : EncodedAs text encoded →
      EncodedAs (c :: text) (percentEncodeChar c ++ encoded)

section Encode

variable {set : Char → Bool} {c : Char} {text encoded chunk : List Char}

theorem encodedAs_percentEncode (set : Char → Bool) (text : List Char) :
    EncodedAs text (text.flatMap (percentEncode set)) := by
  induction text with
  | nil => exact .nil
  | cons c text ih =>
    rw [List.flatMap_cons]
    unfold percentEncode
    cases set c with
    | false => exact .keep c ih
    | true => exact .encode c ih

theorem length_percentEncodeChar (c : Char) : (percentEncodeChar c).length = 3 * c.utf8Size := by
  have hbyte (b : UInt8) : ('%' :: Radix.hexUpper.encode [b]).length = 3 := by
    simp [Radix.Alphabet.encode, Radix.encodeDigits, Radix.length_chunks, Radix.hexUpper]
  unfold percentEncodeChar
  rw [List.length_flatMap, ← String.length_utf8EncodeChar]
  induction String.utf8EncodeChar c with
  | nil => rfl
  | cons b bytes ih =>
    rw [List.map_cons, List.sum_cons, hbyte, ih, List.length_cons]
    omega

/-- A percent sign and digits need no encoding. -/
theorem plain_of_mem_percentEncodeChar {x : Char} (h : x ∈ percentEncodeChar c) :
    pathSet x = false ∧ isSlash x = false := by
  have hplain : ('%' :: Radix.hexUpper.symbols).all (fun x => !pathSet x && !isSlash x) = true := by
    decide
  obtain ⟨b, -, hx⟩ := List.mem_flatMap.mp h
  have hmem : x ∈ '%' :: Radix.hexUpper.symbols := by
    rcases List.mem_cons.mp hx with rfl | hx
    · exact List.mem_cons_self
    · exact List.mem_cons_of_mem _ (Radix.Alphabet.mem_symbols_of_mem_encode hx)
  simpa using List.all_eq_true.mp hplain x hmem

/-- How long a character gets where it may stand neither raw nor as a slash. -/
def cost (c : Char) : Nat := if pathSet c || isSlash c then 3 * c.utf8Size else 1

theorem utf8Size_of_not_pathSet (h : pathSet c = false) : c.utf8Size = 1 := by
  have hle : c.toNat ≤ 0x7e := by
    simp only [pathSet, querySet, c0ControlSet, Bool.or_eq_false_iff, decide_eq_false_iff_not] at h
    omega
  rw [Char.utf8Size_eq_one_iff, UInt32.le_iff_toNat_le]
  exact hle.trans (by decide)

theorem utf8Size_le_cost (c : Char) : c.utf8Size ≤ cost c := by
  unfold cost
  split
  · omega
  · rename_i h
    have hset : pathSet c = false := by
      simp only [Bool.or_eq_true, not_or, Bool.not_eq_true] at h
      exact h.1
    rw [utf8Size_of_not_pathSet hset]

theorem cost_pos (c : Char) : 0 < cost c := lt_of_lt_of_le c.utf8Size_pos (utf8Size_le_cost c)

theorem EncodedAs.cost_le (h : EncodedAs text encoded)
    (hplain : ∀ x ∈ encoded, pathSet x = false ∧ isSlash x = false) :
    (text.map cost).sum ≤ encoded.length := by
  induction h with
  | nil => simp
  | keep c _ ih =>
    have hc := hplain c List.mem_cons_self
    have hrest := ih fun x hx => hplain x (List.mem_cons_of_mem _ hx)
    have hcost : cost c = 1 := by simp [cost, hc]
    simp only [List.map_cons, List.sum_cons, List.length_cons]
    omega
  | encode c _ ih =>
    have hrest := ih fun x hx => hplain x (List.mem_append_right _ hx)
    have hpos := c.utf8Size_pos
    have hcost : cost c ≤ 3 * c.utf8Size := by
      unfold cost
      split <;> omega
    simp only [List.map_cons, List.sum_cons, List.length_append, length_percentEncodeChar]
    omega

/-- What a part of the path becomes costs what its characters cost. -/
theorem length_flatMap_percentEncode (h : ∀ c ∈ chunk, isSlash c = false) :
    (chunk.flatMap (percentEncode pathSet)).length = (chunk.map cost).sum := by
  induction chunk with
  | nil => rfl
  | cons c chunk ih =>
    have hc := h c List.mem_cons_self
    have hrest := ih fun x hx => h x (List.mem_cons_of_mem _ hx)
    have hcost : (percentEncode pathSet c).length = cost c := by
      unfold percentEncode cost
      cases pathSet c with
      | false => simp [hc]
      | true => simp [length_percentEncodeChar]
    rw [List.flatMap_cons, List.length_append, hrest, hcost, List.map_cons, List.sum_cons]

theorem plain_of_mem_flatMap {x : Char} (h : ∀ c ∈ chunk, isSlash c = false)
    (hx : x ∈ chunk.flatMap (percentEncode pathSet)) : pathSet x = false ∧ isSlash x = false := by
  obtain ⟨c, hc, hx⟩ := List.mem_flatMap.mp hx
  unfold percentEncode at hx
  cases hset : pathSet c with
  | false =>
    rw [hset, if_neg Bool.false_ne_true, List.mem_singleton] at hx
    exact ⟨hx ▸ hset, hx ▸ h c hc⟩
  | true =>
    rw [hset, if_pos rfl] at hx
    exact plain_of_mem_percentEncodeChar hx

theorem cost_le_of_sublist (h : chunk.Sublist text) :
    (chunk.map cost).sum ≤ (text.map cost).sum := by
  induction h with
  | slnil => exact le_rfl
  | cons c _ ih =>
    rw [List.map_cons, List.sum_cons]
    omega
  | cons_cons c _ ih =>
    simp only [List.map_cons, List.sum_cons]
    omega

/-- A part of a text that costs as much is all of it. -/
theorem eq_of_sublist_of_cost_le (h : chunk.Sublist text)
    (hcost : (text.map cost).sum ≤ (chunk.map cost).sum) : chunk = text := by
  induction h with
  | slnil => rfl
  | cons c hsub ih =>
    have hle := cost_le_of_sublist hsub
    have hpos := cost_pos c
    rw [List.map_cons, List.sum_cons] at hcost
    omega
  | cons_cons c hsub ih =>
    simp only [List.map_cons, List.sum_cons, Nat.add_le_add_iff_left] at hcost
    rw [ih hcost]

/-- A segment that spells a text in this way holds all of it. -/
theorem eq_of_encodedAs_flatMap (h : EncodedAs text (chunk.flatMap (percentEncode pathSet)))
    (hslash : ∀ c ∈ chunk, isSlash c = false) (hsub : chunk.Sublist text) : chunk = text := by
  have hcost := h.cost_le fun x hx => plain_of_mem_flatMap hslash hx
  rw [length_flatMap_percentEncode hslash] at hcost
  exact eq_of_sublist_of_cost_le hsub hcost

end Encode

section Path

variable {path : List (List Char)} {buffer input chunk segment : List Char}

/-- Nothing in a run of the path ends a segment. -/
theorem pathState_chunk (path : List (List Char)) (buffer : List Char)
    (h : ∀ c ∈ input, endsAuthority c = false) :
    pathState path buffer input =
      (closeSegment path (buffer ++ input.flatMap (percentEncode pathSet)) false, none, none) := by
  induction input generalizing buffer with
  | nil => simp [pathState]
  | cons c input ih =>
    have hc := h c List.mem_cons_self
    have hrest := ih (buffer ++ percentEncode pathSet c) fun x hx => h x (List.mem_cons_of_mem _ hx)
    simp only [endsAuthority, Bool.or_eq_false_iff, decide_eq_false_iff_not] at hc
    rw [pathState, if_neg (by simp [hc]), if_neg hc.1.2, if_neg hc.2, hrest, List.append_assoc,
      List.flatMap_cons]

/-- The names of the segments that are not kept are short. -/
theorem closeSegment_of_long {slash : Bool} (h : 6 < buffer.length) :
    closeSegment path buffer slash = path ++ [buffer] := by
  have hlength : 6 < (buffer.map Char.toLower).length := by rwa [List.length_map]
  have hnot (names : List (List Char)) (hnames : ∀ name ∈ names, name.length ≤ 6) :
      names.contains (buffer.map Char.toLower) = false := by
    rw [List.contains_eq_mem, decide_eq_false_iff_not]
    intro hmem
    have hle := hnames _ hmem
    omega
  have hdouble : isDoubleDot buffer = false := hnot _ (by decide)
  have hsingle : isSingleDot buffer = false := hnot _ (by decide)
  simp [closeSegment, hdouble, hsingle]

/-- Empty, or a part of the text between two ends. -/
def PartOf (text segment : List Char) : Prop :=
  segment = [] ∨ ∃ part : List Char, part.Sublist text ∧ (∀ c ∈ part, endsAuthority c = false) ∧
    segment = part.flatMap (percentEncode pathSet)

theorem PartOf.mono {text : List Char} (h : PartOf chunk segment) (hsub : chunk.Sublist text) :
    PartOf text segment := by
  rcases h with h | ⟨part, hpart, hclean, h⟩
  · exact .inl h
  · exact .inr ⟨part, hpart.trans hsub, hclean, h⟩

theorem mem_closeSegment {slash : Bool} (hchunk : ∀ c ∈ chunk, endsAuthority c = false)
    (h : segment ∈ closeSegment path (chunk.flatMap (percentEncode pathSet)) slash) :
    segment ∈ path ∨ PartOf chunk segment := by
  have hend (path' : List (List Char)) (last : List Char) (hlast : PartOf chunk last)
      (h : segment ∈ path' ++ [last]) : segment ∈ path' ∨ PartOf chunk segment := by
    rcases List.mem_append.mp h with h | h
    · exact .inl h
    · exact .inr (List.mem_singleton.mp h ▸ hlast)
  unfold closeSegment at h
  split at h
  · split at h
    · exact .inl (List.dropLast_subset _ h)
    · exact (hend _ _ (.inl rfl) h).imp_left fun h => List.dropLast_subset _ h
  · split at h
    · split at h
      · exact .inl h
      · exact hend _ _ (.inl rfl) h
    · exact hend _ _ (.inr ⟨chunk, List.Sublist.refl _, hchunk, rfl⟩) h

/-- Every segment is one of those before, or a part of what is read. -/
theorem mem_pathState (hchunk : ∀ c ∈ chunk, endsAuthority c = false)
    (h : segment ∈ (pathState path (chunk.flatMap (percentEncode pathSet)) input).1) :
    segment ∈ path ∨ PartOf (chunk ++ input) segment := by
  induction input generalizing path chunk with
  | nil =>
    exact (mem_closeSegment hchunk h).imp_right fun h => h.mono (List.sublist_append_left _ _)
  | cons c input ih =>
    have hclosed {slash : Bool}
        (h : segment ∈ closeSegment path (chunk.flatMap (percentEncode pathSet)) slash) :
        segment ∈ path ∨ PartOf (chunk ++ c :: input) segment :=
      (mem_closeSegment hchunk h).imp_right fun h => h.mono (List.sublist_append_left _ _)
    rw [pathState] at h
    split at h
    · -- the segment ends here, and the next begins
      have hnil : ∀ c ∈ ([] : List Char), endsAuthority c = false := by simp
      rcases ih hnil h with h | h
      · exact hclosed h
      · refine .inr (h.mono ?_)
        rw [List.nil_append]
        exact (List.sublist_cons_self c input).trans (List.sublist_append_right _ _)
    · split at h
      · exact hclosed h
      · split at h
        · exact hclosed h
        · rename_i hslash hquery hhash
          have hc : endsAuthority c = false := by simp [endsAuthority, hslash, hquery, hhash]
          have hmem : ∀ x ∈ chunk ++ [c], endsAuthority x = false := by
            intro x hx
            rcases List.mem_append.mp hx with hx | hx
            · exact hchunk x hx
            · exact List.mem_singleton.mp hx ▸ hc
          have happend : chunk.flatMap (percentEncode pathSet) ++ percentEncode pathSet c =
              (chunk ++ [c]).flatMap (percentEncode pathSet) := by simp
          rw [happend] at h
          simpa using ih hmem h

end Path

section Authority

variable {A : Type*} {authorityOf : List Char → Option A} {authority : List Char}

theorem stripEnd_append {front : List Char} {c : Char} (hc : isC0ControlOrSpace c = false)
    (input : List Char) : stripEnd (front ++ c :: input) = front ++ c :: stripEnd input := by
  unfold stripEnd
  rw [List.reverse_append, List.reverse_cons, List.append_assoc, List.dropWhile_append]
  split
  · rename_i h
    rw [List.isEmpty_iff.mp h]
    simp [hc]
  · simp

theorem stripEnd_sublist (input : List Char) : (stripEnd input).Sublist input := by
  have h := (List.dropWhile_sublist (l := input.reverse) isC0ControlOrSpace).reverse
  rwa [List.reverse_reverse] at h

/-- Nothing is dropped exactly when the last character is neither. -/
theorem stripEnd_eq_iff {input : List Char} : stripEnd input = input ↔
    ∀ c, input.getLast? = some c → isC0ControlOrSpace c = false := by
  rw [stripEnd, List.reverse_eq_iff, ← List.head?_reverse]
  cases input.reverse with
  | nil => simp
  | cons c rest =>
    cases hc : isC0ControlOrSpace c with
    | false => simp [hc]
    | true =>
      have hle := (List.dropWhile_sublist (l := rest) isC0ControlOrSpace).length_le
      rw [List.dropWhile_cons_of_pos hc]
      refine iff_of_false (fun h => ?_) fun h => ?_
      · rw [h, List.length_cons] at hle
        omega
      · exact Bool.false_ne_true ((h c rfl).symm.trans hc)

theorem withoutNewlines_append (front input : List Char) :
    withoutNewlines (front ++ input) = withoutNewlines front ++ withoutNewlines input :=
  List.filter_append ..

theorem isTabOrNewline_of_not {c : Char} (h : isC0ControlOrSpace c = false) :
    isTabOrNewline c = false := by
  simp only [isC0ControlOrSpace, decide_eq_false_iff_not] at h
  simp only [isTabOrNewline, Bool.or_eq_false_iff, decide_eq_false_iff_not]
  refine ⟨⟨?_, ?_⟩, ?_⟩ <;>
  · rintro rfl
    exact h (by decide)

theorem withoutNewlines_eq_iff {input : List Char} :
    withoutNewlines input = input ↔ ∀ c ∈ input, isTabOrNewline c = false := by
  simp [withoutNewlines, List.filter_eq_self]

/-- The authority is not touched by what follows its slash. -/
theorem parse_https (hne : authority ≠ [])
    (hclean : ∀ c ∈ authority, endsAuthority c = false ∧ isC0ControlOrSpace c = false)
    (path : List Char) :
    parse authorityOf ("https://".toList ++ authority ++ '/' :: path) =
      (authorityOf authority).map fun a =>
        let result := pathState [] [] (withoutNewlines (stripEnd path))
        ⟨a, result.1, result.2.1, result.2.2⟩ := by
  have hprefix : withoutNewlines "https://".toList = "https://".toList := by decide
  have hslash : withoutNewlines ('/' :: stripEnd path) =
      '/' :: withoutNewlines (stripEnd path) := by
    rw [withoutNewlines, List.filter_cons_of_pos (by decide)]
    rfl
  have hauthority : withoutNewlines authority = authority :=
    withoutNewlines_eq_iff.mpr fun c hc => isTabOrNewline_of_not (hclean c hc).2
  have hstart : ("https://".toList ++ authority ++ '/' :: path).dropWhile isC0ControlOrSpace =
      "https://".toList ++ authority ++ '/' :: path := by
    rw [List.append_assoc]
    rfl
  have htext : withoutNewlines (stripEnd (("https://".toList ++ authority ++ '/' :: path).dropWhile
      isC0ControlOrSpace)) = "https:".toList ++
        ('/' :: '/' :: (authority ++ '/' :: withoutNewlines (stripEnd path))) := by
    rw [hstart, stripEnd_append (by decide), withoutNewlines_append, withoutNewlines_append,
      hprefix, hauthority, hslash, List.append_assoc]
    rfl
  have hrest : ('/' :: '/' :: (authority ++ '/' :: withoutNewlines (stripEnd path))).dropWhile
      isSlash = authority ++ '/' :: withoutNewlines (stripEnd path) := by
    obtain ⟨c, authority, rfl⟩ := List.exists_cons_of_ne_nil hne
    have hc : isSlash c = false := by
      have hend := (hclean c List.mem_cons_self).1
      simp only [endsAuthority, Bool.or_eq_false_iff] at hend
      exact hend.1.1
    rw [List.dropWhile_cons_of_pos (by decide), List.dropWhile_cons_of_pos (by decide),
      List.cons_append, List.dropWhile_cons_of_neg (by simp [hc])]
  have hend : ∀ c ∈ authority, (!endsAuthority c) = true := fun c hc => by simp [hclean c hc]
  have htake : (authority ++ '/' :: withoutNewlines (stripEnd path)).takeWhile
      (fun c => !endsAuthority c) = authority := by
    rw [List.takeWhile_append_of_pos hend, List.takeWhile_cons_of_neg (by decide), List.append_nil]
  have hdrop : (authority ++ '/' :: withoutNewlines (stripEnd path)).dropWhile
      (fun c => !endsAuthority c) = '/' :: withoutNewlines (stripEnd path) := by
    rw [List.dropWhile_append_of_pos hend, List.dropWhile_cons_of_neg (by decide)]
  unfold parse
  simp only [htext]
  rw [if_pos (by rfl), List.drop_left' (by rfl), hrest, htake, hdrop]
  rfl

end Authority

end Url
end Shelly
