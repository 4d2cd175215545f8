import Mathlib.Data.Finmap

namespace Shelly

/-- Reads a value from the front of the input and leaves the rest. -/
abbrev Reader (α : Type*) := List UInt8 → Option (α × List UInt8)

namespace Reader

variable {α β : Type*}

def both (read : Reader α) (read' : Reader β) : Reader (α × β) := fun input =>
  (read input).bind fun (a, rest) => (read' rest).map fun (b, rest) => ((a, b), rest)

/-- Reads so many values in a row. -/
def times (read : Reader α) : Nat → Reader (List α)
  | 0 => fun input => some ([], input)
  | n + 1 => fun input => (read input).bind fun (a, rest) =>
    (read.times n rest).map fun (l, rest) => (a :: l, rest)

end Reader

/-- How values are written and read back in front of other bytes. Some values may
have no encoding. -/
structure Codec (α : Type*) where
  encode : α → Option (List UInt8)
  decode : Reader α
  decode_append : ∀ {a bytes}, encode a = some bytes → ∀ rest, decode (bytes ++ rest) = some (a, rest)

/-- The bytes of a number, the least significant first. -/
def leBytes : Nat → Nat → List UInt8
  | 0, _ => []
  | width + 1, n => UInt8.ofNat (n % 256) :: leBytes width (n / 256)

/-- Reads as many bytes as the width says, the least significant first. -/
def readLe : Nat → Reader Nat
  | 0, input => some (0, input)
  | _ + 1, [] => none
  | width + 1, byte :: input =>
    (readLe width input).map fun (n, rest) => (byte.toNat + 256 * n, rest)

@[simp] theorem length_leBytes (width n : Nat) : (leBytes width n).length = width := by
  induction width generalizing n with
  | zero => rfl
  | succ width ih => rw [leBytes, List.length_cons, ih]

theorem readLe_leBytes (width n : Nat) (h : n < 256 ^ width) (rest : List UInt8) :
    readLe width (leBytes width n ++ rest) = some (n, rest) := by
  induction width generalizing n with
  | zero =>
    obtain rfl : n = 0 := by simpa using h
    rfl
  | succ width ih =>
    have hhigh : n / 256 < 256 ^ width := by
      rw [Nat.pow_succ'] at h
      exact Nat.div_lt_of_lt_mul h
    have hlow : (UInt8.ofNat (n % 256)).toNat = n % 256 := by simp
    simp only [leBytes, List.cons_append, readLe, ih _ hhigh, Option.map_some, hlow,
      Nat.mod_add_div]

def utf8Bytes (s : String) : List UInt8 := s.toUTF8.data.toList

def textOfUtf8 (bytes : List UInt8) : Option String := String.fromUTF8? ⟨bytes.toArray⟩

theorem length_utf8Bytes (s : String) : (utf8Bytes s).length = s.utf8ByteSize := by
  simp [utf8Bytes]

theorem textOfUtf8_utf8Bytes (s : String) : textOfUtf8 (utf8Bytes s) = some s := by
  simp [textOfUtf8, utf8Bytes, String.fromUTF8?, String.fromUTF8, s.isValidUTF8]

theorem length_of_readLe {width n : Nat} {input rest : List UInt8}
    (h : readLe width input = some (n, rest)) : input.length = width + rest.length := by
  induction width generalizing input n with
  | zero =>
    obtain ⟨-, rfl⟩ := Prod.mk.inj (Option.some.inj h)
    exact (Nat.zero_add _).symm
  | succ width ih =>
    cases input with
    | nil => cases h
    | cons byte input =>
      obtain ⟨⟨high, rest'⟩, hread, heq⟩ := Option.map_eq_some_iff.mp h
      obtain ⟨-, rfl⟩ := Prod.mk.inj heq
      rw [List.length_cons, ih hread]
      omega

namespace Codec

variable {α β : Type*} {c : Codec α} {a : α} {bytes extra : List UInt8}

/-- The value has an encoding. -/
def Writes (c : Codec α) (a : α) : Prop := ∃ bytes, c.encode a = some bytes

/-- Reads one value that takes up the whole input. -/
def decodeAll (c : Codec α) (input : List UInt8) : Option α :=
  match c.decode input with
  | some (a, []) => some a
  | _ => none

theorem decode_encode (h : c.encode a = some bytes) : c.decode bytes = some (a, []) := by
  have happend := c.decode_append h []
  rwa [List.append_nil] at happend

theorem decodeAll_encode (h : c.encode a = some bytes) : c.decodeAll bytes = some a := by
  rw [decodeAll, decode_encode h]

/-- What is written says where it ends. -/
theorem encode_append_inj {a' : α} {bytes' rest rest' : List UInt8} (h : c.encode a = some bytes)
    (h' : c.encode a' = some bytes') (heq : bytes ++ rest = bytes' ++ rest') :
    a = a' ∧ rest = rest' := by
  have hread := c.decode_append h rest
  rw [heq, c.decode_append h' rest'] at hread
  obtain ⟨ha, hrest⟩ := Prod.mk.inj (Option.some.inj hread)
  exact ⟨ha.symm, hrest.symm⟩

/-- Bytes after the value are not accepted. -/
theorem decodeAll_append (h : c.encode a = some bytes) (hextra : extra ≠ []) :
    c.decodeAll (bytes ++ extra) = none := by
  obtain ⟨byte, extra, rfl⟩ := List.exists_cons_of_ne_nil hextra
  rw [decodeAll, c.decode_append h]

/-- Changes the type of the values; reading may refuse some. -/
def imap (c : Codec α) (f : α → Option β) (g : β → α) (h : ∀ b, f (g b) = some b) : Codec β where
  encode b := c.encode (g b)
  decode input := (c.decode input).bind fun (a, rest) => (f a).map (·, rest)
  decode_append hb rest := by simp only [c.decode_append hb, Option.bind_some, h, Option.map_some]

def unit : Codec Unit where
  encode _ := some []
  decode input := some ((), input)
  decode_append h rest := by
    obtain rfl := Option.some.inj h
    rfl

def pair (c : Codec α) (d : Codec β) : Codec (α × β) where
  encode p := (c.encode p.1).bind fun first => (d.encode p.2).map (first ++ ·)
  decode := c.decode.both d.decode
  decode_append {p bytes} h rest := by
    obtain ⟨first, hfirst, h⟩ := Option.bind_eq_some_iff.mp h
    obtain ⟨second, hsecond, rfl⟩ := Option.map_eq_some_iff.mp h
    simp only [Reader.both, List.append_assoc, c.decode_append hfirst, Option.bind_some,
      d.decode_append hsecond, Option.map_some]

theorem exists_of_encode_pair {d : Codec β} {p : α × β} (h : (c.pair d).encode p = some bytes) :
    ∃ first second, c.encode p.1 = some first ∧ d.encode p.2 = some second ∧
      first ++ second = bytes := by
  obtain ⟨first, hfirst, h⟩ := Option.bind_eq_some_iff.mp h
  obtain ⟨second, hsecond, rfl⟩ := Option.map_eq_some_iff.mp h
  exact ⟨first, second, hfirst, hsecond, rfl⟩

/-- A value whose shape depends on the one before it. -/
def sigma {ι : Type*} {β : ι → Type*} (c : Codec ι) (d : ∀ i, Codec (β i)) :
    Codec (Σ i, β i) where
  encode p := (c.encode p.1).bind fun first => ((d p.1).encode p.2).map (first ++ ·)
  decode input := (c.decode input).bind fun (i, rest) =>
    ((d i).decode rest).map fun (b, rest) => (⟨i, b⟩, rest)
  decode_append {p bytes} h rest := by
    obtain ⟨first, hfirst, h⟩ := Option.bind_eq_some_iff.mp h
    obtain ⟨second, hsecond, rfl⟩ := Option.map_eq_some_iff.mp h
    simp only [List.append_assoc, c.decode_append hfirst, Option.bind_some,
      (d p.1).decode_append hsecond, Option.map_some]

/-- Bytes as they are, as many as the reader expects. -/
def raw (n : Nat) : Codec (Vector UInt8 n) where
  encode v := some v.toList
  decode input := if h : n ≤ input.length then
      some (⟨(input.take n).toArray, by simpa using h⟩, input.drop n)
    else none
  decode_append {v bytes} h rest := by
    obtain rfl := Option.some.inj h
    have hle : n ≤ (v.toList ++ rest).length := by simp
    rw [dif_pos hle]
    congr 2
    · apply Vector.toList_inj.mp
      simp
    · simp

def byte : Codec UInt8 where
  encode byte := some [byte]
  decode
    | [] => none
    | byte :: rest => some (byte, rest)
  decode_append {byte bytes} h rest := by
    obtain rfl := Option.some.inj h
    rfl

/-- A number in so many bytes, the least significant first. -/
def uint (width : Nat) : Codec Nat where
  encode n := if n < 256 ^ width then some (leBytes width n) else none
  decode := readLe width
  decode_append {n bytes} h rest := by
    obtain ⟨hlt, h⟩ := Option.ite_none_right_eq_some.mp h
    obtain rfl := Option.some.inj h
    exact readLe_leBytes width n hlt rest

/-- A number in so many bytes, the most significant first. -/
def uintBe (width : Nat) : Codec Nat where
  encode n := if n < 256 ^ width then some (leBytes width n).reverse else none
  decode input := if width ≤ input.length then
      (readLe width (input.take width).reverse).map fun (n, _) => (n, input.drop width)
    else none
  decode_append {n bytes} h rest := by
    obtain ⟨hlt, h⟩ := Option.ite_none_right_eq_some.mp h
    obtain rfl := Option.some.inj h
    have hlength : (leBytes width n).reverse.length = width := by simp
    have hle : width ≤ ((leBytes width n).reverse ++ rest).length := by simp
    have hread := readLe_leBytes width n hlt []
    rw [List.append_nil] at hread
    rw [if_pos hle, List.take_left' hlength, List.drop_left' hlength, List.reverse_reverse, hread]
    rfl

def encodeList (c : Codec α) : List α → Option (List UInt8)
  | [] => some []
  | a :: l => (c.encode a).bind fun bytes => (c.encodeList l).map (bytes ++ ·)

theorem times_encodeList {l : List α} (h : c.encodeList l = some bytes)
    (rest : List UInt8) : c.decode.times l.length (bytes ++ rest) = some (l, rest) := by
  induction l generalizing bytes with
  | nil =>
    obtain rfl := Option.some.inj h
    rfl
  | cons a l ih =>
    obtain ⟨first, hfirst, h⟩ := Option.bind_eq_some_iff.mp h
    obtain ⟨others, hothers, rfl⟩ := Option.map_eq_some_iff.mp h
    simp only [List.append_assoc, List.length_cons, Reader.times, c.decode_append hfirst,
      Option.bind_some, ih hothers, Option.map_some]

/-- As many values with the same encodings are the same values. -/
theorem encodeList_inj {l l' : List α} (h : c.encodeList l = some bytes)
    (h' : c.encodeList l' = some bytes) (hlength : l.length = l'.length) : l = l' := by
  have hread := times_encodeList h []
  rw [hlength, times_encodeList h' []] at hread
  exact (Prod.mk.inj (Option.some.inj hread)).1.symm

theorem encodeList_byte (bytes : List UInt8) : byte.encodeList bytes = some bytes := by
  induction bytes with
  | nil => rfl
  | cons first bytes ih =>
    rw [encodeList, ih]
    rfl

theorem times_byte (bytes rest : List UInt8) :
    byte.decode.times bytes.length (bytes ++ rest) = some (bytes, rest) :=
  times_encodeList (encodeList_byte bytes) rest

theorem length_of_times_byte {n : Nat} {input bytes rest : List UInt8}
    (h : byte.decode.times n input = some (bytes, rest)) :
    input.length = bytes.length + rest.length := by
  induction n generalizing input bytes with
  | zero =>
    obtain ⟨rfl, rfl⟩ := Prod.mk.inj (Option.some.inj h)
    rw [List.length_nil, Nat.zero_add]
  | succ n ih =>
    cases input with
    | nil => cases h
    | cons first input =>
      obtain ⟨⟨others, rest'⟩, hothers, hbytes⟩ := Option.map_eq_some_iff.mp h
      obtain ⟨rfl, rfl⟩ := Prod.mk.inj hbytes
      rw [List.length_cons, List.length_cons, ih hothers]
      omega

/-- Values in a row behind their number. -/
def list (count : Codec Nat) (c : Codec α) : Codec (List α) where
  encode l := (count.encode l.length).bind fun first => (c.encodeList l).map (first ++ ·)
  decode input := (count.decode input).bind fun (n, rest) => c.decode.times n rest
  decode_append {l bytes} h rest := by
    obtain ⟨first, hfirst, h⟩ := Option.bind_eq_some_iff.mp h
    obtain ⟨second, hsecond, rfl⟩ := Option.map_eq_some_iff.mp h
    simp only [List.append_assoc, count.decode_append hfirst, Option.bind_some,
      times_encodeList hsecond]

theorem exists_of_encode_bytes {count : Codec Nat} {l : List UInt8}
    (h : (list count byte).encode l = some bytes) :
    ∃ first, count.encode l.length = some first ∧ first ++ l = bytes := by
  obtain ⟨first, hfirst, h⟩ := Option.bind_eq_some_iff.mp h
  rw [encodeList_byte, Option.map_some] at h
  exact ⟨first, hfirst, Option.some.inj h⟩

theorem Writes.pair {d : Codec β} {p : α × β} (hfirst : c.Writes p.1) (hsecond : d.Writes p.2) :
    (c.pair d).Writes p := by
  obtain ⟨first, hfirst⟩ := hfirst
  obtain ⟨second, hsecond⟩ := hsecond
  refine ⟨first ++ second, ?_⟩
  simp only [Codec.pair, hfirst, Option.bind_some, hsecond, Option.map_some]

theorem Writes.sigma {ι : Type*} {β : ι → Type*} {c : Codec ι} {d : ∀ i, Codec (β i)}
    {p : Σ i, β i} (hfirst : c.Writes p.1) (hsecond : (d p.1).Writes p.2) :
    (c.sigma d).Writes p := by
  obtain ⟨first, hfirst⟩ := hfirst
  obtain ⟨second, hsecond⟩ := hsecond
  refine ⟨first ++ second, ?_⟩
  simp only [Codec.sigma, hfirst, Option.bind_some, hsecond, Option.map_some]

theorem writes_uint {width n : Nat} (h : n < 256 ^ width) : (uint width).Writes n :=
  ⟨leBytes width n, if_pos h⟩

theorem writes_uintBe {width n : Nat} (h : n < 256 ^ width) : (uintBe width).Writes n :=
  ⟨(leBytes width n).reverse, if_pos h⟩

theorem writes_byte (byte : UInt8) : Codec.byte.Writes byte := ⟨[byte], rfl⟩

theorem exists_encodeList {l : List α} (h : ∀ a ∈ l, c.Writes a) :
    ∃ bytes, c.encodeList l = some bytes := by
  induction l with
  | nil => exact ⟨[], rfl⟩
  | cons a l ih =>
    obtain ⟨first, hfirst⟩ := h a List.mem_cons_self
    obtain ⟨others, hothers⟩ := ih fun b hb => h b (List.mem_cons_of_mem a hb)
    refine ⟨first ++ others, ?_⟩
    simp only [encodeList, hfirst, Option.bind_some, hothers, Option.map_some]

theorem writes_list {count : Codec Nat} {l : List α} (hcount : count.Writes l.length)
    (h : ∀ a ∈ l, c.Writes a) : (list count c).Writes l := by
  obtain ⟨first, hfirst⟩ := hcount
  obtain ⟨second, hsecond⟩ := exists_encodeList h
  refine ⟨first ++ second, ?_⟩
  simp only [list, hfirst, Option.bind_some, hsecond, Option.map_some]

/-- A text as UTF-8 behind the number of its bytes. -/
def text (count : Codec Nat) : Codec String :=
  (list count byte).imap textOfUtf8 utf8Bytes textOfUtf8_utf8Bytes

theorem writes_text {count : Codec Nat} {s : String} (h : count.Writes s.utf8ByteSize) :
    (text count).Writes s := by
  apply writes_list
  · rwa [length_utf8Bytes]
  · exact fun byte _ => writes_byte byte

end Codec

end Shelly
