import Mathlib.Algebra.Group.Nat.Defs
import Mathlib.Data.List.GetD
import Mathlib.Data.List.Induction
import Mathlib.Data.List.TakeDrop
import Mathlib.Data.String.Basic

namespace Shelly

namespace Radix

/-- The lowest bits of a number, the most significant first. -/
def bits : Nat → Nat → List Bool
  | 0, _ => []
  | width + 1, n => bits width (n / 2) ++ [n % 2 == 1]

def ofBits (l : List Bool) : Nat := l.foldl (fun n b => 2 * n + b.toNat) 0

/-- So many groups of bits. Where the bits end, zeros follow. -/
def chunks (width : Nat) : Nat → List Bool → List (List Bool)
  | 0, _ => []
  | count + 1, l => l.takeD width false :: chunks width count (l.drop width)

def bytesToBits (bytes : List UInt8) : List Bool := bytes.flatMap fun byte => bits 8 byte.toNat

def bitsToBytes (count : Nat) (l : List Bool) : List UInt8 :=
  (chunks 8 count l).map fun chunk => UInt8.ofNat (ofBits chunk)

/-- The bits of the bytes in groups, the last group filled up with zeros. -/
def encodeDigits (width : Nat) (bytes : List UInt8) : List Nat :=
  (chunks width ((8 * bytes.length + (width - 1)) / width) (bytesToBits bytes)).map ofBits

/-- Reads back whole bytes. The bits behind them are fewer than a group and all zero. -/
def decodeDigits (width : Nat) (digits : List Nat) : Option (List UInt8) :=
  let l := digits.flatMap (bits width)
  let unused := l.drop (8 * (l.length / 8))
  if unused.length < width ∧ unused.all (!·) then some (bitsToBytes (l.length / 8) l) else none

section Bits

variable {width n : Nat} {l l' : List Bool}

@[simp] theorem length_bits (width n : Nat) : (bits width n).length = width := by
  induction width generalizing n with
  | zero => rfl
  | succ width ih => simp [bits, ih]

theorem ofBits_concat (l : List Bool) (b : Bool) : ofBits (l ++ [b]) = 2 * ofBits l + b.toNat := by
  simp [ofBits]

theorem ofBits_bits (h : n < 2 ^ width) : ofBits (bits width n) = n := by
  induction width generalizing n with
  | zero =>
    obtain rfl : n = 0 := by simpa using h
    rfl
  | succ width ih =>
    have hhigh : n / 2 < 2 ^ width := by
      rw [Nat.pow_succ] at h
      omega
    rw [bits, ofBits_concat, ih hhigh]
    rcases Nat.mod_two_eq_zero_or_one n with hn | hn <;> simp [hn] <;> omega

theorem bits_ofBits (l : List Bool) : bits l.length (ofBits l) = l := by
  induction l using List.reverseRecOn with
  | nil => rfl
  | append_singleton l b ih =>
    have hhigh : (2 * ofBits l + b.toNat) / 2 = ofBits l := by
      have hb : b.toNat ≤ 1 := by cases b <;> simp
      omega
    have hlow : ((2 * ofBits l + b.toNat) % 2 == 1) = b := by
      cases b <;> simp [Nat.add_mod]
    rw [List.length_append, List.length_singleton, bits, ofBits_concat, hhigh, hlow, ih]

theorem ofBits_lt (l : List Bool) : ofBits l < 2 ^ l.length := by
  induction l using List.reverseRecOn with
  | nil => exact Nat.one_pos
  | append_singleton l b ih =>
    have hb : b.toNat ≤ 1 := by cases b <;> simp
    rw [ofBits_concat, List.length_append, List.length_singleton, Nat.pow_succ]
    omega

end Bits

section Chunks

variable {width count : Nat} {l : List Bool} {groups groups' : List (List Bool)}

theorem length_chunks (width count : Nat) (l : List Bool) :
    (chunks width count l).length = count := by
  induction count generalizing l with
  | zero => rfl
  | succ count ih => rw [chunks, List.length_cons, ih]

theorem length_of_mem_chunks {group : List Bool} (h : group ∈ chunks width count l) :
    group.length = width := by
  induction count generalizing l with
  | zero => cases h
  | succ count ih =>
    rcases List.mem_cons.mp h with rfl | h
    · exact List.takeD_length width l false
    · exact ih h

theorem takeD_add {α : Type*} (n m : Nat) (l : List α) (a : α) :
    l.takeD (n + m) a = l.takeD n a ++ (l.drop n).takeD m a := by
  induction n generalizing l with
  | zero => rw [Nat.zero_add, List.takeD_zero, List.nil_append, List.drop_zero]
  | succ n ih =>
    rw [Nat.succ_add, List.takeD_succ, List.takeD_succ, ih, List.cons_append]
    cases l <;> simp

/-- The groups hold the bits in order. -/
theorem flatten_chunks (width count : Nat) (l : List Bool) :
    (chunks width count l).flatten = l.takeD (width * count) false := by
  induction count generalizing l with
  | zero => rfl
  | succ count ih => rw [chunks, List.flatten_cons, ih, Nat.mul_succ, Nat.add_comm, takeD_add]

/-- Groups of one length are cut apart in one way. -/
theorem eq_of_flatten (h : ∀ group ∈ groups, group.length = width)
    (h' : ∀ group ∈ groups', group.length = width) (hcount : groups.length = groups'.length)
    (heq : groups.flatten = groups'.flatten) : groups = groups' := by
  induction groups generalizing groups' with
  | nil => exact (List.eq_nil_of_length_eq_zero hcount.symm).symm
  | cons group groups ih =>
    cases groups' with
    | nil => cases hcount
    | cons group' groups' =>
      have hgroup := h group List.mem_cons_self
      have hgroup' := h' group' List.mem_cons_self
      obtain ⟨rfl, hrest⟩ := List.append_inj heq (hgroup.trans hgroup'.symm)
      have hgroups := ih (fun g hg => h g (List.mem_cons_of_mem _ hg))
        (fun g hg => h' g (List.mem_cons_of_mem _ hg)) (Nat.succ.inj hcount) hrest
      rw [hgroups]

theorem length_flatten_of_forall (h : ∀ group ∈ groups, group.length = width) :
    groups.flatten.length = width * groups.length := by
  induction groups with
  | nil => rfl
  | cons group groups ih =>
    rw [List.flatten_cons, List.length_append, h group List.mem_cons_self,
      ih fun g hg => h g (List.mem_cons_of_mem _ hg), List.length_cons, Nat.mul_succ, Nat.add_comm]

/-- Cutting is the inverse of joining. -/
theorem chunks_flatten (h : ∀ group ∈ groups, group.length = width) :
    chunks width groups.length groups.flatten = groups := by
  have hlength := length_flatten_of_forall h
  apply eq_of_flatten (fun group hgroup => length_of_mem_chunks hgroup) h
    (length_chunks width groups.length groups.flatten)
  rw [flatten_chunks, ← hlength, List.takeD_eq_take false (Nat.le_refl _), List.take_length]

end Chunks

section Digits

variable {width : Nat} {bytes : List UInt8} {digits : List Nat}

theorem takeD_of_length_le {α : Type*} {n : Nat} {l : List α} (a : α) (h : l.length ≤ n) :
    l.takeD n a = l ++ List.replicate (n - l.length) a := by
  obtain ⟨m, rfl⟩ := Nat.exists_eq_add_of_le h
  rw [takeD_add, List.takeD_eq_take a (Nat.le_refl _), List.take_length, List.drop_length,
    List.takeD_nil, Nat.add_sub_cancel_left]

@[simp] theorem length_bytesToBits (bytes : List UInt8) :
    (bytesToBits bytes).length = 8 * bytes.length := by
  induction bytes with
  | nil => rfl
  | cons byte bytes ih =>
    rw [bytesToBits, List.flatMap_cons, List.length_append, length_bits, List.length_cons]
    rw [bytesToBits] at ih
    omega

theorem bitsToBytes_append (bytes : List UInt8) (rest : List Bool) :
    bitsToBytes bytes.length (bytesToBits bytes ++ rest) = bytes := by
  induction bytes with
  | nil => rfl
  | cons byte bytes ih =>
    have hbits : bytesToBits (byte :: bytes) ++ rest =
        bits 8 byte.toNat ++ (bytesToBits bytes ++ rest) := by
      simp only [bytesToBits, List.flatMap_cons, List.append_assoc]
    have hbyte : ofBits (bits 8 byte.toNat) = byte.toNat := ofBits_bits byte.toNat_lt
    rw [bitsToBytes] at ih
    rw [bitsToBytes, List.length_cons, chunks, hbits, List.takeD_left' (length_bits 8 _),
      List.drop_left' (length_bits 8 _), List.map_cons, ih, hbyte, UInt8.ofNat_toNat]

theorem bytesToBits_bitsToBytes {count : Nat} {l : List Bool} (h : 8 * count ≤ l.length) :
    bytesToBits (bitsToBytes count l) = l.take (8 * count) := by
  have hbits : ∀ group ∈ chunks 8 count l, bits 8 (UInt8.ofNat (ofBits group)).toNat = group := by
    intro group hgroup
    have hlength := length_of_mem_chunks hgroup
    have hlt := ofBits_lt group
    rw [hlength] at hlt
    have hbyte : (UInt8.ofNat (ofBits group)).toNat = ofBits group :=
      Nat.mod_eq_of_lt hlt
    rw [hbyte]
    conv_lhs => rw [← hlength, bits_ofBits]
  rw [bytesToBits, bitsToBytes, List.flatMap_map, List.flatMap_def, List.map_congr_left hbits,
    List.map_id', flatten_chunks, List.takeD_eq_take false h]

/-- The digits stand for the bits of the bytes and zeros behind them. -/
theorem flatMap_encodeDigits (hwidth : 0 < width) (bytes : List UInt8) :
    ∃ zeros, zeros < width ∧ (encodeDigits width bytes).flatMap (bits width) =
      bytesToBits bytes ++ List.replicate zeros false := by
  have hdivision := Nat.div_add_mod (8 * bytes.length + (width - 1)) width
  have hremainder := Nat.mod_lt (8 * bytes.length + (width - 1)) hwidth
  refine ⟨width * ((8 * bytes.length + (width - 1)) / width) - 8 * bytes.length, by omega, ?_⟩
  have hbits : ∀ group ∈ chunks width ((8 * bytes.length + (width - 1)) / width)
      (bytesToBits bytes), bits width (ofBits group) = group := by
    intro group hgroup
    conv_lhs => rw [← length_of_mem_chunks hgroup, bits_ofBits]
  rw [encodeDigits, List.flatMap_map, List.flatMap_def, List.map_congr_left hbits,
    List.map_id', flatten_chunks, takeD_of_length_le, length_bytesToBits]
  rw [length_bytesToBits]
  omega

/-- What is encoded is decoded again. -/
theorem decodeDigits_encodeDigits (hwidth : 0 < width) (hbyte : width ≤ 8) (bytes : List UInt8) :
    decodeDigits width (encodeDigits width bytes) = some bytes := by
  obtain ⟨zeros, hzeros, hbits⟩ := flatMap_encodeDigits hwidth bytes
  have hcount : (bytesToBits bytes ++ List.replicate zeros false).length / 8 = bytes.length := by
    rw [List.length_append, length_bytesToBits, List.length_replicate]
    omega
  have hunused : (bytesToBits bytes ++ List.replicate zeros false).drop (8 * bytes.length) =
      List.replicate zeros false := List.drop_left' (length_bytesToBits bytes)
  simp only [decodeDigits, hbits, hcount, hunused, bitsToBytes_append]
  rw [if_pos]
  exact ⟨by simpa using hzeros, by simp⟩

theorem length_flatMap_bits (width : Nat) (digits : List Nat) :
    (digits.flatMap (bits width)).length = width * digits.length := by
  induction digits with
  | nil => rfl
  | cons digit digits ih =>
    rw [List.flatMap_cons, List.length_append, length_bits, ih, List.length_cons, Nat.mul_succ,
      Nat.add_comm]

/-- Only what encodes the bytes is decoded to them. -/
theorem encodeDigits_of_decodeDigits (hdigits : ∀ digit ∈ digits, digit < 2 ^ width)
    (h : decodeDigits width digits = some bytes) : encodeDigits width bytes = digits := by
  obtain ⟨⟨hunused, hzero⟩, hbytes⟩ := Option.ite_none_right_eq_some.mp h
  obtain rfl := Option.some.inj hbytes
  have hlength := length_flatMap_bits width digits
  generalize hl : digits.flatMap (bits width) = l at *
  rw [List.length_drop] at hunused
  have hle : 8 * (l.length / 8) ≤ l.length := Nat.mul_div_le l.length 8
  have hcount : (8 * (l.length / 8) + (width - 1)) / width = digits.length := by
    apply Nat.div_eq_of_lt_le
    · rw [Nat.mul_comm digits.length]
      omega
    · rw [Nat.add_mul, Nat.mul_comm digits.length]
      omega
  have hbits : l.take (8 * (l.length / 8)) ++
      List.replicate (width * digits.length - 8 * (l.length / 8)) false = l := by
    have hzeros : l.drop (8 * (l.length / 8)) =
        List.replicate (width * digits.length - 8 * (l.length / 8)) false := by
      apply List.eq_replicate_iff.mpr
      refine ⟨by rw [List.length_drop, hlength], fun b hb => ?_⟩
      simpa using List.all_eq_true.mp hzero b hb
    rw [← hzeros, List.take_append_drop]
  have hchunks : chunks width digits.length (l.take (8 * (l.length / 8))) =
      digits.map (bits width) := by
    apply eq_of_flatten (fun group hgroup => length_of_mem_chunks hgroup)
    · intro group hgroup
      obtain ⟨digit, -, rfl⟩ := List.mem_map.mp hgroup
      exact length_bits width digit
    · rw [length_chunks, List.length_map]
    · rw [flatten_chunks, takeD_of_length_le, List.length_take, Nat.min_eq_left hle, hbits, ← hl,
        List.flatMap_def]
      rw [List.length_take, Nat.min_eq_left hle]
      omega
  have hread : ∀ digit ∈ digits, ofBits (bits width digit) = digit :=
    fun digit hdigit => ofBits_bits (hdigits digit hdigit)
  have hsize : (bitsToBytes (l.length / 8) l).length = l.length / 8 := by
    rw [bitsToBytes, List.length_map, length_chunks]
  rw [encodeDigits, hsize, hcount, bytesToBits_bitsToBytes hle, hchunks, List.map_map]
  exact (List.map_congr_left hread).trans (List.map_id' digits)

end Digits

/-- The characters that stand for the groups of bits. -/
structure Alphabet where
  width : Nat
  symbols : List Char
  length_symbols : symbols.length = 2 ^ width
  nodup : symbols.Nodup
  width_pos : 0 < width
  width_le : width ≤ 8

namespace Alphabet

variable (a : Alphabet)

def symbol (digit : Nat) : Char := a.symbols.getD digit ' '

def encode (bytes : List UInt8) : List Char := (encodeDigits a.width bytes).map a.symbol

def decode (text : List Char) : Option (List UInt8) :=
  if text.all a.symbols.contains then decodeDigits a.width (text.map (a.symbols.idxOf ·)) else none

variable {a} {bytes : List UInt8} {text : List Char} {digit : Nat}

theorem symbol_eq_getElem (h : digit < a.symbols.length) : a.symbol digit = a.symbols[digit] :=
  List.getD_eq_getElem _ _ h

theorem symbol_mem (h : digit < 2 ^ a.width) : a.symbol digit ∈ a.symbols := by
  rw [← a.length_symbols] at h
  rw [symbol_eq_getElem h]
  exact List.getElem_mem h

theorem idxOf_symbol (h : digit < 2 ^ a.width) : a.symbols.idxOf (a.symbol digit) = digit := by
  rw [← a.length_symbols] at h
  rw [symbol_eq_getElem h]
  exact a.nodup.idxOf_getElem digit h

theorem symbol_idxOf {c : Char} (h : c ∈ a.symbols) : a.symbol (a.symbols.idxOf c) = c := by
  rw [symbol_eq_getElem (List.idxOf_lt_length_of_mem h)]
  exact List.getElem_idxOf (List.idxOf_lt_length_of_mem h)

theorem lt_of_mem_encodeDigits (h : digit ∈ encodeDigits a.width bytes) : digit < 2 ^ a.width := by
  obtain ⟨group, hgroup, rfl⟩ := List.mem_map.mp h
  have hlt := ofBits_lt group
  rwa [length_of_mem_chunks hgroup] at hlt

theorem mem_symbols_of_mem_encode {c : Char} (h : c ∈ a.encode bytes) : c ∈ a.symbols := by
  obtain ⟨digit, hdigit, rfl⟩ := List.mem_map.mp h
  exact symbol_mem (lt_of_mem_encodeDigits hdigit)

theorem decode_encode (bytes : List UInt8) : a.decode (a.encode bytes) = some bytes := by
  have hall : (a.encode bytes).all a.symbols.contains = true := by
    apply List.all_eq_true.mpr
    intro c hc
    exact List.contains_iff_mem.mpr (mem_symbols_of_mem_encode hc)
  have hread : ∀ digit ∈ encodeDigits a.width bytes,
      a.symbols.idxOf (a.symbol digit) = digit :=
    fun digit hdigit => idxOf_symbol (lt_of_mem_encodeDigits hdigit)
  have hdigits : (a.encode bytes).map (a.symbols.idxOf ·) = encodeDigits a.width bytes := by
    rw [encode, List.map_map]
    exact (List.map_congr_left hread).trans (List.map_id' _)
  rw [decode, if_pos hall, hdigits, decodeDigits_encodeDigits a.width_pos a.width_le]

/-- A text is decoded only to the bytes it encodes. -/
theorem encode_of_decode (h : a.decode text = some bytes) : a.encode bytes = text := by
  obtain ⟨hall, hdecode⟩ := Option.ite_none_right_eq_some.mp h
  have hmem : ∀ c ∈ text, c ∈ a.symbols :=
    fun c hc => List.contains_iff_mem.mp (List.all_eq_true.mp hall c hc)
  have hdigits : ∀ digit ∈ text.map (a.symbols.idxOf ·), digit < 2 ^ a.width := by
    intro digit hdigit
    obtain ⟨c, hc, rfl⟩ := List.mem_map.mp hdigit
    rw [← a.length_symbols]
    exact List.idxOf_lt_length_of_mem (hmem c hc)
  have hread : ∀ c ∈ text, a.symbol (a.symbols.idxOf c) = c := fun c hc => symbol_idxOf (hmem c hc)
  rw [encode, encodeDigits_of_decodeDigits hdigits hdecode, List.map_map]
  exact (List.map_congr_left hread).trans (List.map_id' text)

end Alphabet

theorem chunks_add (width n m : Nat) (l : List Bool) :
    chunks width (n + m) l = chunks width n l ++ chunks width m (l.drop (width * n)) := by
  induction n generalizing l with
  | zero => rw [Nat.zero_add, Nat.mul_zero, List.drop_zero, chunks, List.nil_append]
  | succ n ih =>
    rw [Nat.succ_add, chunks, ih, chunks, List.cons_append, List.drop_drop, Nat.mul_succ,
      Nat.add_comm width]

/-- The alphabet of base64. -/
def base64 : Alphabet where
  width := 6
  symbols := "ABCDEFGHIJKLMNOPQRSTUVWXYZabcdefghijklmnopqrstuvwxyz0123456789+/".toList
  length_symbols := by decide
  nodup := by decide
  width_pos := by decide
  width_le := by decide

/-- The alphabet of base32. -/
def base32 : Alphabet where
  width := 5
  symbols := "ABCDEFGHIJKLMNOPQRSTUVWXYZ234567".toList
  length_symbols := by decide
  nodup := by decide
  width_pos := by decide
  width_le := by decide

/-- The alphabet of hexadecimal text in lower case. -/
def hexLower : Alphabet where
  width := 4
  symbols := "0123456789abcdef".toList
  length_symbols := by decide
  nodup := by decide
  width_pos := by decide
  width_le := by decide

/-- The alphabet of hexadecimal text in upper case. -/
def hexUpper : Alphabet where
  width := 4
  symbols := "0123456789ABCDEF".toList
  length_symbols := by decide
  nodup := by decide
  width_pos := by decide
  width_le := by decide

/-- Fills a text up to whole quanta of four characters. -/
def padding (length : Nat) : List Char := List.replicate ((4 - length % 4) % 4) '='

def base64Encode (bytes : List UInt8) : String :=
  String.ofList (base64.encode bytes ++ padding (base64.encode bytes).length)

/-- The padding must be as long as it has to be. -/
def base64Decode (s : String) : Option (List UInt8) :=
  let text := s.toList.takeWhile (· ≠ '=')
  if s.toList.drop text.length = padding text.length then base64.decode text else none

def base32Encode (bytes : List UInt8) : String := String.ofList (base32.encode bytes)

def base32Decode (s : String) : Option (List UInt8) := base32.decode s.toList

theorem base32Decode_base32Encode (bytes : List UInt8) :
    base32Decode (base32Encode bytes) = some bytes := by
  rw [base32Decode, base32Encode, String.toList_ofList, Alphabet.decode_encode]

section Base64

variable {bytes : List UInt8} {s : String}

theorem not_pad_of_mem_base64 {c : Char} (h : c ∈ base64.encode bytes) : c ≠ '=' := by
  have hsymbols : base64.symbols.all (· != '=') = true := by decide
  exact bne_iff_ne.mp (List.all_eq_true.mp hsymbols c (Alphabet.mem_symbols_of_mem_encode h))

theorem takeWhile_base64Encode (bytes : List UInt8) :
    (base64Encode bytes).toList.takeWhile (· ≠ '=') = base64.encode bytes := by
  have htext : ∀ c ∈ base64.encode bytes, decide (c ≠ '=') = true :=
    fun c hc => decide_eq_true (not_pad_of_mem_base64 hc)
  rw [base64Encode, String.toList_ofList, List.takeWhile_append_of_pos htext]
  simp [padding]

theorem base64Decode_base64Encode (bytes : List UInt8) :
    base64Decode (base64Encode bytes) = some bytes := by
  have hdrop : (base64Encode bytes).toList.drop (base64.encode bytes).length =
      padding (base64.encode bytes).length := by
    rw [base64Encode, String.toList_ofList, List.drop_left]
  simp only [base64Decode, takeWhile_base64Encode, hdrop, if_true, Alphabet.decode_encode]

/-- A text is decoded only to the bytes it encodes. -/
theorem base64Encode_of_base64Decode (h : base64Decode s = some bytes) :
    base64Encode bytes = s := by
  obtain ⟨hpad, hdecode⟩ := Option.ite_none_right_eq_some.mp h
  have hencode := Alphabet.encode_of_decode hdecode
  rw [base64Encode, hencode, ← hpad,
    List.prefix_iff_eq_append.mp (List.takeWhile_prefix _), String.ofList_toList]

/-- After whole groups of three bytes, one byte more takes two characters, and the second of
them stands for two bits. -/
theorem base64_encode_mod_one (h : bytes.length % 3 = 1) :
    ∃ init last, base64.encode bytes = init ++ [last] ∧ last ∈ ['A', 'Q', 'g', 'w'] ∧
      (init ++ [last]).length % 4 = 2 := by
  obtain ⟨n, hn⟩ : ∃ n, bytes.length = 3 * n + 1 := ⟨bytes.length / 3, by omega⟩
  have hcount : (8 * bytes.length + (6 - 1)) / 6 = (4 * n + 1) + 1 := by omega
  have hrest : ((bytesToBits bytes).drop (6 * (4 * n + 1))).length = 2 := by
    rw [List.length_drop, length_bytesToBits, hn]
    omega
  obtain ⟨b₁, b₂, hbits⟩ := List.length_eq_two.mp hrest
  have hlast : ∀ b₁ b₂ : Bool,
      base64.symbol (ofBits ([b₁, b₂].takeD 6 false)) ∈ ['A', 'Q', 'g', 'w'] := by decide
  refine ⟨((chunks 6 (4 * n + 1) (bytesToBits bytes)).map ofBits).map base64.symbol,
    base64.symbol (ofBits ([b₁, b₂].takeD 6 false)), ?_, hlast b₁ b₂, ?_⟩
  · rw [Alphabet.encode, encodeDigits, show base64.width = 6 from rfl, hcount, chunks_add, hbits]
    simp [chunks]
  · rw [List.length_append, List.length_map, List.length_map, length_chunks,
      List.length_singleton]
    omega

end Base64

end Radix

end Shelly
