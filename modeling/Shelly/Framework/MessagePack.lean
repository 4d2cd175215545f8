import Shelly.Framework.Codec
import Shelly.Framework.Serde

namespace Shelly

/-- A value of MessagePack, without its numbers with a fraction and its extensions. -/
inductive Pack
  | nil
  | bool (b : Bool)
  | int (i : Int)
  | str (s : String)
  | bin (bytes : List UInt8)
  | arr (items : List Pack)
  | map (entries : List (Pack × Pack))

namespace Pack

/-- What stands in front of a value. Texts, bytes, arrays and maps give their length. -/
inductive Head
  | nil
  | bool (b : Bool)
  | int (i : Int)
  | str (n : Nat)
  | bin (n : Nat)
  | arr (n : Nat)
  | map (n : Nat)
  deriving DecidableEq

/-- A marker and the number in so many bytes behind it. -/
structure Form where
  marker : UInt8
  width : Nat
  number : Nat

/-- The first marker whose width is enough. -/
def firstFit (n : Nat) : List (UInt8 × Nat) → Option Form
  | [] => none
  | (marker, width) :: forms =>
    if n < 256 ^ width then some ⟨marker, width, n⟩ else firstFit n forms

/-- The first marker whose width is enough for a negative number in two's complement. -/
def firstSigned (i : Int) : List (UInt8 × Nat) → Option Form
  | [] => none
  | (marker, width) :: forms =>
    if -(256 ^ width : Int) ≤ 2 * i then some ⟨marker, width, (i + 256 ^ width).toNat⟩
    else firstSigned i forms

namespace Head

/-- The shortest form of a head. -/
def form : Head → Option Form
  | nil => some ⟨0xc0, 0, 0⟩
  | bool false => some ⟨0xc2, 0, 0⟩
  | bool true => some ⟨0xc3, 0, 0⟩
  | int (.ofNat n) =>
    if n < 128 then some ⟨.ofNat n, 0, 0⟩
    else firstFit n [(0xcc, 1), (0xcd, 2), (0xce, 4), (0xcf, 8)]
  | int (.negSucc n) =>
    if n < 32 then some ⟨.ofNat (255 - n), 0, 0⟩
    else firstSigned (.negSucc n) [(0xd0, 1), (0xd1, 2), (0xd2, 4), (0xd3, 8)]
  | str n =>
    if n < 32 then some ⟨.ofNat (0xa0 + n), 0, 0⟩
    else firstFit n [(0xd9, 1), (0xda, 2), (0xdb, 4)]
  | bin n => firstFit n [(0xc4, 1), (0xc5, 2), (0xc6, 4)]
  | arr n =>
    if n < 16 then some ⟨.ofNat (0x90 + n), 0, 0⟩ else firstFit n [(0xdc, 2), (0xdd, 4)]
  | map n =>
    if n < 16 then some ⟨.ofNat (0x80 + n), 0, 0⟩ else firstFit n [(0xde, 2), (0xdf, 4)]

def unsigned (n : Nat) : Head := int n

def signed (width n : Nat) : Head :=
  int (if 2 * n < 256 ^ width then n else n - 256 ^ width)

/-- The width behind a marker and the head that a number of this width makes. -/
def meaning (marker : Nat) : Option (Nat × (Nat → Head)) :=
  if marker < 0x80 then some (0, fun _ => unsigned marker)
  else if marker < 0x90 then some (0, fun _ => map (marker - 0x80))
  else if marker < 0xa0 then some (0, fun _ => arr (marker - 0x90))
  else if marker < 0xc0 then some (0, fun _ => str (marker - 0xa0))
  else if 0xe0 ≤ marker then some (0, fun _ => int (marker - 256))
  else match marker with
    | 0xc0 => some (0, fun _ => nil)
    | 0xc2 => some (0, fun _ => bool false)
    | 0xc3 => some (0, fun _ => bool true)
    | 0xc4 => some (1, bin)
    | 0xc5 => some (2, bin)
    | 0xc6 => some (4, bin)
    | 0xcc => some (1, unsigned)
    | 0xcd => some (2, unsigned)
    | 0xce => some (4, unsigned)
    | 0xcf => some (8, unsigned)
    | 0xd0 => some (1, signed 1)
    | 0xd1 => some (2, signed 2)
    | 0xd2 => some (4, signed 4)
    | 0xd3 => some (8, signed 8)
    | 0xd9 => some (1, str)
    | 0xda => some (2, str)
    | 0xdb => some (4, str)
    | 0xdc => some (2, arr)
    | 0xdd => some (4, arr)
    | 0xde => some (2, map)
    | 0xdf => some (4, map)
    | _ => none

/-- The marker of the form and its number tell the head. -/
def Told (h : Head) (f : Form) : Prop :=
  ∃ make, meaning f.marker.toNat = some (f.width, make) ∧ make f.number = h

theorem told_firstFit {n : Nat} (make : Nat → Head) {forms : List (UInt8 × Nat)}
    (hforms : ∀ e ∈ forms, meaning e.1.toNat = some (e.2, make)) {f : Form}
    (hf : firstFit n forms = some f) : (make n).Told f := by
  induction forms with
  | nil => cases hf
  | cons e forms ih =>
    rw [firstFit] at hf
    split_ifs at hf with hlt
    · obtain rfl := Option.some.inj hf
      exact ⟨make, hforms e List.mem_cons_self, rfl⟩
    · exact ih (fun e' he' => hforms e' (List.mem_cons_of_mem e he')) hf

theorem told_firstSigned {i : Int} (hneg : i < 0) {forms : List (UInt8 × Nat)}
    (hforms : ∀ e ∈ forms, meaning e.1.toNat = some (e.2, signed e.2)) {f : Form}
    (hf : firstSigned i forms = some f) : (int i).Told f := by
  induction forms with
  | nil => cases hf
  | cons e forms ih =>
    rw [firstSigned] at hf
    split_ifs at hf with hle
    · obtain rfl := Option.some.inj hf
      have hpow : ((256 ^ e.2 : Nat) : Int) = 256 ^ e.2 := by simp
      rw [← hpow] at hle
      have hnumber : ((i + 256 ^ e.2).toNat : Int) = i + (256 ^ e.2 : Nat) := by
        rw [hpow]
        omega
      refine ⟨signed e.2, hforms e List.mem_cons_self, ?_⟩
      dsimp only [signed]
      rw [if_neg (by omega), hnumber]
      congr 1
      omega
    · exact ih (fun e' he' => hforms e' (List.mem_cons_of_mem e he')) hf

private theorem toNat_ofNat_of_lt {n : Nat} (h : n < 256) : (UInt8.ofNat n).toNat = n := by
  rw [UInt8.toNat_ofNat']
  exact Nat.mod_eq_of_lt h

private theorem told_short {h : Head} {n : Nat} (hn : n < 256)
    (hmeaning : meaning n = some (0, fun _ => h)) : h.Told ⟨.ofNat n, 0, 0⟩ :=
  ⟨fun _ => h, by rw [toNat_ofNat_of_lt hn, hmeaning], rfl⟩

private theorem meaning_negative {n : Nat} (h : n < 32) :
    meaning (255 - n) = some (0, fun _ => int (.negSucc n)) := by
  have hint : ((255 - n : Nat) : Int) - 256 = .negSucc n := by omega
  unfold meaning
  rw [if_neg (by omega), if_neg (by omega), if_neg (by omega), if_neg (by omega),
    if_pos (by omega), hint]

private theorem meaning_map {n : Nat} (h : n < 16) :
    meaning (0x80 + n) = some (0, fun _ => map n) := by
  unfold meaning
  rw [if_neg (by omega), if_pos (by omega), Nat.add_sub_cancel_left]

private theorem meaning_arr {n : Nat} (h : n < 16) :
    meaning (0x90 + n) = some (0, fun _ => arr n) := by
  unfold meaning
  rw [if_neg (by omega), if_neg (by omega), if_pos (by omega), Nat.add_sub_cancel_left]

private theorem meaning_str {n : Nat} (h : n < 32) :
    meaning (0xa0 + n) = some (0, fun _ => str n) := by
  unfold meaning
  rw [if_neg (by omega), if_neg (by omega), if_neg (by omega), if_pos (by omega),
    Nat.add_sub_cancel_left]

/-- The marker and the number of a form tell its head. -/
theorem told_form {h : Head} {f : Form} (hf : h.form = some f) : h.Told f := by
  match h with
  | nil | bool false | bool true =>
    obtain rfl := Option.some.inj hf
    exact ⟨_, rfl, rfl⟩
  | int (.ofNat n) =>
    rw [form] at hf
    split_ifs at hf with hlt
    · obtain rfl := Option.some.inj hf
      exact told_short (by omega) (if_pos hlt)
    · exact told_firstFit unsigned (by simp [meaning]) hf
  | int (.negSucc n) =>
    rw [form] at hf
    split_ifs at hf with hlt
    · obtain rfl := Option.some.inj hf
      exact told_short (by omega) (meaning_negative hlt)
    · exact told_firstSigned (Int.negSucc_lt_zero n) (by simp [meaning]) hf
  | str n =>
    rw [form] at hf
    split_ifs at hf with hlt
    · obtain rfl := Option.some.inj hf
      exact told_short (by omega) (meaning_str hlt)
    · exact told_firstFit str (by simp [meaning]) hf
  | bin n => exact told_firstFit bin (by simp [meaning]) hf
  | arr n =>
    rw [form] at hf
    split_ifs at hf with hlt
    · obtain rfl := Option.some.inj hf
      exact told_short (by omega) (meaning_arr hlt)
    · exact told_firstFit arr (by simp [meaning]) hf
  | map n =>
    rw [form] at hf
    split_ifs at hf with hlt
    · obtain rfl := Option.some.inj hf
      exact told_short (by omega) (meaning_map hlt)
    · exact told_firstFit map (by simp [meaning]) hf

/-- Heads in their shortest form. Longer forms are read too. -/
def codec : Codec Head where
  encode h := h.form.bind fun f => ((Codec.uintBe f.width).encode f.number).map (f.marker :: ·)
  decode
    | [] => none
    | marker :: input => (meaning marker.toNat).bind fun (width, make) =>
      ((Codec.uintBe width).decode input).map fun (n, rest) => (make n, rest)
  decode_append {h bytes} hbytes rest := by
    obtain ⟨f, hf, hbytes⟩ := Option.bind_eq_some_iff.mp hbytes
    obtain ⟨number, hnumber, rfl⟩ := Option.map_eq_some_iff.mp hbytes
    obtain ⟨make, hmeaning, rfl⟩ := told_form hf
    simp only [List.cons_append, hmeaning, Option.bind_some,
      (Codec.uintBe f.width).decode_append hnumber, Option.map_some]

/-- Numbers of 64 bits and lengths of 32 bits can be written. -/
def Small : Head → Prop
  | nil | bool _ => True
  | int i => -2 ^ 63 ≤ i ∧ i < 2 ^ 64
  | str n | bin n | arr n | map n => n < 2 ^ 32

theorem exists_firstFit {n : Nat} {forms : List (UInt8 × Nat)} {e : UInt8 × Nat}
    (he : e ∈ forms) (hlt : n < 256 ^ e.2) :
    ∃ f, firstFit n forms = some f ∧ f.number < 256 ^ f.width := by
  induction forms with
  | nil => cases he
  | cons e' forms ih =>
    rw [firstFit]
    split_ifs with hfirst
    · exact ⟨_, rfl, hfirst⟩
    · rcases List.mem_cons.mp he with rfl | he
      · exact absurd hlt hfirst
      · exact ih he

theorem exists_firstSigned {i : Int} (hneg : i < 0) {forms : List (UInt8 × Nat)}
    {e : UInt8 × Nat} (he : e ∈ forms) (hle : -(256 ^ e.2 : Int) ≤ 2 * i) :
    ∃ f, firstSigned i forms = some f ∧ f.number < 256 ^ f.width := by
  induction forms with
  | nil => cases he
  | cons e' forms ih =>
    rw [firstSigned]
    split_ifs with hfirst
    · refine ⟨_, rfl, ?_⟩
      have hpow : ((256 ^ e'.2 : Nat) : Int) = 256 ^ e'.2 := by simp
      rw [← hpow] at hfirst
      dsimp only
      rw [← hpow]
      omega
    · rcases List.mem_cons.mp he with rfl | he
      · exact absurd hle hfirst
      · exact ih he

theorem exists_form {h : Head} (hsmall : h.Small) :
    ∃ f, h.form = some f ∧ f.number < 256 ^ f.width := by
  match h with
  | nil | bool false | bool true => exact ⟨_, rfl, Nat.one_pos⟩
  | int (.ofNat n) =>
    have hlt : (n : Int) < 2 ^ 64 := hsmall.2
    rw [form]
    split_ifs
    · exact ⟨_, rfl, Nat.one_pos⟩
    · exact exists_firstFit (e := (0xcf, 8)) (by simp) (by dsimp only; omega)
  | int (.negSucc n) =>
    have hle : -2 ^ 63 ≤ Int.negSucc n := hsmall.1
    rw [form]
    split_ifs
    · exact ⟨_, rfl, Nat.one_pos⟩
    · exact exists_firstSigned (Int.negSucc_lt_zero n) (e := (0xd3, 8)) (by simp)
        (by dsimp only; omega)
  | str n =>
    have hlt : n < 2 ^ 32 := hsmall
    rw [form]
    split_ifs
    · exact ⟨_, rfl, Nat.one_pos⟩
    · exact exists_firstFit (e := (0xdb, 4)) (by simp) (by dsimp only; omega)
  | bin n =>
    have hlt : n < 2 ^ 32 := hsmall
    exact exists_firstFit (e := (0xc6, 4)) (by simp) (by dsimp only; omega)
  | arr n =>
    have hlt : n < 2 ^ 32 := hsmall
    rw [form]
    split_ifs
    · exact ⟨_, rfl, Nat.one_pos⟩
    · exact exists_firstFit (e := (0xdd, 4)) (by simp) (by dsimp only; omega)
  | map n =>
    have hlt : n < 2 ^ 32 := hsmall
    rw [form]
    split_ifs
    · exact ⟨_, rfl, Nat.one_pos⟩
    · exact exists_firstFit (e := (0xdf, 4)) (by simp) (by dsimp only; omega)

/-- A small head has an encoding. -/
theorem writes_of_small {h : Head} (hsmall : h.Small) : codec.Writes h := by
  obtain ⟨f, hf, hlt⟩ := exists_form hsmall
  obtain ⟨number, hnumber⟩ := Codec.writes_uintBe hlt
  refine ⟨f.marker :: number, ?_⟩
  simp only [codec, hf, Option.bind_some, hnumber, Option.map_some]

theorem ne_nil_of_encode {h : Head} {bytes : List UInt8} (hbytes : codec.encode h = some bytes) :
    bytes ≠ [] := by
  obtain ⟨f, -, hbytes⟩ := Option.bind_eq_some_iff.mp hbytes
  obtain ⟨number, -, rfl⟩ := Option.map_eq_some_iff.mp hbytes
  exact List.cons_ne_nil _ _

end Head

mutual

def encode : Pack → Option (List UInt8)
  | nil => Head.codec.encode .nil
  | bool b => Head.codec.encode (.bool b)
  | int i => Head.codec.encode (.int i)
  | str s => (Head.codec.encode (.str s.utf8ByteSize)).map (· ++ utf8Bytes s)
  | bin bytes => (Head.codec.encode (.bin bytes.length)).map (· ++ bytes)
  | arr items => (Head.codec.encode (.arr items.length)).bind fun first =>
    (encodeItems items).map (first ++ ·)
  | map entries => (Head.codec.encode (.map entries.length)).bind fun first =>
    (encodeEntries entries).map (first ++ ·)

def encodeItems : List Pack → Option (List UInt8)
  | [] => some []
  | p :: items => (encode p).bind fun first => (encodeItems items).map (first ++ ·)

def encodeEntries : List (Pack × Pack) → Option (List UInt8)
  | [] => some []
  | (key, p) :: entries => (encode key).bind fun first => (encode p).bind fun second =>
    (encodeEntries entries).map (first ++ second ++ ·)

end

/-- What follows a head. The values inside are read by the given reader. -/
def readBody (read : Reader Pack) : Head → Reader Pack
  | .nil, rest => some (nil, rest)
  | .bool b, rest => some (bool b, rest)
  | .int i, rest => some (int i, rest)
  | .str n, rest => (Codec.byte.decode.times n rest).bind fun (bytes, rest) =>
    (textOfUtf8 bytes).map fun s => (str s, rest)
  | .bin n, rest => (Codec.byte.decode.times n rest).map fun (bytes, rest) => (bin bytes, rest)
  | .arr n, rest => (read.times n rest).map fun (items, rest) => (arr items, rest)
  | .map n, rest => ((read.both read).times n rest).map fun (entries, rest) => (map entries, rest)

/-- Reads a value that is not nested more deeply than the fuel. -/
def decode : Nat → Reader Pack
  | 0 => fun _ => none
  | fuel + 1 => fun input => (Head.codec.decode input).bind fun (h, rest) =>
    readBody (decode fuel) h rest

theorem decode_head {h : Head} {first : List UInt8} (hfirst : Head.codec.encode h = some first)
    {fuel : Nat} (hfuel : first.length ≤ fuel) (rest : List UInt8) :
    decode fuel (first ++ rest) = readBody (decode (fuel - 1)) h rest := by
  have hpos := List.length_pos_iff.mpr (Head.ne_nil_of_encode hfirst)
  obtain ⟨fuel, rfl⟩ : ∃ n, fuel = n + 1 := ⟨fuel - 1, by omega⟩
  simp only [decode, Head.codec.decode_append hfirst, Option.bind_some, Nat.add_sub_cancel]

mutual

/-- A level of nesting takes a byte, so as much fuel as there are bytes is enough. -/
theorem decode_append (p : Pack) {bytes : List UInt8} (h : p.encode = some bytes) {fuel : Nat}
    (hfuel : bytes.length ≤ fuel) (rest : List UInt8) :
    decode fuel (bytes ++ rest) = some (p, rest) := by
  match p with
  | nil | bool _ | int _ => exact decode_head h hfuel rest
  | str s =>
    obtain ⟨first, hfirst, rfl⟩ := Option.map_eq_some_iff.mp h
    rw [List.length_append] at hfuel
    rw [List.append_assoc, decode_head hfirst (by omega), readBody, ← length_utf8Bytes,
      Codec.times_byte]
    simp only [Option.bind_some, textOfUtf8_utf8Bytes, Option.map_some]
  | bin bytes =>
    obtain ⟨first, hfirst, rfl⟩ := Option.map_eq_some_iff.mp h
    rw [List.length_append] at hfuel
    rw [List.append_assoc, decode_head hfirst (by omega), readBody, Codec.times_byte,
      Option.map_some]
  | arr items =>
    obtain ⟨first, hfirst, h⟩ := Option.bind_eq_some_iff.mp h
    obtain ⟨second, hsecond, rfl⟩ := Option.map_eq_some_iff.mp h
    rw [List.length_append] at hfuel
    have hpos := List.length_pos_iff.mpr (Head.ne_nil_of_encode hfirst)
    rw [List.append_assoc, decode_head hfirst (by omega), readBody,
      times_append items hsecond (by omega), Option.map_some]
  | map entries =>
    obtain ⟨first, hfirst, h⟩ := Option.bind_eq_some_iff.mp h
    obtain ⟨second, hsecond, rfl⟩ := Option.map_eq_some_iff.mp h
    rw [List.length_append] at hfuel
    have hpos := List.length_pos_iff.mpr (Head.ne_nil_of_encode hfirst)
    rw [List.append_assoc, decode_head hfirst (by omega), readBody,
      times_both_append entries hsecond (by omega), Option.map_some]

theorem times_append (items : List Pack) {bytes : List UInt8} (h : encodeItems items = some bytes)
    {fuel : Nat} (hfuel : bytes.length ≤ fuel) (rest : List UInt8) :
    (decode fuel).times items.length (bytes ++ rest) = some (items, rest) := by
  match items with
  | [] =>
    obtain rfl := Option.some.inj h
    rfl
  | p :: items =>
    obtain ⟨first, hfirst, h⟩ := Option.bind_eq_some_iff.mp h
    obtain ⟨second, hsecond, rfl⟩ := Option.map_eq_some_iff.mp h
    rw [List.length_append] at hfuel
    have hp := decode_append p hfirst (Nat.le_of_add_right_le hfuel) (second ++ rest)
    have hitems := times_append items hsecond (Nat.le_of_add_left_le hfuel) rest
    simp only [List.append_assoc, List.length_cons, Reader.times, hp, Option.bind_some, hitems,
      Option.map_some]

theorem times_both_append (entries : List (Pack × Pack)) {bytes : List UInt8}
    (h : encodeEntries entries = some bytes) {fuel : Nat} (hfuel : bytes.length ≤ fuel)
    (rest : List UInt8) :
    ((decode fuel).both (decode fuel)).times entries.length (bytes ++ rest) =
      some (entries, rest) := by
  match entries with
  | [] =>
    obtain rfl := Option.some.inj h
    rfl
  | (key, p) :: entries =>
    obtain ⟨first, hfirst, h⟩ := Option.bind_eq_some_iff.mp h
    obtain ⟨second, hsecond, h⟩ := Option.bind_eq_some_iff.mp h
    obtain ⟨third, hthird, rfl⟩ := Option.map_eq_some_iff.mp h
    simp only [List.length_append] at hfuel
    have hkey : decode fuel (first ++ (second ++ (third ++ rest))) = some (key, _) :=
      decode_append key hfirst (by omega) _
    have hp : decode fuel (second ++ (third ++ rest)) = some (p, _) :=
      decode_append p hsecond (by omega) _
    have hentries : ((decode fuel).both (decode fuel)).times entries.length (third ++ rest) =
        some (entries, rest) := times_both_append entries hthird (by omega) rest
    have hboth : (decode fuel).both (decode fuel) (first ++ (second ++ (third ++ rest))) =
        some ((key, p), third ++ rest) := by
      simp only [Reader.both, hkey, hp, Option.bind_some, Option.map_some]
    simp only [List.append_assoc, List.length_cons, Reader.times, hboth, Option.bind_some,
      hentries, Option.map_some]

end

def codec : Codec Pack where
  encode := encode
  decode input := decode input.length input
  decode_append {p bytes} h rest := decode_append p h (by simp) rest

theorem codec_encode (p : Pack) : codec.encode p = p.encode := rfl

theorem writes_head {p : Pack} {h : Head} (hp : p.encode = Head.codec.encode h)
    (hsmall : h.Small) : codec.Writes p := by
  obtain ⟨bytes, hbytes⟩ := Head.writes_of_small hsmall
  exact ⟨bytes, hp.trans hbytes⟩

theorem writes_str {s : String} (h : s.utf8ByteSize < 2 ^ 32) : codec.Writes (str s) := by
  obtain ⟨first, hfirst⟩ := Head.writes_of_small (h := .str s.utf8ByteSize) h
  exact ⟨first ++ utf8Bytes s, by rw [codec_encode, encode, hfirst, Option.map_some]⟩

theorem writes_bin {bytes : List UInt8} (h : bytes.length < 2 ^ 32) : codec.Writes (bin bytes) := by
  obtain ⟨first, hfirst⟩ := Head.writes_of_small (h := .bin bytes.length) h
  exact ⟨first ++ bytes, by rw [codec_encode, encode, hfirst, Option.map_some]⟩

theorem writes_arr {items : List Pack} (hlength : items.length < 2 ^ 32)
    (h : ∀ p ∈ items, codec.Writes p) : codec.Writes (arr items) := by
  have hitems : ∃ bytes, encodeItems items = some bytes := by
    clear hlength
    induction items with
    | nil => exact ⟨[], rfl⟩
    | cons p items ih =>
      obtain ⟨first, hfirst⟩ := h p List.mem_cons_self
      obtain ⟨second, hsecond⟩ := ih fun q hq => h q (List.mem_cons_of_mem p hq)
      change p.encode = some first at hfirst
      exact ⟨first ++ second, by rw [encodeItems, hfirst, Option.bind_some, hsecond, Option.map_some]⟩
  obtain ⟨first, hfirst⟩ := Head.writes_of_small (h := .arr items.length) hlength
  obtain ⟨second, hsecond⟩ := hitems
  exact ⟨first ++ second, by rw [codec_encode, encode, hfirst, Option.bind_some, hsecond, Option.map_some]⟩

theorem writes_map {entries : List (Pack × Pack)} (hlength : entries.length < 2 ^ 32)
    (h : ∀ e ∈ entries, codec.Writes e.1 ∧ codec.Writes e.2) : codec.Writes (map entries) := by
  have hentries : ∃ bytes, encodeEntries entries = some bytes := by
    clear hlength
    induction entries with
    | nil => exact ⟨[], rfl⟩
    | cons e entries ih =>
      obtain ⟨⟨first, hfirst⟩, second, hsecond⟩ := h e List.mem_cons_self
      obtain ⟨third, hthird⟩ := ih fun e' he' => h e' (List.mem_cons_of_mem e he')
      change e.1.encode = some first at hfirst
      change e.2.encode = some second at hsecond
      exact ⟨first ++ second ++ third, by
        rw [encodeEntries, hfirst, Option.bind_some, hsecond, Option.bind_some, hthird,
          Option.map_some]⟩
  obtain ⟨first, hfirst⟩ := Head.writes_of_small (h := .map entries.length) hlength
  obtain ⟨second, hsecond⟩ := hentries
  exact ⟨first ++ second, by rw [codec_encode, encode, hfirst, Option.bind_some, hsecond, Option.map_some]⟩

end Pack

namespace Serde

/-- A natural number below the bound. -/
def below (bound : Nat) : Pack → Option Nat
  | .int i => if 0 ≤ i ∧ i < bound then some i.toNat else none
  | _ => none

def unpackBool : Pack → Option Bool
  | .bool b => some b
  | _ => none

def unpackU8 (p : Pack) : Option UInt8 := (below (2 ^ 8) p).map UInt8.ofNat

def unpackU16 (p : Pack) : Option UInt16 := (below (2 ^ 16) p).map UInt16.ofNat

def unpackU32 (p : Pack) : Option UInt32 := (below (2 ^ 32) p).map UInt32.ofNat

def unpackU64 (p : Pack) : Option UInt64 := (below (2 ^ 64) p).map UInt64.ofNat

def unpackI32 : Pack → Option Int32
  | .int i => if -2 ^ 31 ≤ i ∧ i < 2 ^ 31 then some (Int32.ofInt i) else none
  | _ => none

def unpackText : Pack → Option String
  | .str s => some s
  | _ => none

def unpackBytes (n : Nat) : Pack → Option (Vector UInt8 n)
  | .bin bytes => if h : bytes.toArray.size = n then some ⟨bytes.toArray, h⟩ else none
  | _ => none

def packOption {α : Type} (pack : α → Pack) : Option α → Pack
  | none => .nil
  | some a => pack a

def unpackOption {α : Type} (unpack : Pack → Option α) : Pack → Option (Option α)
  | .nil => some none
  | p => (unpack p).map some

def unpackSeq {α : Type} (unpack : Pack → Option α) : Pack → Option (List α)
  | .arr items => items.mapM unpack
  | _ => none

def packMap (order : HashOrder) (m : TextMap) : Pack :=
  .map ((order.entries m).map fun e => (.str e.1, .str e.2))

def unpackPair (e : Pack × Pack) : Option (String × String) :=
  (unpackText e.1).bind fun key => (unpackText e.2).map fun s => (key, s)

def unpackMap : Pack → Option TextMap
  | .map entries => (entries.mapM unpackPair).map collect
  | _ => none

def unpackStruct {α : Type} (unpack : List (Pack × Pack) → Option α) : Pack → Option α
  | .map entries => unpack entries
  | _ => none

/-- A unit variant is its name, another variant a map of its name to its fields. -/
def packEnum {n : Nat} (name : Fin n → String) (payload : Fin n → Fields)
    (pack : ∀ i, (payload i).Val → List (Pack × Pack)) (v : Σ i, (payload i).Val) : Pack :=
  if (payload v.1).isNil then .str (name v.1)
  else .map [(.str (name v.1), .map (pack v.1 v.2))]

def variantOf {n : Nat} (name : Fin n → String) (key : String) : Option (Fin n) :=
  (List.finRange n).find? fun i => name i = key

def unpackUnit {n : Nat} (name : Fin n → String) (payload : Fin n → Fields) (key : String) :
    Option (Σ i, (payload i).Val) :=
  (variantOf name key).bind fun i => ((payload i).unit?).map fun v => ⟨i, v⟩

def unpackEnum {n : Nat} (name : Fin n → String) (payload : Fin n → Fields)
    (unpack : ∀ i, List (Pack × Pack) → Option (payload i).Val) :
    Pack → Option (Σ i, (payload i).Val)
  | .str key | .map [(.str key, .nil)] => unpackUnit name payload key
  | .map [(.str key, .map entries)] => (variantOf name key).bind fun i =>
    if (payload i).isNil then none else (unpack i entries).map fun v => ⟨i, v⟩
  | _ => none

def isEntry (name : String) : Pack × Pack → Bool
  | (.str key, _) => key = name
  | _ => false

/-- The value of a field. Two entries for it are refused. -/
def fieldValue (name : String) (entries : List (Pack × Pack)) : Option (Option Pack) :=
  match entries.filter (isEntry name) with
  | [] => some none
  | [e] => some (some e.2)
  | _ => none

/-- The value that a field gets when its entry is missing. -/
def missing (defaulted : Bool) : (s : Shape) → Option s.Val
  | .option _ => some none
  | .str => if defaulted then some "" else none
  | _ => none

def unpackField {s : Shape} {β : Type} (name : String) (defaulted : Bool)
    (unpack : Pack → Option s.Val) (unpackRest : List (Pack × Pack) → Option β)
    (entries : List (Pack × Pack)) : Option (s.Val × β) :=
  (fieldValue name entries).bind fun p =>
    (p.elim (missing defaulted s) unpack).bind fun a =>
      (unpackRest entries).map fun r => (a, r)

mutual

/-- The named form of MessagePack: records are maps from the names of their fields. -/
def Shape.pack (order : HashOrder) : (s : Shape) → s.Val → Pack
  | .bool => Pack.bool
  | .u8 => fun n : UInt8 => .int n.toNat
  | .u16 => fun n : UInt16 => .int n.toNat
  | .u32 => fun n : UInt32 => .int n.toNat
  | .u64 => fun n : UInt64 => .int n.toNat
  | .i32 => fun n : Int32 => .int n.toInt
  | .str => Pack.str
  | .bytes _ => fun v : Vector UInt8 _ => .bin v.toList
  | .option s => packOption (s.pack order)
  | .seq s => fun l : List s.Val => .arr (l.map (s.pack order))
  | .map => packMap order
  | .struct fs => fun v => .map (fs.pack order v)
  | .enum _ name payload => packEnum name payload fun i => (payload i).pack order

def Fields.pack (order : HashOrder) : (fs : Fields) → fs.Val → List (Pack × Pack)
  | .nil => fun _ => []
  | .field name _ s rest => fun v => (.str name, s.pack order v.1) :: rest.pack order v.2

end

mutual

def Shape.unpack : (s : Shape) → Pack → Option s.Val
  | .bool => unpackBool
  | .u8 => unpackU8
  | .u16 => unpackU16
  | .u32 => unpackU32
  | .u64 => unpackU64
  | .i32 => unpackI32
  | .str => unpackText
  | .bytes n => unpackBytes n
  | .option s => unpackOption s.unpack
  | .seq s => unpackSeq s.unpack
  | .map => unpackMap
  | .struct fs => unpackStruct fs.unpack
  | .enum _ name payload => unpackEnum name payload fun i => (payload i).unpack

def Fields.unpack : (fs : Fields) → List (Pack × Pack) → Option fs.Val
  | .nil => fun _ => some ()
  | .field name defaulted s rest => unpackField name defaulted s.unpack rest.unpack

end

theorem below_int {bound n : Nat} (h : n < bound) : below bound (.int n) = some n := by
  have hrange : 0 ≤ (n : Int) ∧ (n : Int) < bound := by omega
  rw [below, if_pos hrange, Int.toNat_natCast]

theorem unpackU8_int (n : UInt8) : unpackU8 (.int n.toNat) = some n := by
  rw [unpackU8, below_int n.toNat_lt, Option.map_some, UInt8.ofNat_toNat]

theorem unpackU16_int (n : UInt16) : unpackU16 (.int n.toNat) = some n := by
  rw [unpackU16, below_int n.toNat_lt, Option.map_some, UInt16.ofNat_toNat]

theorem unpackU32_int (n : UInt32) : unpackU32 (.int n.toNat) = some n := by
  rw [unpackU32, below_int n.toNat_lt, Option.map_some, UInt32.ofNat_toNat]

theorem unpackU64_int (n : UInt64) : unpackU64 (.int n.toNat) = some n := by
  rw [unpackU64, below_int n.toNat_lt, Option.map_some, UInt64.ofNat_toNat]

theorem unpackI32_int (n : Int32) : unpackI32 (.int n.toInt) = some n := by
  rw [unpackI32, if_pos ⟨n.le_toInt, n.toInt_lt⟩, Int32.ofInt_toInt]

theorem unpackBytes_bin {n : Nat} (v : Vector UInt8 n) : unpackBytes n (.bin v.toList) = some v := by
  have hsize : v.toList.toArray.size = n := by simp
  rw [unpackBytes, dif_pos hsize]
  exact congrArg some (Vector.toList_inj.mp (by simp [Vector.toList]))

theorem unpackOption_packOption {α : Type} {pack : α → Pack} {unpack : Pack → Option α}
    (hpack : ∀ a, pack a ≠ .nil) (h : ∀ a, unpack (pack a) = some a) (v : Option α) :
    unpackOption unpack (packOption pack v) = some v := by
  cases v with
  | none => rfl
  | some a =>
    rw [packOption, unpackOption, h, Option.map_some]
    exact hpack a

private theorem mapM_map_of_forall {α β : Type} {f : α → β} {g : β → Option α} {l : List α}
    (h : ∀ a ∈ l, g (f a) = some a) : (l.map f).mapM g = some l := by
  induction l with
  | nil => rfl
  | cons a l ih =>
    have htail := ih fun b hb => h b (List.mem_cons_of_mem a hb)
    simp only [List.map_cons, List.mapM_cons, h a List.mem_cons_self, htail]
    rfl

theorem unpackSeq_arr {α : Type} {pack : α → Pack} {unpack : Pack → Option α} {l : List α}
    (h : ∀ a ∈ l, unpack (pack a) = some a) : unpackSeq unpack (.arr (l.map pack)) = some l :=
  mapM_map_of_forall h

theorem unpackMap_packMap (order : HashOrder) (m : TextMap) :
    unpackMap (packMap order m) = some m := by
  have hentries : ((order.entries m).map fun e => (Pack.str e.1, Pack.str e.2)).mapM unpackPair =
      some (order.entries m) := mapM_map_of_forall fun _ _ => rfl
  rw [packMap, unpackMap, hentries, Option.map_some, collect_entries]

theorem variantOf_name {n : Nat} {name : Fin n → String} (h : Function.Injective name)
    (i : Fin n) : variantOf name (name i) = some i := by
  unfold variantOf
  cases hfind : (List.finRange n).find? fun j => name j = name i with
  | none =>
    have hnot := List.find?_eq_none.mp hfind i (List.mem_finRange i)
    exact absurd (decide_eq_true rfl) hnot
  | some j =>
    have hname := List.find?_some hfind
    rw [h (of_decide_eq_true hname)]

theorem unpackEnum_packEnum {n : Nat} {name : Fin n → String} (hname : Function.Injective name)
    {payload : Fin n → Fields} {pack : ∀ i, (payload i).Val → List (Pack × Pack)}
    {unpack : ∀ i, List (Pack × Pack) → Option (payload i).Val}
    (h : ∀ i v, unpack i (pack i v) = some v) (v : Σ i, (payload i).Val) :
    unpackEnum name payload unpack (packEnum name payload pack v) = some v := by
  unfold packEnum
  split_ifs with hnil
  · rw [unpackEnum, unpackUnit, variantOf_name hname, Option.bind_some,
      Fields.unit?_eq_some hnil v.2, Option.map_some]
  · rw [unpackEnum, variantOf_name hname, Option.bind_some, if_neg hnil, h, Option.map_some]

theorem pack_ne_nil (order : HashOrder) {s : Shape} (hs : s.isOption = false) (v : s.Val) :
    s.pack order v ≠ .nil := by
  cases s with
  | option => cases hs
  | enum n name payload =>
    change packEnum name payload _ v ≠ .nil
    unfold packEnum
    split_ifs <;> exact nofun
  | _ => exact nofun

theorem mem_names_of_isEntry (order : HashOrder) {fs : Fields} {v : fs.Val} {e : Pack × Pack}
    (he : e ∈ fs.pack order v) {name : String} (h : isEntry name e = true) : name ∈ fs.names := by
  match fs with
  | .nil => cases he
  | .field _ _ s rest =>
    rcases List.mem_cons.mp he with rfl | he
    · exact List.mem_cons.mpr (.inl (of_decide_eq_true h).symm)
    · exact List.mem_cons_of_mem _ (mem_names_of_isEntry order he h)

/-- Of entries with different names only one is for the field. -/
theorem fieldValue_append {name : String} {before after : List (Pack × Pack)} (p : Pack)
    (hbefore : ∀ e ∈ before, isEntry name e = false) (hafter : ∀ e ∈ after, isEntry name e = false) :
    fieldValue name (before ++ (.str name, p) :: after) = some (some p) := by
  have hnone : ∀ l : List (Pack × Pack), (∀ e ∈ l, isEntry name e = false) →
      l.filter (isEntry name) = [] := by
    intro l hl
    exact List.filter_eq_nil_iff.mpr fun e he => by rw [hl e he]; exact Bool.false_ne_true
  have hself : isEntry name (.str name, p) = true := decide_eq_true rfl
  rw [fieldValue, List.filter_append, List.filter_cons_of_pos hself, hnone before hbefore,
    hnone after hafter]
  rfl

mutual

/-- What was packed is unpacked again. -/
theorem Shape.unpack_pack (order : HashOrder) (s : Shape) (hs : s.wellFormed = true) (v : s.Val) :
    s.unpack (s.pack order v) = some v := by
  match s with
  | .bool | .str => rfl
  | .u8 => exact unpackU8_int v
  | .u16 => exact unpackU16_int v
  | .u32 => exact unpackU32_int v
  | .u64 => exact unpackU64_int v
  | .i32 => exact unpackI32_int v
  | .bytes n => exact unpackBytes_bin v
  | .option s =>
    obtain ⟨hoption, hs⟩ := (Bool.and_eq_true _ _).mp hs
    exact unpackOption_packOption (pack_ne_nil order ((Bool.not_eq_true' _).mp hoption))
      (s.unpack_pack order hs) v
  | .seq s => exact unpackSeq_arr fun a _ => s.unpack_pack order hs a
  | .map => exact unpackMap_packMap order v
  | .struct fs =>
    obtain ⟨hnames, hfs⟩ := wellFormed_struct.mp hs
    exact fs.unpack_append order hfs hnames v [] nofun
  | .enum n name payload =>
    obtain ⟨-, hname, hpayload⟩ := wellFormed_enum.mp hs
    exact unpackEnum_packEnum hname
      (fun i v => (payload i).unpack_append order (hpayload i).2 (hpayload i).1 v [] nofun) v

/-- The entries before those of the fields are for other fields. -/
theorem Fields.unpack_append (order : HashOrder) (fs : Fields) (hfs : fs.wellFormed = true)
    (hnames : fs.names.Nodup) (v : fs.Val) (before : List (Pack × Pack))
    (hbefore : ∀ e ∈ before, ∀ name ∈ fs.names, isEntry name e = false) :
    fs.unpack (before ++ fs.pack order v) = some v := by
  match fs with
  | .nil => rfl
  | .field name _ s rest =>
    obtain ⟨hs, hrest⟩ := (Bool.and_eq_true _ _).mp hfs
    obtain ⟨hnotin, hnodup⟩ := List.nodup_cons.mp hnames
    have hafter : ∀ e ∈ rest.pack order v.2, isEntry name e = false := by
      intro e he
      rw [← Bool.not_eq_true]
      exact fun hentry => hnotin (mem_names_of_isEntry order he hentry)
    have hvalue := fieldValue_append (s.pack order v.1)
      (fun e he => hbefore e he name List.mem_cons_self) hafter
    have hunpack : rest.unpack ((before ++ [(.str name, s.pack order v.1)]) ++
        rest.pack order v.2) = some v.2 := by
      apply rest.unpack_append order hrest hnodup
      intro e he key hkey
      rcases List.mem_append.mp he with he | he
      · exact hbefore e he key (List.mem_cons_of_mem name hkey)
      · obtain rfl := List.mem_singleton.mp he
        exact decide_eq_false fun h => hnotin (h ▸ hkey)
    rw [List.append_assoc, List.singleton_append] at hunpack
    change unpackField name _ s.unpack rest.unpack
      (before ++ (.str name, s.pack order v.1) :: rest.pack order v.2) = some v
    simp only [unpackField, hvalue, Option.bind_some, Option.elim_some,
      s.unpack_pack order hs v.1, hunpack, Option.map_some]
    rfl

end

theorem length_pack (order : HashOrder) (fs : Fields) (v : fs.Val) :
    (fs.pack order v).length = fs.names.length := by
  match fs with
  | .nil => rfl
  | .field _ _ s rest => exact congrArg (· + 1) (length_pack order rest v.2)

theorem writes_int_of_lt {n : Nat} (h : n < 2 ^ 64) : Pack.codec.Writes (.int n) :=
  Pack.writes_head rfl ⟨by omega, by omega⟩

mutual

/-- A value whose lengths fit in four bytes can be written. -/
theorem Shape.writes_pack (order : HashOrder) (s : Shape) (v : s.Val)
    (h : s.Fits order (2 ^ 32) v) : Pack.codec.Writes (s.pack order v) := by
  match s with
  | .bool => exact Pack.writes_head rfl trivial
  | .u8 => exact writes_int_of_lt (Nat.lt_trans (UInt8.toNat_lt v) (by omega))
  | .u16 => exact writes_int_of_lt (Nat.lt_trans (UInt16.toNat_lt v) (by omega))
  | .u32 => exact writes_int_of_lt (Nat.lt_trans (UInt32.toNat_lt v) (by omega))
  | .u64 => exact writes_int_of_lt (UInt64.toNat_lt v)
  | .i32 =>
    have hle := Int32.le_toInt v
    have hlt := Int32.toInt_lt v
    exact Pack.writes_head rfl ⟨by omega, by omega⟩
  | .str => exact Pack.writes_str h
  | .bytes n =>
    have hlength : (v : Vector UInt8 n).toList.length = n := Vector.length_toList
    exact Pack.writes_bin (hlength.trans_lt h)
  | .option s =>
    cases v with
    | none => exact Pack.writes_head rfl trivial
    | some a => exact s.writes_pack order a (h a rfl)
  | .seq s =>
    refine Pack.writes_arr ((List.length_map _).trans_lt h.1) fun p hp => ?_
    obtain ⟨a, ha, rfl⟩ := List.mem_map.mp hp
    exact s.writes_pack order a (h.2 a ha)
  | .map =>
    refine Pack.writes_map ((List.length_map _).trans_lt h.1) fun p hp => ?_
    obtain ⟨e, he, rfl⟩ := List.mem_map.mp hp
    exact ⟨Pack.writes_str (h.2 e he).1, Pack.writes_str (h.2 e he).2⟩
  | .struct fs =>
    exact Pack.writes_map ((length_pack order fs v).trans_lt h.1) (fs.writes_pack order v h.2)
  | .enum n name payload =>
    obtain ⟨hname, hlength, hpayload⟩ := h
    change Pack.codec.Writes (packEnum name payload _ v)
    unfold packEnum
    split_ifs
    · exact Pack.writes_str hname
    · have hfields := Pack.writes_map ((length_pack order _ v.2).trans_lt hlength)
        ((payload v.1).writes_pack order v.2 hpayload)
      refine Pack.writes_map (by simp) fun e he => ?_
      obtain rfl := List.mem_singleton.mp he
      exact ⟨Pack.writes_str hname, hfields⟩

theorem Fields.writes_pack (order : HashOrder) (fs : Fields) (v : fs.Val)
    (h : fs.Fits order (2 ^ 32) v) (e : Pack × Pack) (he : e ∈ fs.pack order v) :
    Pack.codec.Writes e.1 ∧ Pack.codec.Writes e.2 := by
  match fs with
  | .nil => cases he
  | .field name _ s rest =>
    rcases List.mem_cons.mp he with rfl | he
    · exact ⟨Pack.writes_str h.1, s.writes_pack order v.1 h.2.1⟩
    · exact rest.writes_pack order v.2 h.2.2 e he

end

end Serde

end Shelly
