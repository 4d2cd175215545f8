import Mathlib.Algebra.GroupWithZero.Nat
import Mathlib.Algebra.Order.BigOperators.Group.List
import Mathlib.Algebra.Order.Group.Nat
import Shelly.Framework.Bincode
import Shelly.Framework.MessagePack

namespace Shelly

namespace Codec

variable {α β : Type*} {c : Codec α}

/-- Every encoding is as long as the function says. -/
def Sized (c : Codec α) (size : α → Nat) : Prop :=
  ∀ ⦃a : α⦄ ⦃bytes : List UInt8⦄, c.encode a = some bytes → bytes.length = size a

theorem Sized.imap {size : α → Nat} (hc : c.Sized size) (f : α → Option β) (g : β → α)
    (h : ∀ b, f (g b) = some b) : (c.imap f g h).Sized (size ∘ g) := fun _ _ hb => hc hb

theorem Sized.pair {d : Codec β} {size : α → Nat} {size' : β → Nat} (hc : c.Sized size)
    (hd : d.Sized size') : (c.pair d).Sized fun p => size p.1 + size' p.2 := by
  intro p bytes h
  obtain ⟨first, second, hfirst, hsecond, rfl⟩ := exists_of_encode_pair h
  rw [List.length_append, hc hfirst, hd hsecond]

theorem Sized.sigma {ι : Type*} {β : ι → Type*} {c : Codec ι} {d : ∀ i, Codec (β i)}
    {size : ι → Nat} {size' : ∀ i, β i → Nat} (hc : c.Sized size) (hd : ∀ i, (d i).Sized (size' i)) :
    (c.sigma d).Sized fun p => size p.1 + size' p.1 p.2 := by
  intro p bytes h
  obtain ⟨first, hfirst, h⟩ := Option.bind_eq_some_iff.mp h
  obtain ⟨second, hsecond, rfl⟩ := Option.map_eq_some_iff.mp h
  rw [List.length_append, hc hfirst, hd p.1 hsecond]

theorem Sized.encodeList {size : α → Nat} (hc : c.Sized size) {l : List α} {bytes : List UInt8}
    (h : c.encodeList l = some bytes) : bytes.length = (l.map size).sum := by
  induction l generalizing bytes with
  | nil =>
    obtain rfl := Option.some.inj h
    rfl
  | cons a l ih =>
    obtain ⟨first, hfirst, h⟩ := Option.bind_eq_some_iff.mp h
    obtain ⟨others, hothers, rfl⟩ := Option.map_eq_some_iff.mp h
    rw [List.length_append, hc hfirst, ih hothers, List.map_cons, List.sum_cons]

theorem Sized.list {count : Codec Nat} {head : Nat → Nat} {size : α → Nat}
    (hcount : count.Sized head) (hc : c.Sized size) :
    (Codec.list count c).Sized fun l => head l.length + (l.map size).sum := by
  intro l bytes h
  obtain ⟨first, hfirst, h⟩ := Option.bind_eq_some_iff.mp h
  obtain ⟨second, hsecond, rfl⟩ := Option.map_eq_some_iff.mp h
  rw [List.length_append, hcount hfirst, hc.encodeList hsecond]

theorem sized_unit : unit.Sized fun _ => 0 := by
  intro a bytes h
  obtain rfl := Option.some.inj h
  rfl

theorem sized_byte : byte.Sized fun _ => 1 := by
  intro a bytes h
  obtain rfl := Option.some.inj h
  rfl

theorem sized_uint (width : Nat) : (uint width).Sized fun _ => width := by
  intro n bytes h
  obtain ⟨-, h⟩ := Option.ite_none_right_eq_some.mp h
  obtain rfl := Option.some.inj h
  exact length_leBytes width n

theorem sized_uintBe (width : Nat) : (uintBe width).Sized fun _ => width := by
  intro n bytes h
  obtain ⟨-, h⟩ := Option.ite_none_right_eq_some.mp h
  obtain rfl := Option.some.inj h
  rw [List.length_reverse, length_leBytes]

/-- Bytes take up their number, behind it. -/
theorem Sized.bytes {count : Codec Nat} {head : Nat → Nat} (hcount : count.Sized head) :
    (Codec.list count byte).Sized fun l => head l.length + l.length := by
  intro l bytes h
  obtain ⟨first, hfirst, rfl⟩ := exists_of_encode_bytes h
  rw [List.length_append, hcount hfirst]

theorem Sized.text {count : Codec Nat} {head : Nat → Nat} (hcount : count.Sized head) :
    (Codec.text count).Sized fun s => head s.utf8ByteSize + s.utf8ByteSize := by
  intro s bytes h
  rw [Sized.imap hcount.bytes _ _ _ h, Function.comp_apply, length_utf8Bytes]

end Codec

namespace Pack

/-- A marker and the number behind it. -/
def Head.size (h : Head) : Nat := h.form.elim 0 fun f => 1 + f.width

theorem Head.sized_codec : Head.codec.Sized Head.size := by
  intro h bytes hbytes
  obtain ⟨f, hf, hbytes⟩ := Option.bind_eq_some_iff.mp hbytes
  obtain ⟨number, hnumber, rfl⟩ := Option.map_eq_some_iff.mp hbytes
  rw [Head.size, hf, Option.elim_some, List.length_cons, Codec.sized_uintBe _ hnumber,
    Nat.add_comm]

mutual

def size : Pack → Nat
  | nil => Head.nil.size
  | bool b => (Head.bool b).size
  | int i => (Head.int i).size
  | str s => (Head.str s.utf8ByteSize).size + s.utf8ByteSize
  | bin bytes => (Head.bin bytes.length).size + bytes.length
  | arr items => (Head.arr items.length).size + sizeItems items
  | map entries => (Head.map entries.length).size + sizeEntries entries

def sizeItems : List Pack → Nat
  | [] => 0
  | p :: items => p.size + sizeItems items

def sizeEntries : List (Pack × Pack) → Nat
  | [] => 0
  | (key, p) :: entries => key.size + p.size + sizeEntries entries

end

theorem sizeItems_eq_sum (items : List Pack) : sizeItems items = (items.map size).sum := by
  induction items with
  | nil => rfl
  | cons p items ih => rw [sizeItems, ih, List.map_cons, List.sum_cons]

/-- A list that is packed item by item. -/
theorem size_arr_map {α : Type*} {pack : α → Pack} {itemSize : α → Nat}
    (h : ∀ a, (pack a).size = itemSize a) (l : List α) :
    (arr (l.map pack)).size = (Head.arr l.length).size + (l.map itemSize).sum := by
  rw [size, sizeItems_eq_sum, List.length_map, List.map_map, show size ∘ pack = itemSize from funext h]

theorem sizeEntries_eq_sum (entries : List (Pack × Pack)) :
    sizeEntries entries = (entries.map fun e => e.1.size + e.2.size).sum := by
  induction entries with
  | nil => rfl
  | cons e entries ih => rw [sizeEntries, ih, List.map_cons, List.sum_cons]

mutual

theorem length_encode (p : Pack) {bytes : List UInt8} (h : p.encode = some bytes) :
    bytes.length = p.size := by
  match p with
  | nil | bool _ | int _ => exact Head.sized_codec h
  | str s =>
    obtain ⟨first, hfirst, rfl⟩ := Option.map_eq_some_iff.mp h
    rw [List.length_append, Head.sized_codec hfirst, length_utf8Bytes, size]
  | bin _ =>
    obtain ⟨first, hfirst, rfl⟩ := Option.map_eq_some_iff.mp h
    rw [List.length_append, Head.sized_codec hfirst, size]
  | arr items =>
    obtain ⟨first, hfirst, h⟩ := Option.bind_eq_some_iff.mp h
    obtain ⟨second, hsecond, rfl⟩ := Option.map_eq_some_iff.mp h
    rw [List.length_append, Head.sized_codec hfirst, length_encodeItems items hsecond, size]
  | map entries =>
    obtain ⟨first, hfirst, h⟩ := Option.bind_eq_some_iff.mp h
    obtain ⟨second, hsecond, rfl⟩ := Option.map_eq_some_iff.mp h
    rw [List.length_append, Head.sized_codec hfirst, length_encodeEntries entries hsecond, size]

theorem length_encodeItems (items : List Pack) {bytes : List UInt8}
    (h : encodeItems items = some bytes) : bytes.length = sizeItems items := by
  match items with
  | [] =>
    obtain rfl := Option.some.inj h
    rfl
  | p :: items =>
    obtain ⟨first, hfirst, h⟩ := Option.bind_eq_some_iff.mp h
    obtain ⟨second, hsecond, rfl⟩ := Option.map_eq_some_iff.mp h
    rw [List.length_append, length_encode p hfirst, length_encodeItems items hsecond, sizeItems]

theorem length_encodeEntries (entries : List (Pack × Pack)) {bytes : List UInt8}
    (h : encodeEntries entries = some bytes) : bytes.length = sizeEntries entries := by
  match entries with
  | [] =>
    obtain rfl := Option.some.inj h
    rfl
  | (key, p) :: entries =>
    obtain ⟨first, hfirst, h⟩ := Option.bind_eq_some_iff.mp h
    obtain ⟨second, hsecond, h⟩ := Option.bind_eq_some_iff.mp h
    obtain ⟨third, hthird, rfl⟩ := Option.map_eq_some_iff.mp h
    rw [List.length_append, List.length_append, length_encode key hfirst, length_encode p hsecond,
      length_encodeEntries entries hthird, sizeEntries]

end

end Pack

/-- The formats in which shapes are written. -/
inductive Format
  | bincode | messagePack
  deriving DecidableEq

namespace Format

/-- What an integer takes up that has so many bytes in memory. -/
def integer (f : Format) (width : Nat) (i : Int) : Nat :=
  match f with
  | bincode => width
  | messagePack => (Pack.Head.int i).size

/-- What a text of so many bytes takes up. -/
def text (f : Format) (n : Nat) : Nat :=
  match f with
  | bincode => 8 + n
  | messagePack => (Pack.Head.str n).size + n

def blob (f : Format) (n : Nat) : Nat :=
  match f with
  | bincode => 8 + n
  | messagePack => (Pack.Head.bin n).size + n

/-- What stands in front of so many items. -/
def items (f : Format) (n : Nat) : Nat :=
  match f with
  | bincode => 8
  | messagePack => (Pack.Head.arr n).size

def entries (f : Format) (n : Nat) : Nat :=
  match f with
  | bincode => 8
  | messagePack => (Pack.Head.map n).size

/-- What marks a value that is there. One that is not takes up a byte. -/
def present : Format → Nat
  | bincode => 1
  | messagePack => 0

/-- What a record takes up besides the values of its fields. -/
def record (f : Format) (names : List String) : Nat :=
  match f with
  | bincode => 0
  | messagePack => (Pack.Head.map names.length).size +
      (names.map fun name => (Pack.Head.str name.utf8ByteSize).size + name.utf8ByteSize).sum

/-- What a variant takes up besides the values of its fields. -/
def variant (f : Format) (name : String) (names : List String) : Nat :=
  match f with
  | bincode => 4
  | messagePack =>
    if names.isEmpty then f.text name.utf8ByteSize
    else (Pack.Head.map 1).size + f.text name.utf8ByteSize + f.record names

end Format

namespace Serde

mutual

/-- The length of the encoding of a value. -/
def Shape.size (f : Format) (order : HashOrder) : (s : Shape) → s.Val → Nat
  | .bool, _ => 1
  | .u8, (v : UInt8) => f.integer 1 v.toNat
  | .u16, (v : UInt16) => f.integer 2 v.toNat
  | .u32, (v : UInt32) => f.integer 4 v.toNat
  | .u64, (v : UInt64) => f.integer 8 v.toNat
  | .i32, (v : Int32) => f.integer 4 v.toInt
  | .str, (v : String) => f.text v.utf8ByteSize
  | .bytes n, _ => f.blob n
  | .option s, (v : Option s.Val) => v.elim 1 fun a => f.present + s.size f order a
  | .seq s, (v : List s.Val) => f.items v.length + (v.map (s.size f order)).sum
  | .map, (v : TextMap) => f.entries (order.entries v).length +
      ((order.entries v).map fun e => f.text e.1.utf8ByteSize + f.text e.2.utf8ByteSize).sum
  | .struct fs, v => f.record fs.names + fs.size f order v
  | .enum _ name payload, v =>
      f.variant (name v.1) (payload v.1).names + (payload v.1).size f order v.2

def Fields.size (f : Format) (order : HashOrder) : (fs : Fields) → fs.Val → Nat
  | .nil, _ => 0
  | .field _ _ s rest, v => s.size f order v.1 + rest.size f order v.2

end

theorem sized_length : Bincode.length.Sized fun _ => 8 := Codec.sized_uint 8

theorem sized_option {α : Type*} {c : Codec α} {size : α → Nat} (hc : c.Sized size) :
    (Bincode.option c).Sized fun v => v.elim 1 fun a => 1 + size a := by
  intro v bytes h
  cases v with
  | none =>
    obtain rfl := Option.some.inj h
    rfl
  | some a =>
    obtain ⟨tail, htail, rfl⟩ := Option.map_eq_some_iff.mp h
    exact (congrArg (· + 1) (hc htail)).trans (Nat.add_comm _ 1)

theorem sized_bytes (n : Nat) : (Bincode.bytes n).Sized fun _ => 8 + n := by
  intro v bytes h
  have hlength : bytes.length = 8 + v.toList.length := sized_length.bytes h
  rwa [Vector.length_toList] at hlength

mutual

theorem Shape.sized_bincode (order : HashOrder) (s : Shape) :
    (s.bincode order).Sized (s.size .bincode order) := by
  match s with
  | .bool | .u8 => exact fun _ _ h => Codec.sized_byte h
  | .u16 => exact fun _ _ h => Codec.sized_uint 2 h
  | .u32 | .i32 => exact fun _ _ h => Codec.sized_uint 4 h
  | .u64 => exact fun _ _ h => Codec.sized_uint 8 h
  | .str => exact sized_length.text
  | .bytes n => exact sized_bytes n
  | .option s => exact sized_option (s.sized_bincode order)
  | .seq s => exact sized_length.list (s.sized_bincode order)
  | .map => exact fun _ _ h => sized_length.list (sized_length.text.pair sized_length.text) h
  | .struct fs =>
    intro v bytes h
    exact (fs.sized_bincode order h).trans (Nat.zero_add _).symm
  | .enum n _ payload =>
    exact Codec.Sized.sigma ((Codec.sized_uint 4).imap _ _ _) fun i : Fin n =>
      (payload i).sized_bincode order

theorem Fields.sized_bincode (order : HashOrder) (fs : Fields) :
    (fs.bincode order).Sized (fs.size .bincode order) := by
  match fs with
  | .nil => exact Codec.sized_unit
  | .field _ _ s rest => exact (s.sized_bincode order).pair (rest.sized_bincode order)

end

theorem names_isEmpty (fs : Fields) : fs.names.isEmpty = fs.isNil := by
  cases fs <;> rfl

theorem Fields.size_of_isNil {f : Format} {order : HashOrder} {fs : Fields} (h : fs.isNil = true)
    (v : fs.Val) : fs.size f order v = 0 := by
  cases fs with
  | nil => rfl
  | field => cases h

theorem size_packEnum {n : Nat} {name : Fin n → String} {payload : Fin n → Fields}
    {order : HashOrder} (v : Σ i, (payload i).Val)
    (h : (Pack.map ((payload v.1).pack order v.2)).size =
      Format.messagePack.record (payload v.1).names + (payload v.1).size .messagePack order v.2) :
    (packEnum name payload (fun i => (payload i).pack order) v).size =
      Format.messagePack.variant (name v.1) (payload v.1).names +
        (payload v.1).size .messagePack order v.2 := by
  unfold packEnum Format.variant
  dsimp only
  rw [names_isEmpty]
  split_ifs with hnil
  · rw [Fields.size_of_isNil hnil]
    rfl
  · rw [Nat.add_assoc, ← h, Pack.size, Pack.sizeEntries, Pack.sizeEntries, Nat.add_zero,
      ← Nat.add_assoc]
    rfl

theorem size_packMap (order : HashOrder) (m : TextMap) :
    (packMap order m).size = Shape.map.size .messagePack order m := by
  rw [packMap, Pack.size, Pack.sizeEntries_eq_sum, List.length_map, List.map_map]
  rfl

theorem Fields.size_map_pack {order : HashOrder} {fs : Fields} {v : fs.Val}
    (h : Pack.sizeEntries (fs.pack order v) =
      (fs.names.map fun name =>
        (Pack.Head.str name.utf8ByteSize).size + name.utf8ByteSize).sum +
        fs.size .messagePack order v) :
    (Pack.map (fs.pack order v)).size =
      Format.messagePack.record fs.names + fs.size .messagePack order v := by
  rw [Pack.size, length_pack, h, ← Nat.add_assoc]
  rfl

mutual

theorem Shape.size_pack (order : HashOrder) (s : Shape) (v : s.Val) :
    (s.pack order v).size = s.size .messagePack order v := by
  match s with
  | .bool => cases (v : Bool) <;> rfl
  | .u8 | .u16 | .u32 | .u64 | .i32 | .str => rfl
  | .bytes n =>
    have hlength : (v : Vector UInt8 n).toList.length = n := Vector.length_toList
    change (Pack.Head.bin _).size + _ = (Pack.Head.bin n).size + n
    rw [hlength]
  | .option s =>
    cases v with
    | none => rfl
    | some a => exact (s.size_pack order a).trans (Nat.zero_add _).symm
  | .seq s => exact Pack.size_arr_map (s.size_pack order) v
  | .map => exact size_packMap order v
  | .struct fs => exact Fields.size_map_pack (fs.sizeEntries_pack order v)
  | .enum n name payload =>
    exact size_packEnum v (Fields.size_map_pack ((payload v.1).sizeEntries_pack order v.2))

theorem Fields.sizeEntries_pack (order : HashOrder) (fs : Fields) (v : fs.Val) :
    Pack.sizeEntries (fs.pack order v) =
      (fs.names.map fun name =>
        (Pack.Head.str name.utf8ByteSize).size + name.utf8ByteSize).sum +
        fs.size .messagePack order v := by
  match fs with
  | .nil => rfl
  | .field name _ s rest =>
    have hvalue := s.size_pack order v.1
    have hrest := rest.sizeEntries_pack order v.2
    change (Pack.str name).size + (s.pack order v.1).size + Pack.sizeEntries (rest.pack order v.2) =
      List.sum (((Pack.Head.str name.utf8ByteSize).size + name.utf8ByteSize) :: _) + (_ + _)
    rw [hvalue, hrest, List.sum_cons, Pack.size]
    omega

end

section Room

theorem firstFit_width {n : Nat} {forms : List (UInt8 × Nat)} {form : Pack.Form}
    (h : Pack.firstFit n forms = some form) : ∃ f ∈ forms, form.width = f.2 := by
  induction forms with
  | nil => cases h
  | cons f forms ih =>
    unfold Pack.firstFit at h
    split at h
    · cases h
      exact ⟨f, List.mem_cons_self, rfl⟩
    · obtain ⟨g, hg, hwidth⟩ := ih h
      exact ⟨g, List.mem_cons_of_mem f hg, hwidth⟩

theorem firstSigned_width {i : Int} {forms : List (UInt8 × Nat)} {form : Pack.Form}
    (h : Pack.firstSigned i forms = some form) : ∃ f ∈ forms, form.width = f.2 := by
  induction forms with
  | nil => cases h
  | cons f forms ih =>
    unfold Pack.firstSigned at h
    split at h
    · cases h
      exact ⟨f, List.mem_cons_self, rfl⟩
    · obtain ⟨g, hg, hwidth⟩ := ih h
      exact ⟨g, List.mem_cons_of_mem f hg, hwidth⟩

/-- The number behind a marker takes up eight bytes at most. -/
theorem form_width_le {h : Pack.Head} {form : Pack.Form} (hform : h.form = some form) :
    form.width ≤ 8 := by
  have hfit {n : Nat} {forms : List (UInt8 × Nat)} (hforms : ∀ f ∈ forms, f.2 ≤ 8)
      (hfit : Pack.firstFit n forms = some form) : form.width ≤ 8 := by
    obtain ⟨f, hf, hwidth⟩ := firstFit_width hfit
    exact hwidth ▸ hforms f hf
  have hsigned {i : Int} {forms : List (UInt8 × Nat)} (hforms : ∀ f ∈ forms, f.2 ≤ 8)
      (hfit : Pack.firstSigned i forms = some form) : form.width ≤ 8 := by
    obtain ⟨f, hf, hwidth⟩ := firstSigned_width hfit
    exact hwidth ▸ hforms f hf
  unfold Pack.Head.form at hform
  split at hform
  · cases hform
    exact Nat.zero_le 8
  · cases hform
    exact Nat.zero_le 8
  · cases hform
    exact Nat.zero_le 8
  · split at hform
    · cases hform
      exact Nat.zero_le 8
    · exact hfit (by simp) hform
  · split at hform
    · cases hform
      exact Nat.zero_le 8
    · exact hsigned (by simp) hform
  · split at hform
    · cases hform
      exact Nat.zero_le 8
    · exact hfit (by simp) hform
  · exact hfit (by simp) hform
  · split at hform
    · cases hform
      exact Nat.zero_le 8
    · exact hfit (by simp) hform
  · split at hform
    · cases hform
      exact Nat.zero_le 8
    · exact hfit (by simp) hform

theorem size_head_le (h : Pack.Head) : h.size ≤ 9 := by
  unfold Pack.Head.size
  cases hform : h.form with
  | none => exact Nat.zero_le 9
  | some form =>
    have hwidth := form_width_le hform
    rw [Option.elim_some]
    omega

/-- A byte takes up two bytes at most. -/
theorem size_byte_le (b : UInt8) : (Pack.Head.int b.toNat).size ≤ 2 := by
  have hlt := UInt8.toNat_lt b
  have hform : Pack.Head.form (.int b.toNat) =
      if b.toNat < 128 then some ⟨.ofNat b.toNat, 0, 0⟩ else some ⟨0xcc, 1, b.toNat⟩ := by
    change (if b.toNat < 128 then _ else Pack.firstFit b.toNat _) = _
    split
    · rfl
    · exact if_pos hlt
  rw [Pack.Head.size, hform]
  split
  · exact Nat.zero_lt_succ 1
  · exact le_rfl

/-- The names of a record and what marks them. -/
def roomOfRecord (names : List String) : Nat :=
  9 + (names.map fun name => 9 + name.utf8ByteSize).sum

mutual

/-- No encoding of a value is longer, in neither format. -/
def Shape.room (order : HashOrder) : (s : Shape) → s.Val → Nat
  | .bool, _ => 1
  | .u8, _ => 2
  | .u16, _ | .u32, _ | .u64, _ | .i32, _ => 9
  | .str, (v : String) => 9 + v.utf8ByteSize
  | .bytes n, _ => 9 + n
  | .option s, (v : Option s.Val) => v.elim 1 fun a => 1 + s.room order a
  | .seq s, (v : List s.Val) => 9 + (v.map (s.room order)).sum
  | .map, (v : TextMap) => 9 +
      ((order.entries v).map fun e => 9 + e.1.utf8ByteSize + (9 + e.2.utf8ByteSize)).sum
  | .struct fs, v => roomOfRecord fs.names + fs.room order v
  | .enum _ name payload, v =>
      18 + (name v.1).utf8ByteSize + roomOfRecord (payload v.1).names +
        (payload v.1).room order v.2

def Fields.room (order : HashOrder) : (fs : Fields) → fs.Val → Nat
  | .nil, _ => 0
  | .field _ _ s rest, v => s.room order v.1 + rest.room order v.2

end

theorem integer_le (f : Format) {width : Nat} (i : Int) (hwidth : width ≤ 8) :
    f.integer width i ≤ 9 := by
  cases f with
  | bincode => exact hwidth.trans (Nat.le_succ 8)
  | messagePack => exact size_head_le _

theorem text_le (f : Format) (n : Nat) : f.text n ≤ 9 + n := by
  cases f with
  | bincode => exact Nat.add_le_add_right (Nat.le_succ 8) n
  | messagePack => exact Nat.add_le_add_right (size_head_le _) n

theorem blob_le (f : Format) (n : Nat) : f.blob n ≤ 9 + n := by
  cases f with
  | bincode => exact Nat.add_le_add_right (Nat.le_succ 8) n
  | messagePack => exact Nat.add_le_add_right (size_head_le _) n

theorem items_le (f : Format) (n : Nat) : f.items n ≤ 9 := by
  cases f with
  | bincode => exact Nat.le_succ 8
  | messagePack => exact size_head_le _

theorem entries_le (f : Format) (n : Nat) : f.entries n ≤ 9 := by
  cases f with
  | bincode => exact Nat.le_succ 8
  | messagePack => exact size_head_le _

theorem present_le (f : Format) : f.present ≤ 1 := by
  cases f with
  | bincode => exact le_rfl
  | messagePack => exact Nat.zero_le 1

theorem sum_map_le_sum_map {α : Type*} {l : List α} {size room : α → Nat}
    (h : ∀ a, size a ≤ room a) : (l.map size).sum ≤ (l.map room).sum :=
  List.sum_le_sum fun a _ => h a

theorem record_le (f : Format) (names : List String) : f.record names ≤ roomOfRecord names := by
  cases f with
  | bincode => exact Nat.zero_le _
  | messagePack =>
    refine Nat.add_le_add (size_head_le _) (sum_map_le_sum_map fun name => ?_)
    exact Nat.add_le_add_right (size_head_le _) _

theorem variant_le (f : Format) (name : String) (names : List String) :
    f.variant name names ≤ 18 + name.utf8ByteSize + roomOfRecord names := by
  cases f with
  | bincode => exact (show 4 ≤ 18 by decide).trans (by omega)
  | messagePack =>
    have htext := text_le .messagePack name.utf8ByteSize
    have hrecord := record_le .messagePack names
    have hhead := size_head_le (.map 1)
    unfold Format.variant
    dsimp only
    split_ifs
    · omega
    · omega

mutual

theorem Shape.size_le_room (f : Format) (order : HashOrder) (s : Shape) (v : s.Val) :
    s.size f order v ≤ s.room order v := by
  match s with
  | .bool => exact le_rfl
  | .u8 =>
    cases f with
    | bincode => exact Nat.le_succ 1
    | messagePack => exact size_byte_le v
  | .u16 | .u32 | .u64 | .i32 => exact integer_le f _ (by decide)
  | .str => exact text_le f _
  | .bytes n => exact blob_le f n
  | .option s =>
    cases v with
    | none => exact le_rfl
    | some a => exact Nat.add_le_add (present_le f) (s.size_le_room f order a)
  | .seq s => exact Nat.add_le_add (items_le f _) (sum_map_le_sum_map (s.size_le_room f order))
  | .map =>
    exact Nat.add_le_add (entries_le f _)
      (sum_map_le_sum_map fun e => Nat.add_le_add (text_le f _) (text_le f _))
  | .struct fs => exact Nat.add_le_add (record_le f _) (fs.size_le_room f order v)
  | .enum _ name payload =>
    exact Nat.add_le_add (variant_le f _ _) ((payload v.1).size_le_room f order v.2)

theorem Fields.size_le_room (f : Format) (order : HashOrder) (fs : Fields) (v : fs.Val) :
    fs.size f order v ≤ fs.room order v := by
  match fs with
  | .nil => exact le_rfl
  | .field _ _ s rest =>
    exact Nat.add_le_add (s.size_le_room f order v.1) (rest.size_le_room f order v.2)

end

end Room

mutual

/-- Every value takes up a byte at least. -/
def Shape.solid : Shape → Bool
  | .option s | .seq s => s.solid
  | .struct fs => fs.solid
  | _ => true

def Fields.solid : Fields → Bool
  | .nil => false
  | .field _ _ s rest => s.solid || rest.solid

end

mutual

/-- What the shape itself contributes to the lengths is below the bound, and no list has items
that take up nothing. -/
def Shape.modest (bound : Nat) : Shape → Bool
  | .option s => s.modest bound
  | .seq s => s.solid && s.modest bound
  | .struct fs => decide (fs.names.length < bound) && fs.modest bound
  | .enum n name payload => (List.finRange n).all fun i =>
      decide ((name i).utf8ByteSize < bound) && decide ((payload i).names.length < bound) &&
        (payload i).modest bound
  | _ => true

def Fields.modest (bound : Nat) : Fields → Bool
  | .nil => true
  | .field name _ s rest =>
    decide (name.utf8ByteSize < bound) && s.modest bound && rest.modest bound

end

theorem length_le_sum_map {α : Type*} {l : List α} {size : α → Nat} (h : ∀ a, 0 < size a) :
    l.length ≤ (l.map size).sum := by
  rw [← List.length_map size]
  refine List.length_le_sum_of_one_le _ fun n hn => ?_
  obtain ⟨a, -, rfl⟩ := List.mem_map.mp hn
  exact h a

theorem size_le_sum_map {α : Type*} {l : List α} {size : α → Nat} {a : α} (h : a ∈ l) :
    size a ≤ (l.map size).sum :=
  List.le_sum_of_mem (List.mem_map_of_mem h)

theorem le_text (f : Format) (n : Nat) : n ≤ f.text n := by
  cases f <;> exact Nat.le_add_left _ _

theorem le_blob (f : Format) (n : Nat) : n ≤ f.blob n := by
  cases f <;> exact Nat.le_add_left _ _

theorem size_head_pos {h : Pack.Head} (hsmall : h.Small) : 0 < h.size := by
  obtain ⟨form, hform, -⟩ := Pack.Head.exists_form hsmall
  rw [Pack.Head.size, hform, Option.elim_some]
  exact Nat.add_pos_left Nat.one_pos _

theorem integer_pos (f : Format) {width : Nat} {i : Int} (hwidth : 0 < width)
    (hlo : -2 ^ 63 ≤ i) (hhi : i < 2 ^ 64) : 0 < f.integer width i := by
  cases f with
  | bincode => exact hwidth
  | messagePack => exact size_head_pos ⟨hlo, hhi⟩

/-- Without a head there are so many bytes that they count themselves. -/
theorem head_add_pos {h : Pack.Head} {n : Nat} (hsmall : n < 2 ^ 32 → h.Small) :
    0 < h.size + n := by
  by_cases hn : n < 2 ^ 32
  · exact Nat.add_pos_left (size_head_pos (hsmall hn)) _
  · omega

theorem text_pos (f : Format) (n : Nat) : 0 < f.text n := by
  cases f with
  | bincode => exact Nat.add_pos_left (by decide) _
  | messagePack => exact head_add_pos id

theorem blob_pos (f : Format) (n : Nat) : 0 < f.blob n := by
  cases f with
  | bincode => exact Nat.add_pos_left (by decide) _
  | messagePack => exact head_add_pos id

theorem items_add_pos (f : Format) {n m : Nat} (h : n ≤ m) : 0 < f.items n + m := by
  cases f with
  | bincode => exact Nat.add_pos_left (Nat.succ_pos 7) _
  | messagePack => exact Nat.lt_of_lt_of_le (head_add_pos id) (Nat.add_le_add_left h _)

theorem entries_add_pos (f : Format) {n m : Nat} (h : n ≤ m) : 0 < f.entries n + m := by
  cases f with
  | bincode => exact Nat.add_pos_left (Nat.succ_pos 7) _
  | messagePack => exact Nat.lt_of_lt_of_le (head_add_pos id) (Nat.add_le_add_left h _)

theorem variant_pos (f : Format) (name : String) (names : List String) :
    0 < f.variant name names := by
  cases f with
  | bincode => exact Nat.succ_pos 3
  | messagePack =>
    have htext := text_pos .messagePack name.utf8ByteSize
    unfold Format.variant
    dsimp only
    split_ifs
    · exact htext
    · omega

mutual

theorem Shape.size_pos (f : Format) (order : HashOrder) (s : Shape) (hs : s.solid = true)
    (v : s.Val) : 0 < s.size f order v := by
  match s with
  | .bool => exact Nat.one_pos
  | .u8 =>
    have hlt := UInt8.toNat_lt v
    exact integer_pos f Nat.one_pos (by omega) (by omega)
  | .u16 =>
    have hlt := UInt16.toNat_lt v
    exact integer_pos f (by decide) (by omega) (by omega)
  | .u32 =>
    have hlt := UInt32.toNat_lt v
    exact integer_pos f (by decide) (by omega) (by omega)
  | .u64 =>
    have hlt := UInt64.toNat_lt v
    exact integer_pos f (by decide) (by omega) (by omega)
  | .i32 =>
    have hle := Int32.le_toInt v
    have hlt := Int32.toInt_lt v
    exact integer_pos f (by decide) (by omega) (by omega)
  | .str => exact text_pos f _
  | .bytes n => exact blob_pos f n
  | .option s =>
    cases v with
    | none => exact Nat.one_pos
    | some a => exact Nat.add_pos_right _ (s.size_pos f order hs a)
  | .seq s => exact items_add_pos f (length_le_sum_map (s.size_pos f order hs))
  | .map =>
    exact entries_add_pos f (length_le_sum_map fun e => Nat.add_pos_left (text_pos f _) _)
  | .struct fs => exact Nat.add_pos_right _ (fs.size_pos f order hs v)
  | .enum _ name payload => exact Nat.add_pos_left (variant_pos f _ _) _

theorem Fields.size_pos (f : Format) (order : HashOrder) (fs : Fields) (hfs : fs.solid = true)
    (v : fs.Val) : 0 < fs.size f order v := by
  match fs with
  | .nil => cases hfs
  | .field _ _ s rest =>
    rcases (Bool.or_eq_true _ _).mp hfs with hs | hrest
    · exact Nat.add_pos_left (s.size_pos f order hs v.1) _
    · exact Nat.add_pos_right _ (rest.size_pos f order hrest v.2)

end

mutual

/-- No length in a value is greater than that of its encoding. -/
theorem Shape.fits_of_size_lt (f : Format) (order : HashOrder) {bound : Nat} (s : Shape)
    (hs : s.modest bound = true) (v : s.Val) (h : s.size f order v < bound) :
    s.Fits order bound v := by
  match s with
  | .bool | .u8 | .u16 | .u32 | .u64 | .i32 => trivial
  | .str => exact (le_text f _).trans_lt h
  | .bytes n => exact (le_blob f n).trans_lt h
  | .option s =>
    rintro a rfl
    exact s.fits_of_size_lt f order hs a ((Nat.le_add_left _ _).trans_lt h)
  | .seq s =>
    obtain ⟨hsolid, hs⟩ := (Bool.and_eq_true _ _).mp hs
    have hsum := (Nat.le_add_left _ _).trans_lt h
    exact ⟨(length_le_sum_map (s.size_pos f order hsolid)).trans_lt hsum, fun a ha =>
      s.fits_of_size_lt f order hs a ((size_le_sum_map ha).trans_lt hsum)⟩
  | .map =>
    have hsum := (Nat.le_add_left _ _).trans_lt h
    refine ⟨(length_le_sum_map fun e => Nat.add_pos_left (text_pos f _) _).trans_lt hsum,
      fun e he => ?_⟩
    have hle := (size_le_sum_map he).trans_lt hsum
    have hkey := le_text f e.1.utf8ByteSize
    have hvalue := le_text f e.2.utf8ByteSize
    omega
  | .struct fs =>
    obtain ⟨hnames, hfs⟩ := (Bool.and_eq_true _ _).mp hs
    exact ⟨of_decide_eq_true hnames,
      fs.fits_of_size_lt f order hfs v ((Nat.le_add_left _ _).trans_lt h)⟩
  | .enum n name payload =>
    have hv := List.all_eq_true.mp hs v.1 (List.mem_finRange v.1)
    rw [Bool.and_eq_true, Bool.and_eq_true] at hv
    exact ⟨of_decide_eq_true hv.1.1, of_decide_eq_true hv.1.2,
      (payload v.1).fits_of_size_lt f order hv.2 v.2 ((Nat.le_add_left _ _).trans_lt h)⟩

theorem Fields.fits_of_size_lt (f : Format) (order : HashOrder) {bound : Nat} (fs : Fields)
    (hfs : fs.modest bound = true) (v : fs.Val) (h : fs.size f order v < bound) :
    fs.Fits order bound v := by
  match fs with
  | .nil => trivial
  | .field name _ s rest =>
    rw [Fields.modest, Bool.and_eq_true, Bool.and_eq_true] at hfs
    exact ⟨of_decide_eq_true hfs.1.1,
      s.fits_of_size_lt f order hfs.1.2 v.1 ((Nat.le_add_right _ _).trans_lt h),
      rest.fits_of_size_lt f order hfs.2 v.2 ((Nat.le_add_left _ _).trans_lt h)⟩

end

end Serde

end Shelly
