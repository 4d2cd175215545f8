import Shelly.Framework.Codec
import Shelly.Framework.Serde

namespace Shelly

namespace Bincode

def u16 : Codec UInt16 :=
  (Codec.uint 2).imap (fun n => some (.ofNat n)) UInt16.toNat fun n => by simp

def u32 : Codec UInt32 :=
  (Codec.uint 4).imap (fun n => some (.ofNat n)) UInt32.toNat fun n => by simp

def u64 : Codec UInt64 :=
  (Codec.uint 8).imap (fun n => some (.ofNat n)) UInt64.toNat fun n => by simp

def i32 : Codec Int32 := u32.imap (fun n => some n.toInt32) Int32.toUInt32 fun n => by simp

/-- Lengths take eight bytes. -/
def length : Codec Nat := Codec.uint 8

def bool : Codec Bool :=
  Codec.byte.imap (fun byte => if byte = 0 then some false else if byte = 1 then some true else none)
    (fun b => if b then 1 else 0) fun b => by cases b <;> rfl

/-- The index of a variant takes four bytes. -/
def variant (n : Nat) : Codec (Fin n) :=
  (Codec.uint 4).imap (fun i => if h : i < n then some ⟨i, h⟩ else none) Fin.val fun i => by simp

def option {α : Type*} (c : Codec α) : Codec (Option α) where
  encode
    | none => some [0]
    | some a => (c.encode a).map (1 :: ·)
  decode
    | [] => none
    | byte :: rest =>
      if byte = 0 then some (none, rest)
      else if byte = 1 then (c.decode rest).map fun (a, rest) => (some a, rest)
      else none
  decode_append {a bytes} h rest := by
    cases a with
    | none =>
      obtain rfl := Option.some.inj h
      rfl
    | some a =>
      obtain ⟨tail, htail, rfl⟩ := Option.map_eq_some_iff.mp h
      have hdecode := c.decode_append htail rest
      simp [hdecode]

def bytes (n : Nat) : Codec (Vector UInt8 n) :=
  (Codec.list length Codec.byte).imap
    (fun l => if h : l.toArray.size = n then some ⟨l.toArray, h⟩ else none) Vector.toList
    fun v => by simp [Vector.toList]

def map (order : Serde.HashOrder) : Codec Serde.TextMap :=
  (Codec.list length ((Codec.text length).pair (Codec.text length))).imap
    (fun entries => some (Serde.collect entries)) order.entries
    fun m => congrArg some (Serde.collect_entries order m)

end Bincode

namespace Serde

open Bincode

mutual

/-- The fixed-width layout of bincode: numbers little-endian, lengths in eight bytes,
fields without their names. -/
def Shape.bincode (order : HashOrder) : (s : Shape) → Codec s.Val
  | .bool => Bincode.bool
  | .u8 => Codec.byte
  | .u16 => Bincode.u16
  | .u32 => Bincode.u32
  | .u64 => Bincode.u64
  | .i32 => Bincode.i32
  | .str => Codec.text length
  | .bytes n => Bincode.bytes n
  | .option s => Bincode.option (s.bincode order)
  | .seq s => Codec.list length (s.bincode order)
  | .map => Bincode.map order
  | .struct fs => fs.bincode order
  | .enum n _ payload => Codec.sigma (variant n) fun i => (payload i).bincode order

def Fields.bincode (order : HashOrder) : (fs : Fields) → Codec fs.Val
  | .nil => Codec.unit
  | .field _ _ s rest => (s.bincode order).pair (rest.bincode order)

end

theorem decode_list_congr {α : Type*} {c d : Codec α} (count : Codec Nat)
    (h : c.decode = d.decode) : (Codec.list count c).decode = (Codec.list count d).decode := by
  funext input
  simp only [Codec.list, h]

mutual

/-- Readers do not depend on the order in which the writer walks its maps. -/
theorem Shape.decode_bincode (order order' : HashOrder) (s : Shape) :
    (s.bincode order).decode = (s.bincode order').decode := by
  match s with
  | .bool | .u8 | .u16 | .u32 | .u64 | .i32 | .str | .bytes _ | .map => rfl
  | .option s =>
    have hs := s.decode_bincode order order'
    funext input
    change (Bincode.option (s.bincode order)).decode input =
      (Bincode.option (s.bincode order')).decode input
    simp only [Bincode.option, hs]
  | .seq s => exact decode_list_congr _ (s.decode_bincode order order')
  | .struct fs => exact fs.decode_bincode order order'
  | .enum n _ payload =>
    funext input
    change (Codec.sigma (variant n) fun i => (payload i).bincode order).decode input =
      (Codec.sigma (variant n) fun i => (payload i).bincode order').decode input
    simp only [Codec.sigma, fun i => (payload i).decode_bincode order order']

theorem Fields.decode_bincode (order order' : HashOrder) (fs : Fields) :
    (fs.bincode order).decode = (fs.bincode order').decode := by
  match fs with
  | .nil => rfl
  | .field _ _ s rest =>
    have hs := s.decode_bincode order order'
    have hrest := rest.decode_bincode order order'
    change ((s.bincode order).pair (rest.bincode order)).decode =
      ((s.bincode order').pair (rest.bincode order')).decode
    simp only [Codec.pair, hs, hrest]

end

theorem Shape.decodeAll_bincode (order order' : HashOrder) (s : Shape) :
    (s.bincode order).decodeAll = (s.bincode order').decodeAll := by
  funext input
  rw [Codec.decodeAll, Codec.decodeAll, s.decode_bincode order order']

theorem writes_length {n : Nat} (h : n < 2 ^ 64) : Bincode.length.Writes n :=
  Codec.writes_uint (by omega)

theorem writes_variant {n : Nat} (i : Fin n) (hn : n ≤ 2 ^ 32) : (variant n).Writes i :=
  Codec.writes_uint (by omega)

theorem writes_option {α : Type*} {c : Codec α} {v : Option α} (h : ∀ a ∈ v, c.Writes a) :
    (Bincode.option c).Writes v := by
  cases v with
  | none => exact ⟨[0], rfl⟩
  | some a =>
    obtain ⟨bytes, hbytes⟩ := h a rfl
    exact ⟨1 :: bytes, by simp only [Bincode.option, hbytes, Option.map_some]⟩

theorem writes_map {order : HashOrder} {m : TextMap}
    (hlength : (order.entries m).length < 2 ^ 64)
    (h : ∀ e ∈ order.entries m, e.1.utf8ByteSize < 2 ^ 64 ∧ e.2.utf8ByteSize < 2 ^ 64) :
    (Bincode.map order).Writes m :=
  Codec.writes_list (writes_length hlength) fun e he =>
    Codec.Writes.pair (Codec.writes_text (writes_length (h e he).1))
      (Codec.writes_text (writes_length (h e he).2))

mutual

/-- A value whose lengths fit in eight bytes can be written. -/
theorem Shape.writes_bincode (order : HashOrder) (s : Shape) (hs : s.wellFormed = true)
    (v : s.Val) (h : s.Fits order (2 ^ 64) v) : (s.bincode order).Writes v := by
  match s with
  | .bool => exact Codec.writes_byte _
  | .u8 => exact Codec.writes_byte _
  | .u16 => exact Codec.writes_uint (UInt16.toNat_lt v)
  | .u32 => exact Codec.writes_uint (UInt32.toNat_lt v)
  | .u64 => exact Codec.writes_uint (UInt64.toNat_lt v)
  | .i32 => exact Codec.writes_uint (UInt32.toNat_lt (Int32.toUInt32 v))
  | .str => exact Codec.writes_text (writes_length h)
  | .bytes n =>
    refine Codec.writes_list (writes_length ?_) fun byte _ => Codec.writes_byte byte
    have hlength : (v : Vector UInt8 n).toList.length = n := Vector.length_toList
    exact hlength.trans_lt h
  | .option s =>
    obtain ⟨-, hs⟩ := (Bool.and_eq_true _ _).mp hs
    exact writes_option fun a ha => s.writes_bincode order hs a (h a ha)
  | .seq s =>
    exact Codec.writes_list (writes_length h.1) fun a ha => s.writes_bincode order hs a (h.2 a ha)
  | .map => exact writes_map h.1 h.2
  | .struct fs => exact fs.writes_bincode order (wellFormed_struct.mp hs).2 v h.2
  | .enum n _ payload =>
    obtain ⟨hn, -, hpayload⟩ := wellFormed_enum.mp hs
    exact Codec.Writes.sigma (writes_variant v.1 hn)
      ((payload v.1).writes_bincode order (hpayload v.1).2 v.2 h.2.2)

theorem Fields.writes_bincode (order : HashOrder) (fs : Fields) (hfs : fs.wellFormed = true)
    (v : fs.Val) (h : fs.Fits order (2 ^ 64) v) : (fs.bincode order).Writes v := by
  match fs with
  | .nil => exact ⟨[], rfl⟩
  | .field _ _ s rest =>
    obtain ⟨hs, hrest⟩ := (Bool.and_eq_true _ _).mp hfs
    exact Codec.Writes.pair (s.writes_bincode order hs v.1 h.2.1)
      (rest.writes_bincode order hrest v.2 h.2.2)

end

end Serde

end Shelly
