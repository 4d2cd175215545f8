import Mathlib.Algebra.Group.Nat.Defs
import Shelly.Framework.Bincode

namespace Shelly

namespace Postcard

/-- Seven bits in each byte, the lowest first; a byte that is not the last has its highest
bit set. So many bytes are enough for the number. -/
def varintBytes : Nat → Nat → List UInt8
  | 0, _ => []
  | count + 1, n =>
    if n < 128 then [UInt8.ofNat n]
    else UInt8.ofNat (n % 128 + 128) :: varintBytes count (n / 128)

/-- Reads a number of so many bits from at most so many bytes. -/
def readVarint : Nat → Nat → Reader Nat
  | 0, _, _ => none
  | _ + 1, _, [] => none
  | count + 1, width, byte :: input =>
    if byte.toNat < 128 then if byte.toNat < 2 ^ width then some (byte.toNat, input) else none
    else (readVarint count (width - 7) input).map fun (high, rest) =>
      (byte.toNat - 128 + 128 * high, rest)

theorem readVarint_varintBytes {count width n : Nat} (hcount : 0 < count)
    (hwidth : width ≤ 7 * count) (h : n < 2 ^ width) (rest : List UInt8) :
    readVarint count width (varintBytes count n ++ rest) = some (n, rest) := by
  induction count generalizing width n with
  | zero => omega
  | succ count ih =>
    by_cases hn : n < 128
    · have hbyte : (UInt8.ofNat n).toNat = n := Nat.mod_eq_of_lt (by omega)
      simp only [varintBytes, hn, if_true, List.singleton_append, readVarint, hbyte, h]
    · have hbyte : (UInt8.ofNat (n % 128 + 128)).toNat = n % 128 + 128 :=
        Nat.mod_eq_of_lt (by omega)
      have hseven : 7 < width := by
        by_contra hle
        have hpow : 2 ^ width ≤ 2 ^ 7 := Nat.pow_le_pow_right (by decide) (by omega)
        omega
      have hhigh : n / 128 < 2 ^ (width - 7) := by
        apply Nat.div_lt_of_lt_mul
        rw [show 128 = 2 ^ 7 from rfl, ← Nat.pow_add, Nat.add_sub_cancel' (by omega)]
        exact h
      have hmore : ¬ n % 128 + 128 < 128 := by omega
      simp only [varintBytes, hn, if_false, List.cons_append, readVarint, hbyte, hmore,
        ih (by omega) (by omega) hhigh, Option.map_some]
      congr 2
      omega

def varint (width : Nat) : Codec Nat where
  encode n := if 0 < width ∧ n < 2 ^ width then some (varintBytes ((width + 6) / 7) n) else none
  decode := readVarint ((width + 6) / 7) width
  decode_append {n bytes} h rest := by
    obtain ⟨⟨hpos, hlt⟩, h⟩ := Option.ite_none_right_eq_some.mp h
    obtain rfl := Option.some.inj h
    exact readVarint_varintBytes (by omega) (by omega) hlt rest

def length : Codec Nat := varint 64

theorem some_ofNat_toNat (n : UInt64) : some (UInt64.ofNat n.toNat) = some n :=
  congrArg some UInt64.ofNat_toNat

def u64 : Codec UInt64 :=
  (varint 64).imap (fun n => some (.ofNat n)) UInt64.toNat some_ofNat_toNat

def str : Codec String := Codec.text length

def option {α : Type*} (c : Codec α) : Codec (Option α) := Bincode.option c

def seq {α : Type*} (c : Codec α) : Codec (List α) := Codec.list length c

theorem writes_varint {width n : Nat} (hwidth : 0 < width) (h : n < 2 ^ width) :
    (varint width).Writes n := ⟨_, if_pos ⟨hwidth, h⟩⟩

theorem writes_u64 (n : UInt64) : u64.Writes n := writes_varint (by decide) n.toNat_lt

theorem writes_str {s : String} (h : s.utf8ByteSize < 2 ^ 64) : str.Writes s :=
  Codec.writes_text (writes_varint (by decide) h)

theorem writes_seq {α : Type*} {c : Codec α} {l : List α} (hlength : l.length < 2 ^ 64)
    (h : ∀ a ∈ l, c.Writes a) : (seq c).Writes l :=
  Codec.writes_list (writes_varint (by decide) hlength) h

end Postcard

end Shelly
