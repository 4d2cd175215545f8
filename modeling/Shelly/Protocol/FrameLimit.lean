import Shelly.Framework.Sizes
import Shelly.Protocol.FramedStream

namespace Shelly

open Serde Serde.Derived

variable {α : Type} [Derived α] {order : HashOrder} {a : α}

/-- The framing that writes in a format. -/
def Format.framing (f : Format) (α : Type) [Derived α] (order : HashOrder) : Framing α :=
  match f with
  | .bincode => bincodeFraming α order
  | .messagePack => messagePackFraming α order

/-- The lengths that a format can express are below this. -/
def Format.bound : Format → Nat
  | .bincode => 2 ^ 64
  | .messagePack => 2 ^ 32

/-- The length of the payload of a message. -/
def encodedLen (f : Format) (order : HashOrder) (a : α) : Nat := (shape α).size f order (toVal a)

theorem length_of_encode {f : Format} {payload : List UInt8}
    (h : (f.framing α order).encode a = some payload) : payload.length = encodedLen f order a := by
  cases f with
  | bincode => exact (shape α).sized_bincode order h
  | messagePack =>
    have hlength := Pack.length_encode _ h
    rw [Shape.size_pack] at hlength
    exact hlength

/-- An estimate of the length of the payload, the same for both formats. -/
def encodedRoom (order : HashOrder) (a : α) : Nat := (shape α).room order (toVal a)

theorem encodedLen_le (f : Format) : encodedLen f order a ≤ encodedRoom order a :=
  (shape α).size_le_room f order (toVal a)

/-- A message whose payload is not too long has one. -/
theorem exists_encode {f : Format} (hmodest : (shape α).modest f.bound = true)
    (h : encodedLen f order a < f.bound) :
    ∃ payload, (f.framing α order).encode a = some payload := by
  cases f with
  | bincode =>
    exact (shape α).writes_bincode order wellFormed (toVal a)
      ((shape α).fits_of_size_lt .bincode order hmodest (toVal a) h)
  | messagePack =>
    exact (shape α).writes_pack order (toVal a)
      ((shape α).fits_of_size_lt .messagePack order hmodest (toVal a) h)

/-- A message is written whole if its payload has at most the length of a frame. Otherwise nothing
of it is. -/
theorem writeFramed_whole_or_nothing {f : Format} (order : HashOrder)
    (hmodest : (shape α).modest f.bound = true) (a : α) (w : Sink) :
    if encodedLen f order a ≤ maxFrameLen then
      ∃ payload, (f.framing α order).encode a = some payload ∧
        payload.length = encodedLen f order a ∧
        writeFramed (f.framing α order) w a = writeFrame payload 0 w
    else ∃ error, writeFramed (f.framing α order) w a = (.error error, w) := by
  split
  · rename_i hle
    have hlt : encodedLen f order a < f.bound :=
      hle.trans_lt (by cases f <;> decide)
    obtain ⟨payload, hpayload⟩ := exists_encode hmodest hlt
    have hlength := length_of_encode hpayload
    refine ⟨payload, hpayload, hlength, ?_⟩
    rw [writeFramed, hpayload]
    exact if_neg (by omega)
  · rename_i hlong
    unfold writeFramed
    cases hencode : (f.framing α order).encode a with
    | none => exact ⟨_, rfl⟩
    | some payload =>
      have hlength := length_of_encode hencode
      exact ⟨_, if_pos (by omega)⟩

end Shelly
