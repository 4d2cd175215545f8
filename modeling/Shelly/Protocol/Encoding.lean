import Shelly.Framework.Bincode
import Shelly.Framework.MessagePack
import Shelly.Protocol.Wire

namespace Shelly

open Serde Serde.Derived

variable {α : Type} [Derived α]

/-- Payloads of the local socket and of the database, in the fixed-width layout. -/
def encodeBincode (order : HashOrder) (a : α) : Option (List UInt8) :=
  ((shape α).bincode order).encode (toVal a)

def decodeBincode (α : Type) [Derived α] (order : HashOrder) (payload : List UInt8) : Option α :=
  (((shape α).bincode order).decodeAll payload).map ofVal

/-- Payloads of remote and mobile streams, with the names of the fields. -/
def encodeMessagepack (order : HashOrder) (a : α) : Option (List UInt8) :=
  Pack.codec.encode ((shape α).pack order (toVal a))

def decodeMessagepack (α : Type) [Derived α] (payload : List UInt8) : Option α :=
  (Pack.codec.decodeAll payload).bind fun p => ((shape α).unpack p).map ofVal

/-- All lengths in the value are below the bound. -/
def Fits (order : HashOrder) (bound : Nat) (a : α) : Prop :=
  (shape α).Fits order bound (toVal a)

/-- What is written is read back, and nothing may follow it. -/
def RoundTrips (encode : α → Option (List UInt8)) (decode : List UInt8 → Option α) (a : α) : Prop :=
  ∀ bytes, encode a = some bytes →
    decode bytes = some a ∧ ∀ extra, extra ≠ [] → decode (bytes ++ extra) = none

theorem bincode_roundTrips (order order' : HashOrder) (a : α) :
    RoundTrips (encodeBincode order) (decodeBincode α order') a := by
  intro bytes h
  have hdecode := (shape α).decodeAll_bincode order order'
  refine ⟨?_, fun extra hextra => ?_⟩
  · rw [decodeBincode, ← hdecode, Codec.decodeAll_encode h, Option.map_some, ofVal_toVal]
  · rw [decodeBincode, ← hdecode, Codec.decodeAll_append h hextra, Option.map_none]

theorem messagepack_roundTrips (order : HashOrder) (a : α) :
    RoundTrips (encodeMessagepack order) (decodeMessagepack α) a := by
  intro bytes h
  refine ⟨?_, fun extra hextra => ?_⟩
  · rw [decodeMessagepack, Codec.decodeAll_encode h, Option.bind_some,
      Shape.unpack_pack order _ wellFormed, Option.map_some, ofVal_toVal]
  · rw [decodeMessagepack, Codec.decodeAll_append h hextra, Option.bind_none]

theorem exists_encodeBincode {order : HashOrder} {a : α} (h : Fits order (2 ^ 64) a) :
    ∃ bytes, encodeBincode order a = some bytes :=
  (shape α).writes_bincode order wellFormed (toVal a) h

theorem exists_encodeMessagepack {order : HashOrder} {a : α} (h : Fits order (2 ^ 32) a) :
    ∃ bytes, encodeMessagepack order a = some bytes :=
  (shape α).writes_pack order (toVal a) h

/-- Both formats carry every message whose lengths they can express. -/
theorem messages_roundTrip (order order' : HashOrder) :
    (∀ m : Wire.ClientToServerMsg,
      RoundTrips (encodeBincode order) (decodeBincode _ order') m ∧
      RoundTrips (encodeMessagepack order) (decodeMessagepack _) m ∧
      (Fits order (2 ^ 64) m → ∃ bytes, encodeBincode order m = some bytes) ∧
      (Fits order (2 ^ 32) m → ∃ bytes, encodeMessagepack order m = some bytes)) ∧
    ∀ m : Wire.ServerToClientMsg,
      RoundTrips (encodeBincode order) (decodeBincode _ order') m ∧
      RoundTrips (encodeMessagepack order) (decodeMessagepack _) m ∧
      (Fits order (2 ^ 64) m → ∃ bytes, encodeBincode order m = some bytes) ∧
      (Fits order (2 ^ 32) m → ∃ bytes, encodeMessagepack order m = some bytes) :=
  ⟨fun m => ⟨bincode_roundTrips order order' m, messagepack_roundTrips order m,
      exists_encodeBincode, exists_encodeMessagepack⟩,
    fun m => ⟨bincode_roundTrips order order' m, messagepack_roundTrips order m,
      exists_encodeBincode, exists_encodeMessagepack⟩⟩

/-- The bytes of a ping in the fixed-width layout are read back, and it has bytes in the
named form. -/
theorem messages_roundTrip_ping : ∃ order : HashOrder,
    decodeBincode Wire.ClientToServerMsg order [8, 0, 0, 0, 5, 0, 0, 0, 0, 0, 0, 0] =
      some (.ping 5) ∧
    ∃ bytes, encodeMessagepack order (.ping 5 : Wire.ClientToServerMsg) = some bytes := by
  obtain ⟨order⟩ : Nonempty HashOrder := inferInstance
  obtain ⟨hbincode, -, -, hwrites⟩ := (messages_roundTrip order order).1 (.ping 5)
  refine ⟨order, (hbincode _ rfl).1, hwrites ?_⟩
  exact ⟨by decide, by decide, by decide, trivial, trivial⟩

example (order : HashOrder) :
    encodeMessagepack order (.ping 5 : Wire.ClientToServerMsg) =
      some [0x81, 0xa4, 0x50, 0x69, 0x6e, 0x67, 0x81, 0xa3, 0x73, 0x65, 0x71, 5] := rfl

end Shelly
