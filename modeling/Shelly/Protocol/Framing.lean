import Mathlib.Algebra.Group.Nat.Defs
import Mathlib.Data.List.Basic
import Mathlib.Data.List.Infix

namespace Shelly

def maxFrameLen : Nat := 1024 * 1024

/-- Four bytes, the most significant first. -/
def u32ToBeBytes (n : Nat) : List UInt8 :=
  (List.range 4).reverse.map fun i => UInt8.ofNat (n / 256 ^ i % 256)

/-- A payload behind its length. -/
def frame (payload : List UInt8) : List UInt8 := u32ToBeBytes payload.length ++ payload

def frames (payloads : List (List UInt8)) : List UInt8 := payloads.flatMap frame

/-- What `write_framed` offers to the writer when so much of the frame is written. -/
def offered (payload : List UInt8) (written : Nat) : List UInt8 :=
  if written < 4 then (u32ToBeBytes payload.length).drop written ++ payload
  else payload.drop (written - 4)

/-- The stream is these frames, the last of them perhaps only in part. -/
def Framed (payloads : List (List UInt8)) (stream : List UInt8) : Prop :=
  ∃ whole last : List (List UInt8), payloads = whole ++ last ∧ last.length ≤ 1 ∧
    ∃ part, part <+: frames last ∧ stream = frames whole ++ part

variable {payload part stream : List UInt8} {payloads : List (List UInt8)} {written count : Nat}

theorem length_u32ToBeBytes (n : Nat) : (u32ToBeBytes n).length = 4 := by simp [u32ToBeBytes]

theorem length_frame (payload : List UInt8) : (frame payload).length = 4 + payload.length := by
  rw [frame, List.length_append, length_u32ToBeBytes]

@[simp] theorem frames_nil : frames [] = [] := rfl

@[simp] theorem frames_append (payloads payloads' : List (List UInt8)) :
    frames (payloads ++ payloads') = frames payloads ++ frames payloads' := List.flatMap_append

@[simp] theorem frames_singleton (payload : List UInt8) : frames [payload] = frame payload :=
  List.flatMap_singleton _ _

/-- The rest of the frame is offered. -/
theorem offered_eq_drop (payload : List UInt8) (written : Nat) :
    offered payload written = (frame payload).drop written := by
  have hlength := length_u32ToBeBytes payload.length
  unfold offered frame
  split
  · rw [List.drop_append_of_le_length (by omega)]
  · have hprefix : (u32ToBeBytes payload.length).drop written = [] :=
      List.drop_eq_nil_of_le (by omega)
    rw [List.drop_append, hprefix, List.nil_append, hlength]

/-- A write that takes some of what is offered goes on where the last one stopped. -/
theorem take_append_offered (payload : List UInt8) (written count : Nat) :
    (frame payload).take written ++ (offered payload written).take count =
      (frame payload).take (written + count) := by
  rw [offered_eq_drop, List.take_add]

theorem framed_frames (payloads : List (List UInt8)) : Framed payloads (frames payloads) :=
  ⟨payloads, [], (List.append_nil _).symm, Nat.zero_le _, [], List.prefix_rfl,
    (List.append_nil _).symm⟩

theorem framed_part (payloads : List (List UInt8)) (h : part <+: frame payload) :
    Framed (payloads ++ [payload]) (frames payloads ++ part) :=
  ⟨payloads, [payload], rfl, Nat.le_refl 1, part, by rwa [frames_singleton], rfl⟩

/-- Every frame but the last is there to its end. -/
theorem Framed.dropLast (h : Framed payloads stream) : frames payloads.dropLast <+: stream := by
  obtain ⟨whole, last, rfl, hlast, part, -, rfl⟩ := h
  have hwhole : (whole ++ last).dropLast <+: whole := by
    match last, hlast with
    | [], _ => rw [List.append_nil]; exact List.dropLast_prefix whole
    | [_], _ => rw [List.dropLast_concat]
  obtain ⟨rest, hrest⟩ := hwhole
  refine ⟨frames rest ++ part, ?_⟩
  rw [← List.append_assoc, ← frames_append, hrest]

end Shelly
