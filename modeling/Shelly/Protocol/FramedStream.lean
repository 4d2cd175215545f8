import Shelly.Framework.Transfer
import Shelly.Protocol.Encoding
import Shelly.Protocol.Framing

namespace Shelly

open Serde

def readChunkLen : Nat := 8 * 1024

/-- The serialization strategy used inside a frame. -/
structure Framing (α : Type) where
  encode : α → Option (List UInt8)
  decode : List UInt8 → Option α
  decode_encode : ∀ {a payload}, encode a = some payload → decode payload = some a

def bincodeFraming (α : Type) [Derived α] (order : HashOrder) : Framing α where
  encode := encodeBincode order
  decode := decodeBincode α order
  decode_encode h := (bincode_roundTrips order order _ _ h).1

def messagePackFraming (α : Type) [Derived α] (order : HashOrder) : Framing α where
  encode := encodeMessagepack order
  decode := decodeMessagepack α
  decode_encode h := (messagepack_roundTrips order _ _ h).1

inductive ReadFrameError
  | readLength | tooLarge (len : Nat) | readPayload | decode
  deriving DecidableEq

inductive WriteFrameError
  | encode | tooLarge (len : Nat) | writeLength | writePayload
  deriving DecidableEq

inductive FrameError
  | tooLarge (len : Nat) | encode
  deriving DecidableEq

def u32FromBeBytes (bytes : List UInt8) : Nat :=
  bytes.foldl (fun n byte => 256 * n + byte.toNat) 0

/-- The payload grows by small increments, so that a length alone allocates little. -/
def readPayload (len : Nat) (payload : List UInt8) (s : Source) : Option (List UInt8) × Source :=
  if payload.length < len then
    let n := min (len - payload.length) readChunkLen
    match _hread : (s.readExact n).1 with
    | none => (none, (s.readExact n).2)
    | some chunk => readPayload len (payload ++ chunk) (s.readExact n).2
  else (some payload, s)
termination_by len - payload.length
decreasing_by
  have hlength := Source.length_readExact _hread
  have hn : 0 < n := by
    unfold n readChunkLen
    omega
  rw [List.length_append]
  omega

variable {α : Type}

/-- Reads one frame. The declared length is checked before anything of the payload is read. -/
def readFramed (F : Framing α) (s : Source) : Except ReadFrameError α × Source :=
  match s.readExact 4 with
  | (none, s) => (.error .readLength, s)
  | (some length, s) =>
    let len := u32FromBeBytes length
    if maxFrameLen < len then (.error (.tooLarge len), s)
    else match readPayload len [] s with
      | (none, s) => (.error .readPayload, s)
      | (some payload, s) =>
        match F.decode payload with
        | none => (.error .decode, s)
        | some message => (.ok message, s)

/-- The reader of the attached command line. -/
def readMessage [Derived α] (order : HashOrder) (s : Source) : Except String α × Source :=
  match s.readExact 4 with
  | (none, s) => (.error "read frame length", s)
  | (some length, s) =>
    let len := u32FromBeBytes length
    if maxFrameLen < len then (.error s!"frame too large: {len}", s)
    else match readPayload len [] s with
      | (none, s) => (.error "read frame payload", s)
      | (some payload, s) =>
        match decodeBincode α order payload with
        | none => (.error "decode frame", s)
        | some message => (.ok message, s)

/-- Offers what is left of the frame until all of it is written. -/
def writeFrame (payload : List UInt8) (written : Nat) (w : Sink) :
    Except WriteFrameError Unit × Sink :=
  if written < 4 + payload.length then
    let count := (w.write (offered payload written)).1
    if count = 0 then
      (.error (if written < 4 then .writeLength else .writePayload),
        (w.write (offered payload written)).2)
    else writeFrame payload (written + count) (w.write (offered payload written)).2
  else (.ok (), w)
termination_by 4 + payload.length - written

def writeFramed (F : Framing α) (w : Sink) (message : α) : Except WriteFrameError Unit × Sink :=
  match F.encode message with
  | none => (.error .encode, w)
  | some payload =>
    if maxFrameLen < payload.length then (.error (.tooLarge payload.length), w)
    else writeFrame payload 0 w

/-- The frame of a message in one piece. -/
def encodeFrame [Derived α] (order : HashOrder) (message : α) : Except FrameError (List UInt8) :=
  match encodeBincode order message with
  | none => .error .encode
  | some payload =>
    if maxFrameLen < payload.length then .error (.tooLarge payload.length)
    else .ok (frame payload)

/-- Calls a reader so many times. -/
def readMany {ε : Type} (read : Source → Except ε α × Source) :
    Nat → Source → Except ε (List α) × Source
  | 0, s => (.ok [], s)
  | n + 1, s => match read s with
    | (.error e, s) => (.error e, s)
    | (.ok message, s) => match readMany read n s with
      | (.error e, s) => (.error e, s)
      | (.ok messages, s) => (.ok (message :: messages), s)

/-- Writes messages until one fails. -/
def writeMany (F : Framing α) (w : Sink) : List α → Except WriteFrameError Unit × Sink
  | [] => (.ok (), w)
  | message :: messages => match writeFramed F w message with
    | (.error e, w) => (.error e, w)
    | (.ok (), w) => writeMany F w messages

section

variable {s : Source} {payload first rest : List UInt8}

theorem u32FromBeBytes_u32ToBeBytes {n : Nat} (h : n < 2 ^ 32) :
    u32FromBeBytes (u32ToBeBytes n) = n := by
  simp [u32ToBeBytes, u32FromBeBytes, List.range, List.range.loop]
  omega

theorem readPayload_chunk {len : Nat} {chunk : List UInt8} {s' : Source}
    (hlt : payload.length < len)
    (h : s.readExact (min (len - payload.length) readChunkLen) = (some chunk, s')) :
    readPayload len payload s = readPayload len (payload ++ chunk) s' := by
  rw [readPayload, if_pos hlt]
  dsimp only
  split
  · next hnone =>
    rw [h] at hnone
    cases hnone
  · next chunk' hchunk =>
    rw [h] at hchunk ⊢
    obtain rfl := Option.some.inj hchunk
    rfl

/-- However the payload arrives, it is read to its end and no further. -/
theorem readPayload_append {len : Nat} (hbytes : s.bytes = first ++ rest)
    (hlen : payload.length + first.length = len) :
    ∃ calls, readPayload len payload s = (some (payload ++ first), { s with bytes := rest, calls }) := by
  induction h : first.length using Nat.strongRecOn generalizing s payload first with
  | _ n ih =>
    by_cases hlt : payload.length < len
    · let k := min (len - payload.length) readChunkLen
      have hk : 0 < k ∧ k ≤ first.length := by
        unfold k readChunkLen
        omega
      have hsplit : s.bytes = first.take k ++ (first.drop k ++ rest) := by
        rw [← List.append_assoc, List.take_append_drop, hbytes]
      have htake : (first.take k).length = k := List.length_take_of_le hk.2
      have hdrop : (first.drop k).length = first.length - k := List.length_drop
      have hrestLength : (payload ++ first.take k).length + (first.drop k).length = len := by
        rw [List.length_append]
        omega
      obtain ⟨calls, hread⟩ := Source.readExact_append hsplit htake
      obtain ⟨calls', hrest⟩ := ih (first.drop k).length (by omega)
        (s := { s with bytes := first.drop k ++ rest, calls }) rfl hrestLength rfl
      rw [List.append_assoc, List.take_append_drop] at hrest
      refine ⟨calls', ?_⟩
      exact (readPayload_chunk hlt hread).trans hrest
    · obtain rfl : first = [] := List.length_eq_zero_iff.mp (by omega)
      refine ⟨s.calls, ?_⟩
      rw [readPayload, if_neg hlt, List.append_nil, ← List.nil_append rest, ← hbytes]

private theorem length_lt (hle : payload.length ≤ maxFrameLen) : payload.length < 2 ^ 32 := by
  unfold maxFrameLen at hle
  omega

/-- A reader is left at the next frame, with the message of this one. -/
theorem readFramed_frame {F : Framing α} {message : α} (hdecode : F.decode payload = some message)
    (hle : payload.length ≤ maxFrameLen) (hbytes : s.bytes = frame payload ++ rest) :
    ∃ calls, readFramed F s = (.ok message, { s with bytes := rest, calls }) := by
  rw [frame, List.append_assoc] at hbytes
  obtain ⟨calls, hlength⟩ := Source.readExact_append hbytes (length_u32ToBeBytes _)
  have hlen : ([] : List UInt8).length + payload.length = payload.length := Nat.zero_add _
  obtain ⟨calls', hpayload⟩ := readPayload_append (s := { s with bytes := payload ++ rest, calls })
    rfl hlen
  refine ⟨calls', ?_⟩
  rw [List.nil_append] at hpayload
  simp only [readFramed, hlength, u32FromBeBytes_u32ToBeBytes (length_lt hle),
    if_neg (Nat.not_lt.mpr hle), hpayload, hdecode]

theorem readMessage_frame [Derived α] {order : HashOrder} {message : α}
    (hdecode : decodeBincode α order payload = some message)
    (hle : payload.length ≤ maxFrameLen) (hbytes : s.bytes = frame payload ++ rest) :
    ∃ calls, readMessage order s = (.ok message, { s with bytes := rest, calls }) := by
  rw [frame, List.append_assoc] at hbytes
  obtain ⟨calls, hlength⟩ := Source.readExact_append hbytes (length_u32ToBeBytes _)
  have hlen : ([] : List UInt8).length + payload.length = payload.length := Nat.zero_add _
  obtain ⟨calls', hpayload⟩ := readPayload_append (s := { s with bytes := payload ++ rest, calls })
    rfl hlen
  refine ⟨calls', ?_⟩
  rw [List.nil_append] at hpayload
  simp only [readMessage, hlength, u32FromBeBytes_u32ToBeBytes (length_lt hle),
    if_neg (Nat.not_lt.mpr hle), hpayload, hdecode]

/-- A length over the maximum is refused before anything behind it is read. -/
theorem readFramed_tooLarge (F : Framing α) {len : Nat} (hlt : maxFrameLen < len)
    (hlen : len < 2 ^ 32) (hbytes : s.bytes = u32ToBeBytes len ++ rest) :
    ∃ calls, readFramed F s = (.error (.tooLarge len), { s with bytes := rest, calls }) := by
  obtain ⟨calls, hlength⟩ := Source.readExact_append hbytes (length_u32ToBeBytes _)
  exact ⟨calls, by simp only [readFramed, hlength, u32FromBeBytes_u32ToBeBytes hlen, if_pos hlt]⟩

theorem readMessage_tooLarge [Derived α] (order : HashOrder) {len : Nat}
    (hlt : maxFrameLen < len) (hlen : len < 2 ^ 32) (hbytes : s.bytes = u32ToBeBytes len ++ rest) :
    ∃ calls, readMessage (α := α) order s =
      (.error s!"frame too large: {len}", { s with bytes := rest, calls }) := by
  obtain ⟨calls, hlength⟩ := Source.readExact_append hbytes (length_u32ToBeBytes _)
  exact ⟨calls, by simp only [readMessage, hlength, u32FromBeBytes_u32ToBeBytes hlen, if_pos hlt]⟩

/-- Messages with their payloads, each of which fits in a frame. -/
def Payloads (encode : α → Option (List UInt8)) (messages : List α)
    (payloads : List (List UInt8)) : Prop :=
  List.Forall₂ (fun message payload => encode message = some payload ∧
    payload.length ≤ maxFrameLen) messages payloads

/-- A reader that reads one frame reads a row of frames in order. -/
theorem readMany_frames {ε : Type} {read : Source → Except ε α × Source}
    {encode : α → Option (List UInt8)}
    (hread : ∀ {s : Source} {message payload rest}, encode message = some payload →
      payload.length ≤ maxFrameLen → s.bytes = frame payload ++ rest →
      ∃ calls, read s = (.ok message, { s with bytes := rest, calls }))
    {messages : List α} {payloads : List (List UInt8)}
    (hpayloads : Payloads encode messages payloads) (n : Nat) (hn : n ≤ messages.length)
    (hbytes : s.bytes = frames payloads ++ rest) :
    ∃ calls, readMany read n s = (.ok (messages.take n),
      { s with bytes := frames (payloads.drop n) ++ rest, calls }) := by
  induction n generalizing s messages payloads with
  | zero => exact ⟨s.calls, by rw [readMany, List.take_zero, List.drop_zero, ← hbytes]⟩
  | succ n ih =>
    cases hpayloads with
    | nil => exact absurd hn (Nat.not_succ_le_zero n)
    | @cons message payload messages payloads hfirst hothers =>
      have hsplit : s.bytes = frame payload ++ (frames payloads ++ rest) := by
        rw [hbytes, ← List.append_assoc]
        rfl
      obtain ⟨calls, hone⟩ := hread hfirst.1 hfirst.2 hsplit
      obtain ⟨calls', hmany⟩ := ih (s := { s with bytes := frames payloads ++ rest, calls })
        hothers (Nat.le_of_succ_le_succ hn) rfl
      exact ⟨calls', by simp only [readMany, hone, hmany, List.take_succ_cons, List.drop_succ_cons]⟩

end

/-- However much each call takes, the rest of the frame is written. -/
theorem writeFrame_spec (payload : List UInt8) (written : Nat) (w : Sink)
    (hle : written ≤ 4 + payload.length) :
    ∃ calls, writeFrame payload written w =
      (.ok (), { w with bytes := w.bytes ++ (frame payload).drop written, calls }) := by
  induction h : 4 + payload.length - written using Nat.strongRecOn generalizing written w with
  | _ n ih =>
    by_cases hlt : written < 4 + payload.length
    · have hoffered := offered_eq_drop payload written
      have hlength : (offered payload written).length = 4 + payload.length - written := by
        rw [hoffered, List.length_drop, length_frame]
      have hne : offered payload written ≠ [] := List.length_pos_iff.mp (by omega)
      have hpos := w.write_fst_pos hne
      have hmax := w.write_fst_le (offered payload written)
      obtain ⟨calls, hrest⟩ := ih _ (by omega) (written + (w.write (offered payload written)).1)
        (w.write (offered payload written)).2 (by omega) rfl
      have hbytes : (w.write (offered payload written)).2.bytes ++
          (frame payload).drop (written + (w.write (offered payload written)).1) =
          w.bytes ++ (frame payload).drop written := by
        change w.bytes ++ (offered payload written).take (w.write (offered payload written)).1 ++ _ = _
        rw [List.append_assoc, ← List.drop_drop, hoffered, List.take_append_drop]
      refine ⟨calls, ?_⟩
      rw [writeFrame, if_pos hlt]
      dsimp only
      rw [if_neg (Nat.ne_of_gt hpos), hrest, hbytes]
      rfl
    · refine ⟨w.calls, ?_⟩
      rw [writeFrame, if_neg hlt, List.drop_of_length_le (by rw [length_frame]; omega),
        List.append_nil]

theorem writeFramed_payload {F : Framing α} {message : α} {payload : List UInt8}
    (hencode : F.encode message = some payload) (hle : payload.length ≤ maxFrameLen) (w : Sink) :
    ∃ calls, writeFramed F w message =
      (.ok (), { w with bytes := w.bytes ++ frame payload, calls }) := by
  obtain ⟨calls, hwrite⟩ := writeFrame_spec payload 0 w (Nat.zero_le _)
  refine ⟨calls, ?_⟩
  simp only [writeFramed, hencode, if_neg (Nat.not_lt.mpr hle), hwrite, List.drop_zero]

theorem writeMany_frames {F : Framing α} {messages : List α} {payloads : List (List UInt8)}
    (hpayloads : Payloads F.encode messages payloads) (w : Sink) :
    ∃ calls, writeMany F w messages =
      (.ok (), { w with bytes := w.bytes ++ frames payloads, calls }) := by
  induction hpayloads generalizing w with
  | nil => exact ⟨w.calls, by rw [writeMany, frames_nil, List.append_nil]⟩
  | @cons message payload messages payloads hfirst _ ih =>
    obtain ⟨calls, hone⟩ := writeFramed_payload hfirst.1 hfirst.2 w
    obtain ⟨calls', hmany⟩ := ih { w with bytes := w.bytes ++ frame payload, calls }
    refine ⟨calls', ?_⟩
    simp only [writeMany, hone, hmany, List.append_assoc]
    rfl

/-- With any framing, what one side writes the other reads. -/
theorem framed_roundTrip {F : Framing α} {messages : List α} {payloads : List (List UInt8)}
    (hpayloads : Payloads F.encode messages payloads) (w : Sink) (s : Source)
    {rest : List UInt8} (hbytes : s.bytes = frames payloads ++ rest) :
    (∃ calls, writeMany F w messages =
      (.ok (), { w with bytes := w.bytes ++ frames payloads, calls })) ∧
    ∃ calls, readMany (readFramed F) messages.length s =
      (.ok messages, { s with bytes := rest, calls }) := by
  refine ⟨writeMany_frames hpayloads w, ?_⟩
  obtain ⟨calls, hread⟩ := readMany_frames (fun hencode => readFramed_frame (F.decode_encode hencode))
    hpayloads messages.length (Nat.le_refl _) hbytes
  refine ⟨calls, ?_⟩
  rw [hread, List.take_length, hpayloads.length_eq, List.drop_length]
  rfl

theorem encodeFrame_eq_ok [Derived α] {order : HashOrder} {message : α} {bytes : List UInt8} :
    encodeFrame order message = .ok bytes ↔ ∃ payload, encodeBincode order message = some payload ∧
      payload.length ≤ maxFrameLen ∧ frame payload = bytes := by
  unfold encodeFrame
  cases hencode : encodeBincode order message with
  | none => simp
  | some payload =>
    by_cases hlt : maxFrameLen < payload.length
    · simp [hlt]
    · simp [hlt, Nat.not_lt.mp hlt]

/-- Messages whose frames are known have payloads of which these are the frames. -/
theorem exists_payloads [Derived α] {order : HashOrder} {messages : List α}
    {encoded : List (List UInt8)}
    (h : List.Forall₂ (fun message bytes => encodeFrame order message = .ok bytes) messages encoded) :
    ∃ payloads, Payloads (encodeBincode order) messages payloads ∧
      payloads.map frame = encoded := by
  induction h with
  | nil => exact ⟨[], .nil, rfl⟩
  | cons hfirst _ ih =>
    obtain ⟨payload, hencode, hle, rfl⟩ := encodeFrame_eq_ok.mp hfirst
    obtain ⟨payloads, hpayloads, rfl⟩ := ih
    exact ⟨payload :: payloads, .cons ⟨hencode, hle⟩ hpayloads, rfl⟩

/-- A list of messages, each of which fits in a frame, is written as the row of its frames and
read back by both readers, one frame at a time. -/
theorem frames_roundTrip [Derived α] (order order' : HashOrder) (messages : List α)
    (encoded : List (List UInt8))
    (h : List.Forall₂ (fun message bytes => encodeFrame order message = .ok bytes)
      messages encoded) :
    (∀ w : Sink, ∃ calls, writeMany (bincodeFraming α order) w messages =
      (.ok (), { w with bytes := w.bytes ++ encoded.flatten, calls })) ∧
    (∀ (s : Source) rest, s.bytes = encoded.flatten ++ rest → ∀ n ≤ messages.length,
      (∃ calls, readMany (readFramed (bincodeFraming α order')) n s = (.ok (messages.take n),
        { s with bytes := (encoded.drop n).flatten ++ rest, calls })) ∧
      ∃ calls, readMany (readMessage order') n s = (.ok (messages.take n),
        { s with bytes := (encoded.drop n).flatten ++ rest, calls })) ∧
    ∀ (s : Source) rest len, maxFrameLen < len → len < 2 ^ 32 → s.bytes = u32ToBeBytes len ++ rest →
      (∃ calls, readFramed (bincodeFraming α order') s =
        (.error (.tooLarge len), { s with bytes := rest, calls })) ∧
      ∃ calls, readMessage (α := α) order' s =
        (.error s!"frame too large: {len}", { s with bytes := rest, calls }) := by
  obtain ⟨payloads, hpayloads, rfl⟩ := exists_payloads h
  have hframes : (payloads.map frame).flatten = frames payloads := rfl
  have hdrop : ∀ n, ((payloads.map frame).drop n).flatten = frames (payloads.drop n) := by
    intro n
    rw [← List.map_drop]
    rfl
  have hdecode : ∀ {message : α} {payload}, encodeBincode order message = some payload →
      decodeBincode α order' payload = some message :=
    fun hencode => (bincode_roundTrips order order' _ _ hencode).1
  refine ⟨fun w => writeMany_frames hpayloads w, fun s rest hbytes n hn => ?_,
    fun s rest len hlt hlen hbytes => ⟨readFramed_tooLarge _ hlt hlen hbytes,
      readMessage_tooLarge _ hlt hlen hbytes⟩⟩
  rw [hdrop]
  exact ⟨readMany_frames (fun hencode => readFramed_frame (hdecode hencode)) hpayloads n hn hbytes,
    readMany_frames (fun hencode => readMessage_frame (hdecode hencode)) hpayloads n hn hbytes⟩

/-- Two pings in two frames. -/
theorem frames_roundTrip_pings : ∃ order : HashOrder, ∃ calls,
    readMany (readMessage order) 2
      ⟨[0, 0, 0, 12, 8, 0, 0, 0, 1, 0, 0, 0, 0, 0, 0, 0, 0, 0, 0, 12, 8, 0, 0, 0, 2, 0, 0, 0, 0, 0,
        0, 0], fun _ => 3, 0⟩ =
      (.ok [(.ping 1 : Wire.ClientToServerMsg), .ping 2], ⟨[], fun _ => 3, calls⟩) := by
  obtain ⟨order⟩ : Nonempty HashOrder := inferInstance
  have hencoded : List.Forall₂ (fun message bytes => encodeFrame order message = .ok bytes)
      [(.ping 1 : Wire.ClientToServerMsg), .ping 2]
      [[0, 0, 0, 12, 8, 0, 0, 0, 1, 0, 0, 0, 0, 0, 0, 0],
        [0, 0, 0, 12, 8, 0, 0, 0, 2, 0, 0, 0, 0, 0, 0, 0]] :=
    .cons rfl (.cons rfl .nil)
  obtain ⟨-, hread, -⟩ := frames_roundTrip order order _ _ hencoded
  exact ⟨order, (hread _ [] rfl 2 (Nat.le_refl 2)).2⟩

end Shelly
