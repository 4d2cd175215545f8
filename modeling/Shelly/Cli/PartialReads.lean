import Shelly.Cli.AttachLoop

namespace Shelly.Cli

open Serde

/-- The bytes are the frames of these messages. -/
def Carries (order : HashOrder) (messages : List Wire.ServerToClientMsg) (bytes : List UInt8) :
    Prop :=
  ∃ payloads, Payloads (encodeBincode order) messages payloads ∧ bytes = frames payloads

section

variable {order : HashOrder} {messages : List Wire.ServerToClientMsg} {bytes : List UInt8}

theorem carries_nil (order : HashOrder) : Carries order [] [] := ⟨[], .nil, rfl⟩

theorem Carries.send {message : Wire.ServerToClientMsg} {bytes' : List UInt8}
    (h : Carries order messages bytes) (hframe : encodeFrame order message = .ok bytes') :
    Carries order (messages ++ [message]) (bytes ++ bytes') := by
  obtain ⟨payloads, hpayloads, rfl⟩ := h
  obtain ⟨payload, hencode, hle, rfl⟩ := encodeFrame_eq_ok.mp hframe
  refine ⟨payloads ++ [payload], ?_, ?_⟩
  · exact List.rel_append hpayloads (.cons ⟨hencode, hle⟩ .nil)
  · rw [frames_append, frames_singleton]

/-- Either nothing is on its way or the frame of the first message is, in front. -/
theorem Carries.cases (h : Carries order messages bytes) :
    (messages = [] ∧ bytes = []) ∨
    ∃ message others payload rest, messages = message :: others ∧
      encodeBincode order message = some payload ∧ payload.length ≤ maxFrameLen ∧
      bytes = frame payload ++ rest ∧ Carries order others rest := by
  obtain ⟨payloads, hpayloads, rfl⟩ := h
  cases hpayloads with
  | nil => exact .inl ⟨rfl, rfl⟩
  | @cons message payload others payloads hfirst hothers =>
    exact .inr ⟨message, others, payload, frames payloads, rfl, hfirst.1, hfirst.2, rfl,
      payloads, hothers, rfl⟩

end

namespace ReadState

/-- What has been taken from the stream for the message that is read. -/
def bytes : ReadState → List UInt8
  | .length got => got
  | .payload len whole chunk => u32ToBeBytes len ++ (whole ++ chunk)

/-- A read that needs more bytes, and has no more of them than it may have. -/
def Open : ReadState → Prop
  | .length got => got.length < 4
  | .payload len whole chunk =>
    len ≤ maxFrameLen ∧ chunk.length < min (len - whole.length) readChunkLen

@[simp] theorem bytes_length (got : List UInt8) : (ReadState.length got).bytes = got := rfl

@[simp] theorem bytes_payload (len : Nat) (whole chunk : List UInt8) :
    (ReadState.payload len whole chunk).bytes = u32ToBeBytes len ++ (whole ++ chunk) := rfl

theorem open_length_nil : (ReadState.length []).Open := Nat.zero_lt_succ 3

variable {order order' : HashOrder} {message : Wire.ServerToClientMsg} {r : ReadState}
  {payload arrived wire rest : List UInt8} {byte : UInt8}

private theorem lt_two_pow {len : Nat} (h : len ≤ maxFrameLen) : len < 2 ^ 32 := by
  unfold maxFrameLen at h
  omega

/-- After a whole chunk of the payload either more of it is missing or the message is there. -/
theorem nextChunk_spec {whole : List UInt8}
    (hdecode : decodeBincode Wire.ServerToClientMsg order payload = some message)
    (hle : payload.length ≤ maxFrameLen) (hwhole : whole ++ rest = payload ++ wire)
    (hlen : whole.length ≤ payload.length) :
    (∃ r', nextChunk order payload.length whole = .pending r' ∧ r'.Open ∧
      r'.bytes = u32ToBeBytes payload.length ++ whole) ∨
    (nextChunk order payload.length whole = .ready (.ok message) ∧ whole = payload) := by
  unfold nextChunk
  by_cases hlt : whole.length < payload.length
  · refine .inl ⟨.payload payload.length whole [], by rw [if_pos hlt], ⟨hle, ?_⟩, ?_⟩
    · unfold readChunkLen
      simp only [List.length_nil]
      omega
    · rw [bytes_payload, List.append_nil]
  · have heq : whole = payload := List.append_inj_left hwhole (by omega)
    refine .inr ⟨?_, heq⟩
    rw [if_neg hlt, heq, hdecode]

/-- A byte of a frame leaves the read open, with that byte more, or completes the message. -/
theorem push_spec (hdecode : decodeBincode Wire.ServerToClientMsg order payload = some message)
    (hle : payload.length ≤ maxFrameLen) (hopen : r.Open)
    (hbytes : r.bytes ++ byte :: rest = frame payload ++ wire) :
    (∃ r', r.push order byte = .pending r' ∧ r'.Open ∧ r'.bytes = r.bytes ++ [byte]) ∨
    (r.push order byte = .ready (.ok message) ∧ rest = wire) := by
  have hu32 := u32FromBeBytes_u32ToBeBytes (lt_two_pow hle)
  rw [frame, List.append_assoc, List.append_cons] at hbytes
  cases r with
  | length got =>
    have hmissing : got.length < 4 := hopen
    simp only [bytes_length] at hbytes ⊢
    simp only [push]
    by_cases hlt : got.length + 1 < 4
    · refine .inl ⟨.length (got ++ [byte]), by rw [if_pos hlt], ?_, rfl⟩
      simpa [Open] using hlt
    · have hfour : (got ++ [byte]).length = (u32ToBeBytes payload.length).length := by
        rw [length_u32ToBeBytes, List.length_append, List.length_singleton]
        omega
      obtain ⟨hgot, hrest⟩ := List.append_inj hbytes hfour
      have hempty : [] ++ (payload ++ wire) = payload ++ wire := List.nil_append _
      rw [if_neg hlt, hgot, hu32, if_neg (Nat.not_lt.mpr hle)]
      obtain ⟨r', hnext, hopen', hbytes'⟩ | ⟨hnext, hnil⟩ :=
        nextChunk_spec hdecode hle hempty (Nat.zero_le _)
      · exact .inl ⟨r', hnext, hopen', by rw [hbytes', List.append_nil]⟩
      · refine .inr ⟨hnext, ?_⟩
        rw [hrest, ← hnil, List.nil_append]
  | payload len whole chunk =>
    obtain ⟨hmax, hchunk⟩ := hopen
    simp only [bytes_payload] at hbytes ⊢
    simp only [push]
    have hlengths : (u32ToBeBytes len).length = (u32ToBeBytes payload.length).length := by
      rw [length_u32ToBeBytes, length_u32ToBeBytes]
    rw [List.append_assoc, List.append_assoc] at hbytes
    obtain ⟨hlen, hrest⟩ := List.append_inj hbytes hlengths
    have hsame : len = payload.length := by
      rw [← hu32, ← hlen, u32FromBeBytes_u32ToBeBytes (lt_two_pow hmax)]
    subst hsame
    by_cases hlt : chunk.length + 1 < min (payload.length - whole.length) readChunkLen
    · refine .inl ⟨.payload payload.length whole (chunk ++ [byte]), by rw [if_pos hlt],
        ⟨hmax, ?_⟩, ?_⟩
      · simpa using hlt
      · simp only [bytes_payload, List.append_assoc]
    · have hwhole : (whole ++ (chunk ++ [byte])) ++ rest = payload ++ wire := by
        rw [← hrest]
        simp only [List.append_assoc]
      have hfits : (whole ++ (chunk ++ [byte])).length ≤ payload.length := by
        simp only [List.length_append, List.length_singleton]
        omega
      rw [if_neg hlt]
      obtain ⟨r', hnext, hopen', hbytes'⟩ | ⟨hnext, heq⟩ := nextChunk_spec hdecode hle hwhole hfits
      · refine .inl ⟨r', hnext, hopen', ?_⟩
        rw [hbytes']
        simp only [List.append_assoc]
      · refine .inr ⟨hnext, ?_⟩
        rw [heq] at hwhole
        exact List.append_cancel_left hwhole

/-- A poll takes all that has arrived, or it takes the rest of the frame and no more. -/
theorem poll_frame (hdecode : decodeBincode Wire.ServerToClientMsg order payload = some message)
    (hle : payload.length ≤ maxFrameLen) (hopen : r.Open)
    (hbytes : r.bytes ++ (arrived ++ wire) = frame payload ++ rest) :
    (∃ r', r.poll order arrived = (.pending r', []) ∧ r'.Open ∧ r'.bytes = r.bytes ++ arrived) ∨
    ∃ left, r.poll order arrived = (.ready (.ok message), left) ∧ left ++ wire = rest := by
  induction arrived generalizing r with
  | nil => exact .inl ⟨r, rfl, hopen, (List.append_nil _).symm⟩
  | cons byte arrived ih =>
    rw [poll]
    obtain ⟨r', hpush, hopen', hbytes'⟩ | ⟨hpush, hrest⟩ := push_spec hdecode hle hopen hbytes
    · have hnext : r'.bytes ++ (arrived ++ wire) = frame payload ++ rest := by
        rw [hbytes', ← hbytes, List.append_assoc]
        rfl
      rw [hpush]
      obtain ⟨r'', hpoll, hopen'', hbytes''⟩ | hready := ih hopen' hnext
      · refine .inl ⟨r'', hpoll, hopen'', ?_⟩
        rw [hbytes'', hbytes', List.append_assoc]
        rfl
      · exact .inr hready
    · rw [hpush]
      exact .inr ⟨arrived, rfl, hrest⟩

variable (order) in
/-- What is read is the next of the messages whose frames are on their way. -/
theorem poll_spec {messages : List Wire.ServerToClientMsg} (hopen : r.Open)
    (h : Carries order' messages (r.bytes ++ (arrived ++ wire))) :
    (∃ r', r.poll order arrived = (.pending r', []) ∧ r'.Open ∧ r'.bytes = r.bytes ++ arrived) ∨
    ∃ message others left, r.poll order arrived = (.ready (.ok message), left) ∧
      messages = message :: others ∧ Carries order' others (left ++ wire) := by
  obtain ⟨-, hnil⟩ | ⟨message, others, payload, rest, rfl, hencode, hle, hbytes, hothers⟩ := h.cases
  · obtain ⟨-, hnil⟩ := List.append_eq_nil_iff.mp hnil
    obtain ⟨rfl, -⟩ := List.append_eq_nil_iff.mp hnil
    exact .inl ⟨r, rfl, hopen, (List.append_nil _).symm⟩
  · have hdecode := (bincode_roundTrips order' order _ _ hencode).1
    obtain hpending | ⟨left, hready, hleft⟩ := poll_frame hdecode hle hopen hbytes
    · exact .inl hpending
    · exact .inr ⟨message, others, left, hready, rfl, hleft ▸ hothers⟩

/-- An open read has no whole frame. -/
theorem Open.bytes_ne (hopen : r.Open) (hle : payload.length ≤ maxFrameLen) :
    r.bytes ≠ frame payload ++ rest := by
  intro hbytes
  cases r with
  | length got =>
    have hlength := congrArg List.length hbytes
    simp only [bytes_length, List.length_append, length_frame] at hlength
    have hfour : got.length < 4 := hopen
    omega
  | payload len whole chunk =>
    obtain ⟨hmax, hchunk⟩ := hopen
    have hlengths : (u32ToBeBytes len).length = (u32ToBeBytes payload.length).length := by
      rw [length_u32ToBeBytes, length_u32ToBeBytes]
    rw [bytes_payload, frame, List.append_assoc] at hbytes
    obtain ⟨hlen, hrest⟩ := List.append_inj hbytes hlengths
    have hsame : len = payload.length := by
      rw [← u32FromBeBytes_u32ToBeBytes (lt_two_pow hle), ← hlen,
        u32FromBeBytes_u32ToBeBytes (lt_two_pow hmax)]
    have hlength := congrArg List.length hrest
    simp only [List.length_append] at hlength
    omega

/-- When nothing more is on its way than an open read has, every message has been read. -/
theorem Open.messages_eq_nil {messages : List Wire.ServerToClientMsg} (hopen : r.Open)
    (h : Carries order messages r.bytes) : messages = [] := by
  obtain ⟨hnil, -⟩ | ⟨message, others, payload, rest, rfl, hencode, hle, hbytes, hothers⟩ := h.cases
  · exact hnil
  · exact absurd hbytes (hopen.bytes_ne hle)

end ReadState
end Shelly.Cli
