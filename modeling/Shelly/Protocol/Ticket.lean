import Shelly.Framework.Postcard
import Shelly.Framework.RadixText
import Shelly.Protocol.Text
import Shelly.Protocol.Wire

namespace Shelly

open Wire Radix

def ticketPrefix : String := "sh1"

inductive TicketError
  | missingPrefix | base32 | postcard
  | trailingBytes (count : Nat)
  deriving DecidableEq

/-- The fields of a ticket in their order. -/
def ticketCodec : Codec PairingTicket :=
  (Postcard.str.pair (Postcard.str.pair ((Postcard.option Postcard.str).pair
    ((Postcard.seq Postcard.str).pair Postcard.u64)))).imap
    (fun (code, nodeId, relayUrl, addrs, expiresAt) =>
      some ⟨code, nodeId, relayUrl, addrs, expiresAt⟩)
    (fun t => (t.code, t.nodeId, t.relayUrl, t.addrs, t.expiresAt)) fun _ => rfl

def toAsciiUppercase (s : String) : String := String.ofList (s.toList.map Char.toUpper)

namespace Wire.PairingTicket

def encode (t : PairingTicket) : Except TicketError String :=
  match ticketCodec.encode t with
  | none => .error .postcard
  | some bytes => .ok (ticketPrefix ++ base32Encode bytes)

def decode (s : String) : Except TicketError PairingTicket :=
  match stripPrefix ticketPrefix (trim s) with
  | none => .error .missingPrefix
  | some body =>
    match base32Decode (toAsciiUppercase body) with
    | none => .error .base32
    | some bytes =>
      match ticketCodec.decode bytes with
      | none => .error .postcard
      | some (t, []) => .ok t
      | some (_, trailing) => .error (.trailingBytes trailing.length)

/-- All lengths fit a machine word. -/
structure Fits (t : PairingTicket) : Prop where
  code : t.code.utf8ByteSize < 2 ^ 64
  nodeId : t.nodeId.utf8ByteSize < 2 ^ 64
  relayUrl : ∀ url ∈ t.relayUrl, url.utf8ByteSize < 2 ^ 64
  addrs : t.addrs.length < 2 ^ 64
  addr : ∀ addr ∈ t.addrs, addr.utf8ByteSize < 2 ^ 64

theorem Fits.writes {t : PairingTicket} (h : t.Fits) : ticketCodec.Writes t := by
  apply Codec.Writes.pair (Postcard.writes_str h.code)
  apply Codec.Writes.pair (Postcard.writes_str h.nodeId)
  apply Codec.Writes.pair
    (Serde.writes_option fun url hurl => Postcard.writes_str (h.relayUrl url hurl))
  apply Codec.Writes.pair
    (Postcard.writes_seq h.addrs fun addr haddr => Postcard.writes_str (h.addr addr haddr))
  exact Postcard.writes_u64 t.expiresAt

end Wire.PairingTicket

/-- The texts differ in the case of letters only. -/
def EqIgnoringCase (s t : String) : Prop := s.toList.map Char.toUpper = t.toList.map Char.toUpper

def Blank (s : String) : Prop := ∀ c ∈ s.toList, isWhitespace c = true

section Trim

variable {before after s : String}

theorem dropWhile_blank {l l' : List Char} (h : ∀ c ∈ l, isWhitespace c = true)
    (h' : ∀ c ∈ l'.head?, isWhitespace c = false) :
    (l ++ l').dropWhile isWhitespace = l' := by
  rw [List.dropWhile_append_of_pos h]
  cases l' with
  | nil => rfl
  | cons c l' => rw [List.dropWhile_cons, h' c rfl, if_neg Bool.false_ne_true]

/-- White space around a text that neither begins nor ends with any is dropped. -/
theorem trim_surrounded (hbefore : Blank before) (hafter : Blank after) (hne : s ≠ "")
    (h : ∀ c ∈ s.toList, isWhitespace c = false) : trim (before ++ s ++ after) = s := by
  have hs : s.toList ≠ [] := fun hnil => hne (String.toList_eq_nil_iff.mp hnil)
  obtain ⟨c, l, hcons⟩ := List.exists_cons_of_ne_nil hs
  have hfirst : ∀ d ∈ (s.toList ++ after.toList).head?, isWhitespace d = false := by
    intro d hd
    rw [hcons] at hd
    obtain rfl : c = d := Option.some.inj hd
    exact h c (hcons ▸ List.mem_cons_self)
  have hlast : ∀ d ∈ s.toList.reverse.head?, isWhitespace d = false := by
    intro d hd
    rw [List.head?_reverse] at hd
    exact h d (List.mem_of_getLast? hd)
  have hafter' : ∀ d ∈ after.toList.reverse, isWhitespace d = true :=
    fun d hd => hafter d (List.mem_reverse.mp hd)
  rw [trim, String.toList_append, String.toList_append, List.append_assoc,
    dropWhile_blank hbefore hfirst, List.reverse_append, dropWhile_blank hafter' hlast,
    List.reverse_reverse, String.ofList_toList]

end Trim

section Case

variable {bytes : List UInt8} {body : String}

theorem toUpper_base32 {c : Char} (h : c ∈ base32.symbols) : c.toUpper = c := by
  have hall : base32.symbols.all (fun c => c.toUpper == c) = true := by decide
  exact beq_iff_eq.mp (List.all_eq_true.mp hall c h)

theorem not_whitespace_of_toUpper {c : Char} (h : c.toUpper ∈ base32.symbols) :
    isWhitespace c = false := by
  have hall : base32.symbols.all (fun c => !isWhitespace c) = true := by decide
  by_cases hlower : 'a'.val ≤ c.val ∧ c.val ≤ 'z'.val
  · have hlo : 97 ≤ c.toNat := hlower.1
    have hhi : c.toNat ≤ 122 := hlower.2
    simp only [isWhitespace, Bool.or_eq_false_iff, Bool.and_eq_false_iff, decide_eq_false_iff_not]
    omega
  · have hsame : c.toUpper = c := dif_neg hlower
    rw [hsame] at h
    simpa using List.all_eq_true.mp hall c h

/-- The case of the letters does not matter to the decoder. -/
theorem toAsciiUppercase_of_eqIgnoringCase (h : EqIgnoringCase body (base32Encode bytes)) :
    toAsciiUppercase body = base32Encode bytes := by
  have hupper : ∀ c ∈ base32.encode bytes, c.toUpper = c :=
    fun c hc => toUpper_base32 (Alphabet.mem_symbols_of_mem_encode hc)
  rw [toAsciiUppercase, h, base32Encode, String.toList_ofList, List.map_congr_left hupper,
    List.map_id']

theorem not_whitespace_of_body {c : Char} (h : EqIgnoringCase body (base32Encode bytes))
    (hc : c ∈ body.toList) : isWhitespace c = false := by
  have hmem : c.toUpper ∈ (toAsciiUppercase body).toList := by
    rw [toAsciiUppercase, String.toList_ofList]
    exact List.mem_map_of_mem hc
  rw [toAsciiUppercase_of_eqIgnoringCase h, base32Encode, String.toList_ofList] at hmem
  exact not_whitespace_of_toUpper (Alphabet.mem_symbols_of_mem_encode hmem)

end Case

namespace Wire.PairingTicket

variable {t : PairingTicket} {bytes extra : List UInt8} {before body after : String}

/-- What the decoder makes of a text is what it makes of the bytes inside. -/
theorem decode_surrounded (hbefore : Blank before) (hafter : Blank after)
    (hbody : EqIgnoringCase body (base32Encode bytes)) :
    decode (before ++ (ticketPrefix ++ body) ++ after) =
      match ticketCodec.decode bytes with
      | none => .error .postcard
      | some (t, []) => .ok t
      | some (_, trailing) => .error (.trailingBytes trailing.length) := by
  have hne : ticketPrefix ++ body ≠ "" := by
    intro hnil
    have hlength := congrArg String.toList hnil
    rw [String.toList_append] at hlength
    simp [ticketPrefix] at hlength
  have hink : ∀ c ∈ (ticketPrefix ++ body).toList, isWhitespace c = false := by
    intro c hc
    rw [String.toList_append] at hc
    rcases List.mem_append.mp hc with hc | hc
    · have hall : ticketPrefix.toList.all (fun c => !isWhitespace c) = true := by decide
      simpa using List.all_eq_true.mp hall c hc
    · exact not_whitespace_of_body hbody hc
  rw [decode, trim_surrounded hbefore hafter hne hink, stripPrefix_append]
  simp only [toAsciiUppercase_of_eqIgnoringCase hbody, base32Decode_base32Encode]

/-- A ticket is read back from its text, whatever the case of its body and the white space
around it, and nothing may follow it. -/
theorem ticket_roundTrip (h : t.Fits) : ∃ bytes, ticketCodec.encode t = some bytes ∧
    t.encode = .ok (ticketPrefix ++ base32Encode bytes) ∧
    ∀ before body after, Blank before → Blank after →
      (EqIgnoringCase body (base32Encode bytes) →
        decode (before ++ (ticketPrefix ++ body) ++ after) = .ok t) ∧
      ∀ extra, extra ≠ [] → EqIgnoringCase body (base32Encode (bytes ++ extra)) →
        decode (before ++ (ticketPrefix ++ body) ++ after) =
          .error (.trailingBytes extra.length) := by
  obtain ⟨bytes, hbytes⟩ := h.writes
  refine ⟨bytes, hbytes, by rw [encode, hbytes], fun before body after hbefore hafter => ?_⟩
  constructor
  · intro hbody
    rw [decode_surrounded hbefore hafter hbody, Codec.decode_encode hbytes]
  · intro extra hextra hbody
    obtain ⟨byte, extra, rfl⟩ := List.exists_cons_of_ne_nil hextra
    rw [decode_surrounded hbefore hafter hbody, ticketCodec.decode_append hbytes]

private def sample : PairingTicket :=
  ⟨"ABC1234", "daemon-node-a-1234567890", some "https://relay.shelly.sh", ["127.0.0.1:7777"], 42⟩

private theorem sample_fits : sample.Fits where
  code := by decide
  nodeId := by decide
  relayUrl url hurl := by
    obtain rfl : "https://relay.shelly.sh" = url := Option.some.inj hurl
    decide
  addrs := by decide
  addr addr haddr := by
    obtain rfl := List.mem_singleton.mp haddr
    decide

theorem ticket_roundTrip_sample :
    ∃ text, sample.encode = .ok text ∧ decode ("  " ++ text ++ "\n") = .ok sample := by
  obtain ⟨bytes, -, htext, hdecode⟩ := ticket_roundTrip sample_fits
  have hbefore : Blank "  " := fun c hc => List.all_eq_true.mp (by decide) c hc
  have hafter : Blank "\n" := fun c hc => List.all_eq_true.mp (by decide) c hc
  exact ⟨_, htext, (hdecode "  " (base32Encode bytes) "\n" hbefore hafter).1 rfl⟩

end Wire.PairingTicket

end Shelly
