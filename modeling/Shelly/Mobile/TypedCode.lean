import Shelly.Mobile.PendingPairing
import Shelly.Protocol.PairingCode

namespace Shelly.Mobile.Pending

open Daemon

def trimEndMatches (c : Char) (s : String) : String :=
  String.ofList (s.toList.reverse.dropWhile (· == c)).reverse

/-- What `pair_with_code` does before it asks the relay: the code that stays on the phone, and the
address it asks. -/
def pairWithCode (sha256 : List UInt8 → List UInt8) (relayControlUrl : Option String)
    (code : String) : Except ShellyError (String × String) :=
  let code := normalizeCode code
  if isValidCode code then
    match relayControlUrl with
    | none => .error (.invalidConfig
        "typed pairing codes are unavailable because no relay control URL is configured")
    | some url =>
      let relayControlUrl := trimEndMatches '/' url
      let locator := pairingCodeLocator sha256 code
      .ok (code, s!"{relayControlUrl}/v1/pair/resolve/{locator}")
  else
    .error (.invalidConfig s!"pairing code must be {codeLen} Crockford-base32 characters")

section Generated

variable {random : List UInt8} {code text : String} {c : Char}

theorem symbol_mem_codeAlphabet (b : UInt8) :
    codeAlphabet.toList.getD (b &&& 0x1f).toNat '0' ∈ codeAlphabet.toList := by
  have hlt : (b &&& 0x1f).toNat < codeAlphabet.toList.length := by
    have hle : (b &&& 0x1f).toNat ≤ 31 := by
      rw [UInt8.toNat_and]
      exact Nat.and_le_right
    have hlength : codeAlphabet.toList.length = 32 := by decide
    omega
  rw [List.getD_eq_getElem _ _ hlt]
  exact List.getElem_mem hlt

theorem mem_of_generateCode (h : generateCode random = some code) (hc : c ∈ code.toList) :
    c ∈ codeAlphabet.toList := by
  unfold generateCode at h
  split_ifs at h
  cases h
  rw [String.toList_ofList] at hc
  obtain ⟨b, -, rfl⟩ := List.mem_map.mp hc
  exact symbol_mem_codeAlphabet b

theorem isValidCode_generateCode (h : generateCode random = some code) :
    isValidCode code = true := by
  have hlength : code.toList.length = codeLen := by
    unfold generateCode at h
    split_ifs at h with hrandom
    cases h
    rw [String.toList_ofList, List.length_map, hrandom]
  have hall : code.toList.all codeAlphabet.toList.contains = true :=
    List.all_eq_true.mpr fun c hc => List.contains_iff_mem.mpr (mem_of_generateCode h hc)
  rw [isValidCode, hall, Bool.and_true, decide_eq_true hlength]

theorem normalizeCode_rendering (h : generateCode random = some code)
    (hrender : Renders text.toList code.toList) : normalizeCode text = code :=
  normalizeCode_of_renders hrender fun _ hc => mem_of_generateCode h hc

theorem normalizeCode_generateCode (h : generateCode random = some code) :
    normalizeCode code = code :=
  normalizeCode_rendering h (Renders.refl code.toList)

end Generated

section Lookup

variable {sas : String → String → String → Except String String} {s : DaemonState}
  {conn conn' : IrohConnection} {code deviceName deviceNodeId : String} {call : ApprovalCall}
  {pc : ApprovalPc}

/-- The daemon looks a code up in its normal form. -/
theorem code_of_irohDispatch
    (h : irohDispatch sas s conn (.pairWithCode code deviceName deviceNodeId) =
      (conn', .requesting call pc)) : call.code = normalizeCode code := by
  unfold irohDispatch at h
  dsimp only at h
  split_ifs at h
  · cases h
  · split at h
    · cases h
    · split at h
      · cases h
      · cases h
        rfl

end Lookup

/-- Normalising is idempotent, and whichever way a generated code is typed, the phone, the relay
and the daemon compute what they compute for the code of the QR ticket. -/
theorem typed_code_agrees (sha256 : List UInt8 → List UInt8)
    (sas : String → String → String → Except String String) (phoneNodeId : String) :
    (∀ s, normalizeCode (normalizeCode s) = normalizeCode s) ∧
    ∀ (random : List UInt8) (code text : String), generateCode random = some code →
      Renders text.toList code.toList →
      normalizeCode text = code ∧
      pairingCodeLocator sha256 text = pairingCodeLocator sha256 code ∧
      pairingSas sha256 text = pairingSas sha256 code ∧
      (∀ url, pairWithCode sha256 url text = pairWithCode sha256 url code) ∧
      (∀ c s ticket, ticket.code = code →
        pairStep phoneNodeId sas c s (.called ticket) =
          some (s, .opening (normalizeCode text) (.fromTicket ticket))) ∧
      ∀ s conn deviceName deviceNodeId,
        irohDispatch sas s conn (.pairWithCode text deviceName deviceNodeId) =
          irohDispatch sas s conn (.pairWithCode code deviceName deviceNodeId) ∧
        ∀ conn' call pc, irohDispatch sas s conn (.pairWithCode text deviceName deviceNodeId) =
          (conn', .requesting call pc) → call.code = code := by
  refine ⟨normalizeCode_normalizeCode, fun random code text hcode hrender => ?_⟩
  have htext := normalizeCode_rendering hcode hrender
  have hself := normalizeCode_generateCode hcode
  have hsame := htext.trans hself.symm
  refine ⟨htext, ?_, ?_, fun url => ?_, ?_, fun s conn deviceName deviceNodeId => ⟨?_, ?_⟩⟩
  · rw [pairingCodeLocator, pairingCodeLocator, hsame]
  · funext daemonPublicKey phonePublicKey
    rw [pairingSas, pairingSas, hsame]
  · simp only [pairWithCode, hsame]
  · rintro c s ticket rfl
    simp only [pairStep, hself, isValidCode_generateCode hcode, if_true, htext]
  · simp only [irohDispatch, hsame]
  · intro conn' call pc hdispatch
    exact (code_of_irohDispatch hdispatch).trans htext

/-- The digests of the code of the run below and of its transcript with the keys of the run. -/
private def digestOf (bytes : List UInt8) : List UInt8 :=
  if bytes = bytesOf "1A0B2CD" then
    [85, 154, 12, 134, 232, 203, 211, 18, 38, 241, 29, 132, 105, 141, 170, 142, 129, 90, 212, 177,
      200, 11, 165, 94, 254, 157, 76, 225, 27, 253, 153, 38]
  else
    [45, 248, 126, 33, 85, 175, 186, 19, 202, 101, 171, 153, 194, 215, 112, 150, 149, 152, 149, 59,
      91, 4, 202, 118, 154, 237, 175, 105, 147, 8, 249, 24]

theorem typed_code_with_confusables :
    generateCode [1, 10, 0, 11, 2, 12, 13] = some "1A0B2CD" ∧
    Renders " la-oB 2c d".toList "1A0B2CD".toList ∧
    normalizeCode " la-oB 2c d" = "1A0B2CD" ∧
    pairingSas digestOf " la-oB 2c d" (List.replicate 32 0x11) (List.replicate 32 0x22) =
      pairingSas digestOf "1A0B2CD" (List.replicate 32 0x11) (List.replicate 32 0x22) := by
  have hcode : generateCode [1, 10, 0, 11, 2, 12, 13] = some "1A0B2CD" := by decide
  have hrender : Renders " la-oB 2c d".toList "1A0B2CD".toList := by
    apply Renders.separator (by decide)
    apply Renders.symbol (by decide)
    apply Renders.symbol (by decide)
    apply Renders.separator (by decide)
    apply Renders.symbol (by decide)
    apply Renders.symbol (by decide)
    apply Renders.separator (by decide)
    apply Renders.symbol (by decide)
    apply Renders.symbol (by decide)
    apply Renders.separator (by decide)
    exact Renders.symbol (by decide) .nil
  obtain ⟨hnormal, -, hsas, -⟩ :=
    (typed_code_agrees digestOf (fun _ _ _ => .ok "") "phone").2 _ _ _ hcode hrender
  exact ⟨hcode, hrender, hnormal, by rw [hsas]⟩

end Shelly.Mobile.Pending
