import Mathlib.Data.List.TakeWhile
import Shelly.Protocol.Text

namespace Shelly.Relay

section Headers

/-- A byte that may stand in the value of a header. -/
def isHeaderByte (b : UInt8) : Bool := (32 ≤ b && b != 127) || b == 9

def isVisibleAscii (b : UInt8) : Bool := (32 ≤ b && b < 127) || b == 9

structure HeaderValue where
  bytes : List UInt8
  valid : bytes.all isHeaderByte = true
  deriving DecidableEq

/-- The lines in the order they came in, under lower-case names. -/
abbrev HeaderMap := List (String × HeaderValue)

def asciiText (bytes : List UInt8) : String :=
  String.ofList (bytes.map fun b => Char.ofNat b.toNat)

/-- Only visible characters and tabs can be read. -/
def HeaderValue.toStr (value : HeaderValue) : Option String :=
  if value.bytes.all isVisibleAscii then some (asciiText value.bytes) else none

def HeaderMap.getAll (name : String) (headers : HeaderMap) : List HeaderValue :=
  headers.filterMap fun line => if line.1 = name then some line.2 else none

/-- The first of the lines with this name. -/
def HeaderMap.get (name : String) (headers : HeaderMap) : Option HeaderValue :=
  (headers.getAll name).head?

end Headers

/-- What stands after the last separator, all of it when there is none. -/
def afterLast {α : Type*} [DecidableEq α] (sep : α) (l : List α) : List α :=
  (l.reverse.takeWhile (· ≠ sep)).reverse

structure SocketAddr (Ip : Type*) where
  ip : Ip
  port : Nat

def forwardedForHeader : String := "x-forwarded-for"

variable {Ip : Type*} [ToString Ip]

/-- The bucket of a caller that has not proved who it is. -/
def clientIdentifier (peer : SocketAddr Ip) (headers : HeaderMap) (trustForwardedFor : Bool) :
    String :=
  let forwarded := (((headers.get forwardedForHeader).bind HeaderValue.toStr).map fun value =>
    trim (String.ofList (afterLast ',' value.toList))).filter (· ≠ "")
  if trustForwardedFor then forwarded.getD (toString peer.ip) else toString peer.ip

/-- The text after the last comma of the last line. -/
def finalHop (headers : HeaderMap) : Option (List UInt8) :=
  (headers.getAll forwardedForHeader).getLast?.map fun line => afterLast 44 line.bytes

/-- Two header maps that differ at most in what is forwarded to the left of the final hop. -/
structure SameFinalHop (headers headers' : HeaderMap) : Prop where
  others : headers.filter (·.1 ≠ forwardedForHeader) = headers'.filter (·.1 ≠ forwardedForHeader)
  hop : finalHop headers = finalHop headers'

/-- The first line can be read, and `hop` is what stands after its last comma. -/
def Names (headers : HeaderMap) (hop : String) : Prop :=
  ∃ line, headers.get forwardedForHeader = some line ∧ line.bytes.all isVisibleAscii = true ∧
    trim (asciiText (afterLast 44 line.bytes)) = hop ∧ hop ≠ ""

/-- The first lines name the same hop or both none, or the one that names a hop names the address
that stands for none. -/
def NameAlike (address : String) (headers headers' : HeaderMap) : Prop :=
  (∀ hop, Names headers hop ↔ Names headers' hop) ∨
    (Names headers address ∧ ∀ hop, ¬ Names headers' hop) ∨
    (Names headers' address ∧ ∀ hop, ¬ Names headers hop)

/-- All that is forwarded is one line that can be read. -/
def OneLine (headers : HeaderMap) : Prop :=
  ∃ line, headers.getAll forwardedForHeader = [line] ∧ line.bytes.all isVisibleAscii = true

section Read

variable {headers headers' : HeaderMap} {hop hop' : String} {peer : SocketAddr Ip}

theorem afterLast_map {α β : Type*} [DecidableEq α] [DecidableEq β] (f : α → β) (sep : α)
    (l : List α) (hf : ∀ x ∈ l, f x = f sep → x = sep) :
    afterLast (f sep) (l.map f) = (afterLast sep l).map f := by
  have htake (m : List α) (hm : ∀ x ∈ m, f x = f sep → x = sep) :
      (m.map f).takeWhile (· ≠ f sep) = (m.takeWhile (· ≠ sep)).map f := by
    induction m with
    | nil => rfl
    | cons x m ih =>
      have ih := ih fun y hy => hm y (List.mem_cons_of_mem _ hy)
      by_cases hx : x = sep
      · simp [hx]
      · have hfx : f x ≠ f sep := fun h => hx (hm x List.mem_cons_self h)
        simpa [hx, hfx] using ih
  have hreverse := htake l.reverse fun x hx => hf x (List.mem_reverse.mp hx)
  unfold afterLast
  rw [← List.map_reverse, hreverse, List.map_reverse]

/-- The comma is looked for in the text, but it is the same in the bytes. -/
theorem afterLast_asciiText (bytes : List UInt8) :
    String.ofList (afterLast ',' (asciiText bytes).toList) = asciiText (afterLast 44 bytes) := by
  have hcomma : Char.ofNat (44 : UInt8).toNat = ',' := by decide
  have htoNat (b : UInt8) : (Char.ofNat b.toNat).toNat = b.toNat := by
    have hlt := b.toNat_lt
    have hvalid : b.toNat.isValidChar := .inl (by omega)
    rw [Char.ofNat, dif_pos hvalid]
    rfl
  have hinj (b : UInt8) (h : Char.ofNat b.toNat = Char.ofNat (44 : UInt8).toNat) : b = 44 := by
    have hnat := congrArg Char.toNat h
    rw [htoNat, htoNat] at hnat
    exact UInt8.toNat_inj.mp hnat
  unfold asciiText
  rw [String.toList_ofList, ← hcomma,
    afterLast_map (fun b : UInt8 => Char.ofNat b.toNat) 44 bytes fun b _ => hinj b]

theorem Names.unique (h : Names headers hop) (h' : Names headers hop') : hop = hop' := by
  obtain ⟨line, hget, -, hhop, -⟩ := h
  obtain ⟨line', hget', -, hhop', -⟩ := h'
  obtain rfl : line = line' := Option.some.inj (hget.symm.trans hget')
  exact hhop.symm.trans hhop'

theorem forwarded_eq_some_iff :
    (((headers.get forwardedForHeader).bind HeaderValue.toStr).map fun value =>
      trim (String.ofList (afterLast ',' value.toList))).filter (· ≠ "") = some hop ↔
      Names headers hop := by
  simp only [Option.filter_eq_some_iff, Option.map_eq_some_iff, Option.bind_eq_some_iff,
    HeaderValue.toStr, Option.ite_none_right_eq_some, Option.some.injEq, decide_eq_true_eq]
  constructor
  · rintro ⟨⟨text, ⟨line, hget, hvisible, rfl⟩, hhop⟩, hne⟩
    exact ⟨line, hget, hvisible, by rw [← afterLast_asciiText, hhop], hne⟩
  · rintro ⟨line, hget, hvisible, hhop, hne⟩
    exact ⟨⟨_, ⟨line, hget, hvisible, rfl⟩, by rw [afterLast_asciiText, hhop]⟩, hne⟩

theorem clientIdentifier_of_names (h : Names headers hop) :
    clientIdentifier peer headers true = hop := by
  simp only [clientIdentifier, forwarded_eq_some_iff.mpr h, if_true, Option.getD_some]

theorem clientIdentifier_of_silent (h : ∀ hop, ¬ Names headers hop) :
    clientIdentifier peer headers true = toString peer.ip := by
  have hnone := Option.eq_none_iff_forall_ne_some.mpr fun hop heq =>
    h hop (forwarded_eq_some_iff.mp heq)
  simp only [clientIdentifier, hnone, if_true, Option.getD_none]

theorem clientIdentifier_eq_iff :
    clientIdentifier peer headers true = clientIdentifier peer headers' true ↔
      NameAlike (toString peer.ip) headers headers' := by
  by_cases h : ∃ hop, Names headers hop <;> by_cases h' : ∃ hop, Names headers' hop
  · obtain ⟨hop, h⟩ := h
    obtain ⟨hop', h'⟩ := h'
    rw [clientIdentifier_of_names h, clientIdentifier_of_names h']
    constructor
    · rintro rfl
      exact .inl fun other => ⟨fun hn => h.unique hn ▸ h', fun hn => h'.unique hn ▸ h⟩
    · rintro (heq | ⟨-, hsilent⟩ | ⟨-, hsilent⟩)
      · exact ((heq hop).mp h).unique h'
      · exact absurd h' (hsilent hop')
      · exact absurd h (hsilent hop)
  · obtain ⟨hop, h⟩ := h
    have hsilent : ∀ hop, ¬ Names headers' hop := not_exists.mp h'
    rw [clientIdentifier_of_names h, clientIdentifier_of_silent hsilent]
    constructor
    · rintro rfl
      exact .inr (.inl ⟨h, hsilent⟩)
    · rintro (heq | ⟨haddress, -⟩ | ⟨haddress, -⟩)
      · exact absurd ((heq hop).mp h) (hsilent hop)
      · exact h.unique haddress
      · exact absurd haddress (hsilent _)
  · obtain ⟨hop', h'⟩ := h'
    have hsilent : ∀ hop, ¬ Names headers hop := not_exists.mp h
    rw [clientIdentifier_of_silent hsilent, clientIdentifier_of_names h']
    constructor
    · intro heq
      exact .inr (.inr ⟨heq ▸ h', hsilent⟩)
    · rintro (heq | ⟨haddress, -⟩ | ⟨haddress, -⟩)
      · exact absurd ((heq hop').mpr h') (hsilent hop')
      · exact absurd haddress (hsilent _)
      · exact haddress.unique h'
  · rw [clientIdentifier_of_silent (not_exists.mp h), clientIdentifier_of_silent (not_exists.mp h')]
    refine ⟨fun _ => .inl fun hop => ?_, fun _ => rfl⟩
    exact iff_of_false (not_exists.mp h hop) (not_exists.mp h' hop)

end Read

section FinalHop

variable {headers headers' : HeaderMap}

theorem names_oneLine {line : HeaderValue} {hop : String}
    (h : headers.getAll forwardedForHeader = [line])
    (hvisible : line.bytes.all isVisibleAscii = true) :
    Names headers hop ↔
      trim (asciiText (afterLast 44 line.bytes)) = hop ∧ hop ≠ "" := by
  have hget : headers.get forwardedForHeader = some line := by simp [HeaderMap.get, h]
  constructor
  · rintro ⟨line', hget', -, hhop⟩
    cases hget.symm.trans hget'
    exact hhop
  · intro hhop
    exact ⟨line, hget, hvisible, hhop⟩

theorem nameAlike_of_oneLine (address : String) (hsame : SameFinalHop headers headers')
    (h : OneLine headers) (h' : OneLine headers') : NameAlike address headers headers' := by
  obtain ⟨line, hall, hvisible⟩ := h
  obtain ⟨line', hall', hvisible'⟩ := h'
  have hhop : afterLast 44 line.bytes = afterLast 44 line'.bytes := by
    have heq := hsame.hop
    simpa [finalHop, hall, hall'] using heq
  refine .inl fun hop => ?_
  rw [names_oneLine hall hvisible, names_oneLine hall' hvisible', hhop]

private def forwardedLine (text : String) : String × HeaderValue :=
  (forwardedForHeader,
    ⟨(text.toList.map fun c => UInt8.ofNat c.toNat).filter isHeaderByte, by simp⟩)

end FinalHop

end Shelly.Relay
