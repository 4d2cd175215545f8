import Shelly.Cli.PartialReads

namespace Shelly.Cli

open Serde

/-- What of the state the reader and the daemon share. -/
structure Transport where
  wire : List UInt8
  arrived : List UInt8
  closed : Bool
  read : ReadState
  sent : List Wire.ServerToClientMsg
  decoded : List Wire.ServerToClientMsg

/-- Behind the messages that were decoded follow those whose frames are on their way, the first
of which an open read may have begun. -/
structure Transport.Whole (daemonOrder : HashOrder) (t : Transport) : Prop where
  readOpen : t.read.Open
  remaining : ∃ messages, t.sent = t.decoded ++ messages ∧
    Carries daemonOrder messages (t.read.bytes ++ (t.arrived ++ t.wire))

/-- A poll has taken all that has arrived, or it has completed the next message. -/
structure Transport.Polled (daemonOrder : HashOrder) (t t' : Transport) : Prop where
  whole : t'.Whole daemonOrder
  sent : t'.sent = t.sent
  wire : t'.wire = t.wire
  taken : (t'.arrived = [] ∧ t'.decoded = t.decoded) ∨
    ∃ message, t'.decoded = t.decoded ++ [message]

namespace AttachState

variable {ρ : Type} {daemonOrder order : HashOrder} {R : TerminalRenderer ρ}
  {sessionId : Wire.SessionId} {s s' t : AttachState ρ}

def transport (s : AttachState ρ) : Transport :=
  ⟨s.wire, s.arrived, s.closed, s.read, s.sent, s.decoded⟩

/-- All that was drawn is on the terminal. -/
def Flushed (s : AttachState ρ) : Prop := s.pendingOutput = [] ∧ s.output = s.rendered

/-- All that was drawn is on the terminal or waits to be written. -/
def Drawn (s : AttachState ρ) : Prop := s.output ++ s.pendingOutput = s.rendered

/-- The place decides what may wait. Only a batch keeps output back, and only at the top of the
outer loop; a new read starts where the last one was completed. No read finds the connection
lost that has not ended. -/
def InPlace (s : AttachState ρ) : Prop :=
  match s.place with
  | .requesting => s.Flushed ∧ s.read = .length []
  | .nextMessage => s.Drawn ∧ (s.outputBatchOpen = false → s.pendingOutput = []) ∧
      s.read = .length []
  | .attaching | .selecting => s.Flushed
  | .returned (.ok outcome) => s.Flushed ∧ ∀ e, outcome = .connectionLost e → s.closed = true
  | .returned (.error _) => True

/-- A step has left the transport as given, and nothing waits that may not. -/
def Settled (tr : Transport) (s : AttachState ρ) : Prop := s.InPlace ∧ s.transport = tr

theorem Flushed.drawn (h : s.Flushed) : s.Drawn := by
  rw [Drawn, h.1, List.append_nil, h.2]

theorem Drawn.flushed (h : s.Drawn) (hnil : s.pendingOutput = []) : s.Flushed := by
  rw [Drawn, hnil, List.append_nil] at h
  exact ⟨hnil, h⟩

theorem InPlace.close (h : s.InPlace) : ({ s with closed := true } : AttachState ρ).InPlace := by
  obtain ⟨wire, arrived, closed, place⟩ := s
  cases place with
  | returned result =>
    cases result with
    | ok outcome => exact ⟨h.1, fun _ _ => rfl⟩
    | error e => trivial
  | _ => exact h

/-! ### The operations -/

/-- A step that may fail ends the session or goes on. -/
theorem andThen_settled {tr : Transport} {r : Except String (AttachState ρ)}
    {k : AttachState ρ → AttachState ρ} (hs : s.transport = tr)
    (hok : ∀ s', r = .ok s' → Settled tr (k s')) : Settled tr (andThen r s k) := by
  cases r with
  | error e => exact ⟨trivial, hs⟩
  | ok s' => exact hok s' rfl

theorem writeMessage_eq {daemon : Option String} {message : Wire.ClientToServerMsg}
    (h : s.writeMessage order daemon message = .ok s') :
    s' = { s with written := s.written ++ [message] } := by
  unfold writeMessage at h
  split at h
  · cases h
  · cases h
  · cases daemon with
    | some e => cases h
    | none => exact (Except.ok.inj h).symm

theorem writeFrame_eq {terminal : Option String} {frame : List UInt8}
    (h : s.writeFrame terminal frame = .ok s') : s' = { s with output := s.output ++ frame } := by
  cases terminal with
  | some e => cases h
  | none => exact (Except.ok.inj h).symm

theorem flushOutput_eq {terminal : Option String} (h : s.flushOutput terminal = .ok s') :
    s' = { s with output := s.output ++ s.pendingOutput, pendingOutput := [] } := by
  cases terminal with
  | some e => cases h
  | none => exact (Except.ok.inj h).symm

theorem Drawn.flushOutput {terminal : Option String} (h : s.Drawn)
    (hflush : s.flushOutput terminal = .ok s') : s'.Flushed ∧ s'.transport = s.transport := by
  rw [flushOutput_eq hflush]
  exact ⟨⟨rfl, h⟩, rfl⟩

theorem inPlace_attaching (hplace : s.place = .attaching) : s.InPlace ↔ s.Flushed := by
  rw [InPlace, hplace]

theorem inPlace_selecting (hplace : s.place = .selecting) : s.InPlace ↔ s.Flushed := by
  rw [InPlace, hplace]

theorem inPlace_nextMessage (hplace : s.place = .nextMessage) :
    s.InPlace ↔ s.Drawn ∧ (s.outputBatchOpen = false → s.pendingOutput = []) ∧
      s.read = .length [] := by
  rw [InPlace, hplace]

theorem Flushed.finish {outcome : AttachOutcome} (h : s.Flushed)
    (hclosed : ∀ e, outcome = .connectionLost e → s.closed = true) :
    (s.finish outcome).InPlace := ⟨h, hclosed⟩

theorem Flushed.connectionLost (h : s.Flushed) (hclosed : s.closed = true) (e : String) :
    (s.finish (.connectionLost e)).InPlace := h.finish fun _ _ => hclosed

theorem Flushed.daemonError (h : s.Flushed) (message : String) :
    (s.finish (.daemonError message)).InPlace := h.finish fun e he => by cases he

theorem Flushed.detached (h : s.Flushed) : (s.finish .detached).InPlace :=
  h.finish fun e he => by cases he

/-- A message is drawn behind what waits, and nothing waits outside a batch. -/
theorem handleServerMessage_spec (R : TerminalRenderer ρ) (sessionId : Wire.SessionId)
    (message : Wire.ServerToClientMsg) (hdrawn : s.Drawn)
    (hbatch : s.outputBatchOpen = false → s.pendingOutput = []) :
    (s.handleServerMessage R sessionId message).2.Drawn ∧
    (s.handleServerMessage R sessionId message).2.transport = s.transport ∧
    ((s.handleServerMessage R sessionId message).2.outputBatchOpen = false →
      (s.handleServerMessage R sessionId message).2.pendingOutput = []) ∧
    ∀ e, (s.handleServerMessage R sessionId message).1 ≠ some (.ended (.connectionLost e)) := by
  cases message with
  | output outputSessionId seq bytes =>
    simp only [handleServerMessage]
    split
    · refine ⟨?_, rfl, (fun hopen => Bool.noConfusion hopen), by simp⟩
      simp only [Drawn, draw] at hdrawn ⊢
      rw [← List.append_assoc, hdrawn]
    · exact ⟨hdrawn, rfl, hbatch, by simp⟩
  | lag laggedSessionId skippedBytes =>
    refine ⟨hdrawn, rfl, hbatch, ?_⟩
    simp only [handleServerMessage]
    split <;> simp
  | sessionExited exitedSessionId exitCode =>
    refine ⟨hdrawn, rfl, hbatch, ?_⟩
    simp only [handleServerMessage]
    split <;> simp
  | _ => exact ⟨hdrawn, rfl, hbatch, by simp [handleServerMessage]⟩

/-- A message that the loop has read is counted and drawn, and the loop returns flushed. -/
theorem received_spec (R : TerminalRenderer ρ) (sessionId : Wire.SessionId)
    (terminal : Option String) (message : Wire.ServerToClientMsg) (hdrawn : s.Drawn)
    (hbatch : s.outputBatchOpen = false → s.pendingOutput = []) (hread : s.read = .length []) :
    Settled (s.noteDecoded message).transport (s.received R sessionId terminal message) := by
  have hhandled := handleServerMessage_spec R sessionId message (s := s.noteDecoded message)
    hdrawn hbatch
  unfold received
  generalize (s.noteDecoded message).handleServerMessage R sessionId message = handled at hhandled
  obtain ⟨outcome, s'⟩ := handled
  obtain ⟨hdrawn', htransport, hbatch', hconnection⟩ := hhandled
  have hread' : s'.read = .length [] := (congrArg Transport.read htransport).trans hread
  cases outcome with
  | none => exact ⟨⟨hdrawn', hbatch', hread'⟩, htransport⟩
  | some outcome =>
    refine andThen_settled htransport fun s'' hflush => ?_
    obtain ⟨hflushed, hsame⟩ := hdrawn'.flushOutput hflush
    cases outcome with
    | ended outcome =>
      refine ⟨hflushed.finish ?_, hsame.trans htransport⟩
      intro e he
      exact absurd (he ▸ rfl) (hconnection e)
    | lagged =>
      refine ⟨⟨hflushed, ?_⟩, hsame.trans htransport⟩
      exact (congrArg Transport.read hsame).trans hread'

/-- The response is counted, and drawn at once. -/
theorem attached_spec (R : TerminalRenderer ρ) (sessionId : Wire.SessionId)
    (terminal : Option String) (message : Wire.ServerToClientMsg) (hflushed : s.Flushed)
    (hread : s.read = .length []) :
    Settled (s.noteDecoded message).transport (s.attached R sessionId terminal message) := by
  unfold attached
  split
  · split
    · refine andThen_settled rfl fun s' hwrite => ?_
      rw [writeFrame_eq hwrite]
      refine ⟨⟨?_, fun _ => rfl, hread⟩, rfl⟩
      simp only [Drawn, draw, noteDecoded, List.append_nil, hflushed.2]
    · exact ⟨trivial, rfl⟩
  · next message => exact ⟨hflushed.daemonError message, rfl⟩
  · exact ⟨trivial, rfl⟩

/-- A poll that completes no message has all that has arrived, and keeps it. -/
theorem pollRead_spec (order : HashOrder) (h : s.transport.Whole daemonOrder) :
    (∃ r, s.pollRead order = (if s.closed then some (.error r.endError) else none,
        { s with read := r, arrived := [] }) ∧
      s.transport.Polled daemonOrder { s.transport with read := r, arrived := [] }) ∨
    ∃ message left, s.pollRead order =
        (some (.ok message), { s with read := .length [], arrived := left }) ∧
      s.transport.Polled daemonOrder
        { s.transport with
          read := .length [], arrived := left, decoded := s.decoded ++ [message] } := by
  obtain ⟨hopen, messages, hsent, hcarries⟩ := h
  obtain ⟨r, hpoll, hopen', hbytes⟩ | ⟨message, others, left, hpoll, rfl, hothers⟩ :=
    ReadState.poll_spec order hopen hcarries
  · simp only [transport] at hpoll hbytes hcarries
    refine .inl ⟨r, by simp only [pollRead, hpoll], ⟨hopen', messages, hsent, ?_⟩, rfl, rfl,
      .inl ⟨rfl, rfl⟩⟩
    rw [hbytes, List.nil_append, List.append_assoc]
    exact hcarries
  · simp only [transport] at hpoll hsent
    refine .inr ⟨message, left, by simp only [pollRead, hpoll],
      ⟨ReadState.open_length_nil, others, ?_, hothers⟩, rfl, rfl, .inr ⟨message, rfl⟩⟩
    rw [List.append_assoc]
    exact hsent

/-! ### The steps -/

theorem awaitAttached_spec (order : HashOrder) (R : TerminalRenderer ρ)
    (sessionId : Wire.SessionId) (terminal : Option String) (hplace : s.place = .attaching)
    (hin : s.InPlace) (h : s.transport.Whole daemonOrder) :
    (s.awaitAttached order R sessionId terminal).InPlace ∧
    s.transport.Polled daemonOrder (s.awaitAttached order R sessionId terminal).transport := by
  have hflushed := (inPlace_attaching hplace).mp hin
  unfold awaitAttached
  obtain ⟨r, hpoll, hpolled⟩ | ⟨message, left, hpoll, hpolled⟩ := pollRead_spec order h
  · rw [hpoll]
    have hflushed' : ({ s with read := r, arrived := [] } : AttachState ρ).Flushed := hflushed
    by_cases hclosed : s.closed
    · rw [if_pos hclosed]
      exact ⟨hflushed'.connectionLost hclosed r.endError, hpolled⟩
    · have hin' := inPlace_attaching (s := { s with read := r, arrived := [] }) hplace
      rw [if_neg hclosed]
      exact ⟨hin'.mpr hflushed', hpolled⟩
  · rw [hpoll]
    obtain ⟨hplaced, htransport⟩ := attached_spec R sessionId terminal message
      (s := { s with read := .length [], arrived := left }) hflushed rfl
    exact ⟨hplaced, htransport ▸ hpolled⟩

theorem selectRead_spec (order : HashOrder) (R : TerminalRenderer ρ)
    (sessionId : Wire.SessionId) (terminal : Option String) (hplace : s.place = .selecting)
    (hin : s.InPlace) (h : s.transport.Whole daemonOrder) :
    (s.selectRead order R sessionId terminal).InPlace ∧
    s.transport.Polled daemonOrder (s.selectRead order R sessionId terminal).transport := by
  have hflushed := (inPlace_selecting hplace).mp hin
  unfold selectRead
  obtain ⟨r, hpoll, hpolled⟩ | ⟨message, left, hpoll, hpolled⟩ := pollRead_spec order h
  · rw [hpoll]
    have hflushed' : ({ s with read := r, arrived := [] } : AttachState ρ).Flushed := hflushed
    by_cases hclosed : s.closed
    · rw [if_pos hclosed]
      exact ⟨hflushed'.connectionLost hclosed r.endError, hpolled⟩
    · have hin' := inPlace_selecting (s := { s with read := r, arrived := [] }) hplace
      rw [if_neg hclosed]
      exact ⟨hin'.mpr hflushed', hpolled⟩
  · rw [hpoll]
    obtain ⟨hplaced, htransport⟩ := received_spec R sessionId terminal message
      (s := { s with read := .length [], arrived := left }) hflushed.drawn (fun _ => hflushed.1) rfl
    exact ⟨hplaced, htransport ▸ hpolled⟩

/-- The read that the outer loop begins takes the place of none that has bytes. -/
theorem turn_spec (order : HashOrder) (R : TerminalRenderer ρ)
    (sessionId : Wire.SessionId) (terminal : Option String) (hplace : s.place = .nextMessage)
    (hin : s.InPlace) (h : s.transport.Whole daemonOrder) :
    (s.turn order R sessionId terminal).InPlace ∧
    (s.transport.Polled daemonOrder (s.turn order R sessionId terminal).transport ∨
      ((s.turn order R sessionId terminal).transport = s.transport ∧
        (s.turn order R sessionId terminal).place = .selecting)) := by
  obtain ⟨hdrawn, hbatch, hread⟩ := (inPlace_nextMessage hplace).mp hin
  have hfresh : { s with read := .length [] } = s := by
    rw [← hread]
  unfold turn
  rw [hfresh]
  dsimp only
  by_cases hopen : s.outputBatchOpen
  · rw [if_pos hopen]
    obtain ⟨r, hpoll, hpolled⟩ | ⟨message, left, hpoll, hpolled⟩ := pollRead_spec order h
    · suffices hsettled : Settled { s.transport with read := r, arrived := [] } _ from
        ⟨hsettled.1, .inl (hsettled.2 ▸ hpolled)⟩
      have hdrawn' : ({ s with read := r, arrived := [] } : AttachState ρ).Drawn := hdrawn
      rw [hpoll]
      by_cases hclosed : s.closed
      · rw [if_pos hclosed]
        refine andThen_settled rfl fun s' hflush => ?_
        obtain ⟨hflushed, hsame⟩ := hdrawn'.flushOutput hflush
        have hclosed' : s'.closed = true := (congrArg Transport.closed hsame).trans hclosed
        exact ⟨hflushed.connectionLost hclosed' r.endError, hsame⟩
      · rw [if_neg hclosed]
        refine andThen_settled rfl fun s' hflush => ?_
        obtain ⟨hflushed, hsame⟩ := hdrawn'.flushOutput hflush
        exact ⟨hflushed, hsame⟩
    · suffices hsettled : Settled _ _ from ⟨hsettled.1, .inl (hsettled.2 ▸ hpolled)⟩
      rw [hpoll]
      exact received_spec R sessionId terminal message
        (s := { s with read := .length [], arrived := left }) hdrawn hbatch rfl
  · rw [if_neg hopen]
    have hnil := hbatch (Bool.eq_false_of_not_eq_true hopen)
    exact ⟨hdrawn.flushed hnil, .inr ⟨rfl, rfl⟩⟩

theorem Flushed.writeMessage {daemon : Option String} {message : Wire.ClientToServerMsg}
    (h : s.Flushed) (hwrite : s.writeMessage order daemon message = .ok s') :
    s'.Flushed ∧ s'.transport = s.transport ∧ s'.place = s.place := by
  rw [writeMessage_eq hwrite]
  exact ⟨h, rfl, rfl⟩

theorem request_spec (order : HashOrder) (sessionId : Wire.SessionId) (daemon : Option String)
    (hplace : s.place = .requesting) (hin : s.InPlace) :
    Settled s.transport (s.request order sessionId daemon) := by
  obtain ⟨hflushed, hread⟩ : s.Flushed ∧ s.read = .length [] := by
    rwa [InPlace, hplace] at hin
  refine andThen_settled rfl fun s' hwrite => ?_
  obtain ⟨hflushed', hsame, -⟩ := hflushed.writeMessage hwrite
  have hread' : s'.read = .length [] := (congrArg Transport.read hsame).trans hread
  refine ⟨hflushed', ?_⟩
  rw [← hsame]
  simp only [transport, hread']

theorem request_place (order : HashOrder) (sessionId : Wire.SessionId) (daemon : Option String)
    (s : AttachState ρ) :
    (∃ e, (s.request order sessionId daemon).place = .returned (.error e)) ∨
    (s.request order sessionId daemon).place = .attaching := by
  unfold request andThen
  split
  · exact .inr rfl
  · next e _ => exact .inl ⟨e, rfl⟩

theorem selectInput_spec (order : HashOrder) (sessionId : Wire.SessionId) (event : InputEvent)
    (daemon : Option String) (hplace : s.place = .selecting) (hin : s.InPlace) :
    Settled s.transport (s.selectInput order sessionId event daemon) := by
  have hflushed := (inPlace_selecting hplace).mp hin
  cases event with
  | bytes bytes =>
    -- A key that starts the detach sequence is kept back, and nothing is sent.
    refine andThen_settled rfl fun s' hsending => ?_
    obtain ⟨hflushed', hsame, hplace'⟩ :
        s'.Flushed ∧ s'.transport = s.transport ∧ s'.place = s.place := by
      split at hsending
      · cases hsending
        exact ⟨hflushed, rfl, rfl⟩
      · exact Flushed.writeMessage (s := { s with detachState := (s.detachState.consume bytes).2 })
          hflushed hsending
    split
    · refine andThen_settled hsame fun s'' hwrite => ?_
      obtain ⟨hflushed'', hsame', -⟩ := hflushed'.writeMessage hwrite
      exact ⟨hflushed''.detached, hsame'.trans hsame⟩
    · exact ⟨(inPlace_selecting (hplace'.trans hplace)).mpr hflushed', hsame⟩
  | eof =>
    unfold selectInput
    dsimp only
    split
    · next s' hwrite =>
      obtain ⟨hflushed', hsame, -⟩ := hflushed.writeMessage hwrite
      exact ⟨hflushed'.detached, hsame⟩
    · exact ⟨hflushed.detached, rfl⟩
  | error message => exact ⟨trivial, rfl⟩

theorem selectResize_spec (order : HashOrder) (R : TerminalRenderer ρ)
    (sessionId : Wire.SessionId) (physicalSize : Option Wire.ClientSize)
    (terminal daemon : Option String) (hplace : s.place = .selecting) (hin : s.InPlace) :
    Settled s.transport (s.selectResize order R sessionId physicalSize terminal daemon) := by
  have hflushed := (inPlace_selecting hplace).mp hin
  cases physicalSize with
  | none =>
    have hin' := inPlace_selecting (s := { s with resizeOpen := false }) hplace
    exact ⟨hin'.mpr hflushed, rfl⟩
  | some physicalSize =>
    refine andThen_settled rfl fun s' hframe => ?_
    obtain ⟨hflushed', hsame, hplace'⟩ :
        s'.Flushed ∧ s'.transport = s.transport ∧ s'.place = .selecting := by
      rw [writeFrame_eq hframe]
      refine ⟨⟨hflushed.1, ?_⟩, rfl, hplace⟩
      simp only [draw, hflushed.2]
    refine andThen_settled hsame fun s'' hwrite => ?_
    obtain ⟨hflushed'', hsame', hplace''⟩ := hflushed'.writeMessage hwrite
    exact ⟨(inPlace_selecting (hplace''.trans hplace')).mpr hflushed'', hsame'.trans hsame⟩

/-- What holds whatever the loop was interrupted by. -/
structure Exact (daemonOrder : HashOrder) (s : AttachState ρ) : Prop where
  whole : s.transport.Whole daemonOrder
  inPlace : s.InPlace

theorem Exact.settled (h : s.Exact daemonOrder) (hsettled : Settled s.transport t) :
    t.Exact daemonOrder := ⟨hsettled.2 ▸ h.whole, hsettled.1⟩

theorem exact_started (h : Started s) : s.Exact daemonOrder := by
  refine ⟨⟨?_, [], ?_, ?_⟩, ?_⟩
  · simp only [transport, h.read]
    exact ReadState.open_length_nil
  · simp only [transport, h.sent, h.decoded, List.append_nil]
  · simp only [transport, h.read, h.arrived, h.wire, ReadState.bytes_length, List.append_nil]
    exact carries_nil daemonOrder
  · rw [InPlace, h.place]
    exact ⟨⟨h.pendingOutput, h.output.trans h.rendered.symm⟩, h.read⟩

theorem step_exact {a : AttachAction} (h : s.Exact daemonOrder)
    (hstep : step daemonOrder order R sessionId a s = some t) : t.Exact daemonOrder := by
  cases a with
  | send message =>
    obtain ⟨⟨hopen, messages, hsent, hcarries⟩, hin⟩ := h
    simp only [step] at hstep
    split at hstep
    · next bytes hframe =>
      cases hstep
      refine ⟨⟨hopen, messages ++ [message], ?_, ?_⟩, hin⟩
      · simp only [transport] at hsent ⊢
        rw [hsent, List.append_assoc]
      · have hmore := hcarries.send hframe
        simp only [transport, List.append_assoc] at hmore ⊢
        exact hmore
    · cases hstep
  | arrive count =>
    obtain ⟨⟨hopen, messages, hsent, hcarries⟩, hin⟩ := h
    simp only [step] at hstep
    split at hstep
    · cases hstep
    · cases hstep
      refine ⟨⟨hopen, messages, hsent, ?_⟩, hin⟩
      simp only [transport, List.append_assoc, List.take_append_drop] at hcarries ⊢
      exact hcarries
  | close =>
    cases hstep
    obtain ⟨⟨hopen, messages, hsent, hcarries⟩, hin⟩ := h
    exact ⟨⟨hopen, messages, hsent, hcarries⟩, hin.close⟩
  | request daemon =>
    simp only [step] at hstep
    split at hstep
    · next hplace =>
      cases hstep
      exact h.settled (request_spec order sessionId daemon hplace h.inPlace)
    · cases hstep
  | turn terminal =>
    simp only [step] at hstep
    split at hstep
    · next hplace =>
      cases hstep
      obtain ⟨hin, hpolled | ⟨hsame, -⟩⟩ :=
        turn_spec order R sessionId terminal hplace h.inPlace h.whole
      · exact ⟨hpolled.whole, hin⟩
      · exact h.settled ⟨hin, hsame⟩
    · cases hstep
  | poll terminal =>
    simp only [step] at hstep
    split at hstep
    · next hplace =>
      cases hstep
      obtain ⟨hin, hpolled⟩ :=
        awaitAttached_spec order R sessionId terminal hplace h.inPlace h.whole
      exact ⟨hpolled.whole, hin⟩
    · next hplace =>
      cases hstep
      obtain ⟨hin, hpolled⟩ := selectRead_spec order R sessionId terminal hplace h.inPlace h.whole
      exact ⟨hpolled.whole, hin⟩
    · cases hstep
  | input event daemon =>
    simp only [step] at hstep
    split at hstep
    · next hplace =>
      cases hstep
      exact h.settled (selectInput_spec order sessionId _ daemon hplace h.inPlace)
    · cases hstep
  | resize physicalSize terminal daemon =>
    simp only [step] at hstep
    split at hstep
    · next hplace =>
      split at hstep
      · cases hstep
        exact h.settled
          (selectResize_spec order R sessionId physicalSize terminal daemon hplace h.inPlace)
      · cases hstep
    · cases hstep

/-- Of what has come nothing is lost, repeated or out of order. -/
theorem Exact.inOrder (h : s.Exact daemonOrder) : s.decoded <+: s.sent := by
  obtain ⟨messages, hsent, -⟩ := h.whole.remaining
  exact ⟨messages, hsent.symm⟩

theorem Exact.eq_sent (h : s.Exact daemonOrder) (harrived : s.arrived = []) (hwire : s.wire = []) :
    s.decoded = s.sent := by
  obtain ⟨hopen, messages, hsent, hcarries⟩ := h.whole
  simp only [transport, harrived, hwire, List.append_nil] at hopen hsent hcarries
  rw [hsent, hopen.messages_eq_nil hcarries, List.append_nil]

end AttachState

section

variable {ρ : Type} {daemonOrder order : HashOrder} {R : TerminalRenderer ρ}
  {sessionId : Wire.SessionId} {s t : AttachState ρ}

open AttachState

theorem exact_of_reachable (h : (attachSession daemonOrder order R sessionId).Reachable s) :
    s.Exact daemonOrder :=
  h.invariant (fun _ hinit => exact_started hinit) fun _ _ _ hexact _ hstep =>
    step_exact hexact hstep

/-- The actions of the loop itself, none of which fails. -/
def Undisturbed : AttachState ρ → AttachAction → Prop := fun _ a =>
  a = .request none ∨ a = .turn none ∨ a = .poll none

/-- What is left to do: two steps for a message, and one to where messages are read. -/
def leftToDo (s : AttachState ρ) : Nat :=
  2 * (s.sent.length - s.decoded.length) +
    match s.place with
    | .requesting | .nextMessage => 1
    | _ => 0

theorem leftToDo_le (s : AttachState ρ) :
    leftToDo s ≤ 2 * (s.sent.length - s.decoded.length) + 1 := by
  unfold leftToDo
  split <;> omega

theorem le_leftToDo (s : AttachState ρ) :
    2 * (s.sent.length - s.decoded.length) ≤ leftToDo s := Nat.le_add_right _ _

/-- A poll that leaves something unread has completed a message. -/
theorem leftToDo_polled (h : s.transport.Polled daemonOrder t.transport) :
    t.arrived = [] ∨ leftToDo t < leftToDo s := by
  obtain ⟨⟨-, messages, hsent, -⟩, hsame, -, ⟨harrived, -⟩ | ⟨message, hdecoded⟩⟩ := h
  · exact .inl harrived
  · refine .inr ?_
    simp only [transport] at hsent hsame hdecoded
    have hlength := congrArg List.length hsent
    rw [hsame, hdecoded] at hlength
    simp only [List.length_append, List.length_singleton] at hlength
    have hle := leftToDo_le t
    rw [hsame, hdecoded, List.length_append, List.length_singleton] at hle
    have hge := le_leftToDo s
    omega

variable (order) in
theorem exists_step (h : s.Exact daemonOrder) (hplace : ∀ result, s.place ≠ .returned result) :
    ∃ a t, Undisturbed s a ∧ (attachSession daemonOrder order R sessionId).step a s = some t ∧
      t.sent = s.sent ∧ t.wire = s.wire ∧
      ((t.arrived = [] ∨ ∃ result, t.place = .returned result) ∨ leftToDo t < leftToDo s) := by
  cases hp : s.place with
  | returned result => exact absurd hp (hplace result)
  | requesting =>
    obtain ⟨-, hsame⟩ := request_spec order sessionId none hp h.inPlace
    refine ⟨.request none, s.request order sessionId none, .inl rfl, ?_,
      congrArg Transport.sent hsame, congrArg Transport.wire hsame, ?_⟩
    · simp only [attachSession, step, hp]
    · have hsent : (s.request order sessionId none).sent = s.sent := congrArg Transport.sent hsame
      have hdecoded : (s.request order sessionId none).decoded = s.decoded :=
        congrArg Transport.decoded hsame
      obtain ⟨e, hplace'⟩ | hplace' := request_place order sessionId none s
      · exact .inl (.inr ⟨.error e, hplace'⟩)
      · refine .inr ?_
        simp only [leftToDo, hplace', hp, hsent, hdecoded]
        omega
  | attaching =>
    obtain ⟨-, hpolled⟩ := awaitAttached_spec order R sessionId none hp h.inPlace h.whole
    refine ⟨.poll none, s.awaitAttached order R sessionId none, .inr (.inr rfl), ?_, hpolled.sent,
      hpolled.wire, (leftToDo_polled hpolled).imp .inl id⟩
    simp only [attachSession, step, hp]
  | selecting =>
    obtain ⟨-, hpolled⟩ := selectRead_spec order R sessionId none hp h.inPlace h.whole
    refine ⟨.poll none, s.selectRead order R sessionId none, .inr (.inr rfl), ?_, hpolled.sent,
      hpolled.wire, (leftToDo_polled hpolled).imp .inl id⟩
    simp only [attachSession, step, hp]
  | nextMessage =>
    obtain ⟨-, hturn⟩ := turn_spec order R sessionId none hp h.inPlace h.whole
    have hstep : (attachSession daemonOrder order R sessionId).step (.turn none) s =
        some (s.turn order R sessionId none) := by
      simp only [attachSession, step, hp]
    obtain hpolled | ⟨hsame, hplace'⟩ := hturn
    · exact ⟨.turn none, _, .inr (.inl rfl), hstep, hpolled.sent, hpolled.wire,
        (leftToDo_polled hpolled).imp .inl id⟩
    · refine ⟨.turn none, _, .inr (.inl rfl), hstep, congrArg Transport.sent hsame,
        congrArg Transport.wire hsame, .inr ?_⟩
      have hsent : (s.turn order R sessionId none).sent = s.sent := congrArg Transport.sent hsame
      have hdecoded : (s.turn order R sessionId none).decoded = s.decoded :=
        congrArg Transport.decoded hsame
      simp only [leftToDo, hplace', hp, hsent, hdecoded]
      omega

/-- What has arrived by now is read, whatever the loop was interrupted by, unless it returns. -/
theorem exists_run_arrived (h : s.Exact daemonOrder) :
    ∃ t, (attachSession daemonOrder order R sessionId).Run Undisturbed s t ∧ t.sent = s.sent ∧
      t.wire = s.wire ∧ (t.arrived = [] ∨ ∃ result, t.place = .returned result) := by
  induction hn : leftToDo s using Nat.strongRecOn generalizing s with
  | _ n ih =>
    by_cases hreturned : ∃ result, s.place = .returned result
    · exact ⟨s, .refl, rfl, rfl, .inr hreturned⟩
    · obtain ⟨a, t, ha, hstep, hsent, hwire, hdone | hlt⟩ :=
        exists_step order h fun result hplace => hreturned ⟨result, hplace⟩
      · exact ⟨t, .snoc a .refl ha hstep, hsent, hwire, hdone⟩
      · obtain ⟨u, hrun, hsent', hwire', hdone⟩ :=
          ih (leftToDo t) (hn ▸ hlt) (step_exact h hstep) rfl
        exact ⟨u, (Machine.Run.snoc a .refl ha hstep).trans hrun, hsent'.trans hsent,
          hwire'.trans hwire, hdone⟩

/-- Whatever arrives in parts, and whatever local input and sizes come between, the messages that
the daemon sent are decoded once and in order, and all of them when all of their bytes have come;
what has arrived can be read at any time; no connection that has not ended is lost; and what was
drawn is on the terminal when the loop returns. -/
theorem attachSession_decodes (daemonOrder order : HashOrder) (R : TerminalRenderer ρ)
    (sessionId : Wire.SessionId) (s : AttachState ρ)
    (h : (attachSession daemonOrder order R sessionId).Reachable s) :
    s.decoded <+: s.sent ∧
    (s.arrived = [] → s.wire = [] → s.decoded = s.sent) ∧
    (∃ t, (attachSession daemonOrder order R sessionId).Run Undisturbed s t ∧ t.sent = s.sent ∧
      t.wire = s.wire ∧ (t.arrived = [] ∨ ∃ result, t.place = .returned result)) ∧
    (∀ e, s.place = .returned (.ok (.connectionLost e)) → s.closed = true) ∧
    (s.place = .requesting ∨ (∃ outcome, s.place = .returned (.ok outcome)) →
      s.output = s.rendered) := by
  have hexact := exact_of_reachable h
  have hin := hexact.inPlace
  refine ⟨hexact.inOrder, hexact.eq_sent, exists_run_arrived hexact, ?_, ?_⟩
  · intro e hplace
    rw [InPlace, hplace] at hin
    exact hin.2 e rfl
  · rintro (hplace | ⟨outcome, hplace⟩)
    · rw [InPlace, hplace] at hin
      exact hin.1.2
    · rw [InPlace, hplace] at hin
      exact hin.1.2

end

/-- A terminal that shows the bytes as they are. -/
def rawRenderer : TerminalRenderer Unit where
  initialFrame bytes renderer := (bytes, renderer)
  outputFrame bytes renderer := (bytes, renderer)
  resizeFrame physicalSize renderer := (physicalSize, [], renderer)

/-- The frame of some output arrives in two parts, with a key and a new size in between. -/
theorem attachSession_decodes_split : ∃ (order : HashOrder) (s : AttachState Unit),
    (attachSession order order rawRenderer (Vector.replicate 16 7)).Reachable s ∧
    s.sent.length = 3 ∧ s.output = [1, 2, 3] ∧ s.decoded = s.sent := by
  obtain ⟨s, hs, harrived, hwire, hsent, houtput⟩ :=
    (attachSession Classical.ofNonempty Classical.ofNonempty rawRenderer
      (Vector.replicate 16 7)).exists_reachable_of_exec Machine.Any
      (fun s => s.arrived = [] ∧ s.wire = [] ∧ s.sent.length = 3 ∧ s.output = [1, 2, 3])
      (s := {
        wire := [], arrived := [], closed := false, place := .requesting, read := .length []
        pendingOutput := [], outputBatchOpen := false, resizeOpen := true, initialAttach := true
        size := ⟨80, 24⟩, lastSeenSeq := none, detachState := ⟨2, false⟩, renderer := ()
        output := [], written := [], sent := [], decoded := [], rendered := [] })
      [.request none, .send (.attached (Vector.replicate 16 7) [1] 1), .arrive 100, .poll none,
        .turn none, .send (.output (Vector.replicate 16 7) 3 [2, 3]), .arrive 7, .poll none,
        .input (some (.bytes [120])) none, .resize (some ⟨100, 30⟩) none none, .arrive 100,
        .poll none, .send (.sessionExited (Vector.replicate 16 7) 0), .arrive 100, .turn none]
      ⟨rfl, rfl, rfl, rfl, rfl, rfl, rfl, rfl, rfl⟩ (by decide)
  exact ⟨_, s, hs, hsent, houtput, (attachSession_decodes _ _ _ _ s hs).2.1 harrived hwire⟩

end Shelly.Cli
