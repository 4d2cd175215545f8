import Shelly.Cli.DetachState
import Shelly.Framework.Machine
import Shelly.Protocol.FramedStream

namespace Shelly.Cli

open Serde

inductive InputEvent
  | bytes (bytes : List UInt8)
  | eof
  | error (message : String)
  deriving DecidableEq

inductive AttachOutcome
  | detached
  | sessionExited (exitCode : Int32)
  | daemonError (message : String)
  | connectionLost (message : String)
  deriving DecidableEq

inductive AttachedOutcome
  | ended (outcome : AttachOutcome)
  | lagged
  deriving DecidableEq

/-- Where a `read_message` stands that has not completed: in the length, or in the payload,
of which it has whole chunks and a part of the next one. -/
inductive ReadState
  | length (got : List UInt8)
  | payload (len : Nat) (whole chunk : List UInt8)
  deriving DecidableEq

/-- What polling a read gives. -/
inductive ReadPoll
  | pending (r : ReadState)
  | ready (result : Except String Wire.ServerToClientMsg)

namespace ReadState

variable (order : HashOrder)

/-- The loop over the chunks of a payload, at its top. -/
def nextChunk (len : Nat) (whole : List UInt8) : ReadPoll :=
  if whole.length < len then .pending (.payload len whole [])
  else match decodeBincode Wire.ServerToClientMsg order whole with
    | none => .ready (.error "decode frame")
    | some message => .ready (.ok message)

/-- Reads one byte more. -/
def push (byte : UInt8) : ReadState → ReadPoll
  | .length got =>
    if got.length + 1 < 4 then .pending (.length (got ++ [byte]))
    else
      let len := u32FromBeBytes (got ++ [byte])
      if maxFrameLen < len then .ready (.error s!"frame too large: {len}")
      else nextChunk order len []
  | .payload len whole chunk =>
    if chunk.length + 1 < min (len - whole.length) readChunkLen then
      .pending (.payload len whole (chunk ++ [byte]))
    else nextChunk order len (whole ++ (chunk ++ [byte]))

/-- Reads what has arrived, to the end of the message and no further. -/
def poll : ReadState → List UInt8 → ReadPoll × List UInt8
  | r, [] => (.pending r, [])
  | r, byte :: arrived =>
    match r.push order byte with
    | .pending r' => poll r' arrived
    | .ready result => (.ready result, arrived)

/-- What a read reports when the stream ends inside it. -/
def endError : ReadState → String
  | .length _ => "read frame length"
  | .payload _ _ _ => "read frame payload"

end ReadState

/-- The drawing of the terminal. -/
structure TerminalRenderer (ρ : Type) where
  initialFrame : List UInt8 → ρ → List UInt8 × ρ
  outputFrame : List UInt8 → ρ → List UInt8 × ρ
  resizeFrame : Wire.ClientSize → ρ → Wire.ClientSize × List UInt8 × ρ

/-- Where `run_attach_session` stands: at the top of its loop, at the response to its request, in
`run_attached_loop`, at the top of the outer loop or in the inner one, or it has returned. -/
inductive AttachPlace
  | requesting | attaching | nextMessage | selecting
  | returned (result : Except String AttachOutcome)

/-- The transport, the variables of the two functions, and what has happened: the messages
that were sent to either side, that were decoded, and the bytes that were drawn and written. -/
structure AttachState (ρ : Type) where
  wire : List UInt8
  arrived : List UInt8
  closed : Bool
  place : AttachPlace
  read : ReadState
  pendingOutput : List UInt8
  outputBatchOpen : Bool
  resizeOpen : Bool
  initialAttach : Bool
  size : Wire.ClientSize
  lastSeenSeq : Option UInt64
  detachState : DetachState
  renderer : ρ
  output : List UInt8
  written : List Wire.ClientToServerMsg
  sent : List Wire.ServerToClientMsg
  decoded : List Wire.ServerToClientMsg
  rendered : List UInt8

/-- What the outside decides: which message the daemon sends, how much of what is on its way
arrives, when the connection ends, which branch is taken, and which writes fail, with which
error. -/
inductive AttachAction
  | send (message : Wire.ServerToClientMsg)
  | arrive (count : Nat)
  | close
  | request (daemon : Option String)
  | turn (terminal : Option String)
  | poll (terminal : Option String)
  | input (event : Option InputEvent) (daemon : Option String)
  | resize (physicalSize : Option Wire.ClientSize) (terminal daemon : Option String)

namespace AttachState

variable {ρ : Type} (daemonOrder order : HashOrder) (R : TerminalRenderer ρ)
  (sessionId : Wire.SessionId)

def fail (e : String) (s : AttachState ρ) : AttachState ρ :=
  { s with place := .returned (.error e) }

def finish (outcome : AttachOutcome) (s : AttachState ρ) : AttachState ρ :=
  { s with place := .returned (.ok outcome) }

/-- Goes on after a step unless it fails. -/
def andThen (r : Except String (AttachState ρ)) (s : AttachState ρ)
    (k : AttachState ρ → AttachState ρ) : AttachState ρ :=
  match r with
  | .ok s' => k s'
  | .error e => s.fail e

def writeMessage (daemon : Option String) (message : Wire.ClientToServerMsg) (s : AttachState ρ) :
    Except String (AttachState ρ) :=
  match encodeFrame order message with
  | .error .encode => .error "encode frame"
  | .error (.tooLarge len) => .error s!"frame too large: {len}"
  | .ok _ =>
    match daemon with
    | some e => .error e
    | none => .ok { s with written := s.written ++ [message] }

def writeFrame (terminal : Option String) (frame : List UInt8) (s : AttachState ρ) :
    Except String (AttachState ρ) :=
  match terminal with
  | some e => .error e
  | none => .ok { s with output := s.output ++ frame }

def flushOutput (terminal : Option String) (s : AttachState ρ) : Except String (AttachState ρ) :=
  (s.writeFrame terminal s.pendingOutput).map fun s => { s with pendingOutput := [] }

/-- One poll of the pending read. A completed read is gone, one that is pending keeps what
it has. -/
def pollRead (s : AttachState ρ) : Option (Except String Wire.ServerToClientMsg) × AttachState ρ :=
  match s.read.poll order s.arrived with
  | (.pending r, arrived) =>
    (if s.closed then some (.error r.endError) else none, { s with read := r, arrived })
  | (.ready result, arrived) => (some result, { s with read := .length [], arrived })

/-- A frame is drawn from output of the session. -/
def draw (frame : List UInt8) (renderer : ρ) (s : AttachState ρ) : AttachState ρ :=
  { s with renderer, rendered := s.rendered ++ frame }

def noteDecoded (message : Wire.ServerToClientMsg) (s : AttachState ρ) : AttachState ρ :=
  { s with decoded := s.decoded ++ [message] }

def handleServerMessage (message : Wire.ServerToClientMsg) (s : AttachState ρ) :
    Option AttachedOutcome × AttachState ρ :=
  match message with
  | .output outputSessionId seq bytes =>
    if outputSessionId = sessionId then
      let (frame, renderer) := R.outputFrame bytes s.renderer
      (none, { s.draw frame renderer with
        lastSeenSeq := some seq
        pendingOutput := s.pendingOutput ++ frame
        outputBatchOpen := true })
    else (none, s)
  | .lag laggedSessionId _ => (if laggedSessionId = sessionId then some .lagged else none, s)
  | .sessionExited exitedSessionId exitCode =>
    (if exitedSessionId = sessionId then some (.ended (.sessionExited exitCode)) else none, s)
  | .error _ message => (some (.ended (.daemonError message)), s)
  | _ => (none, s)

/-- Sends the request to attach, whose response is read next. -/
def request (daemon : Option String) (s : AttachState ρ) : AttachState ρ :=
  andThen (s.writeMessage order daemon (.attachSession sessionId s.size s.lastSeenSeq)) s fun s =>
    { s with place := .attaching, read := .length [] }

/-- `run_attached_loop` returns. -/
def leave (outcome : AttachedOutcome) (s : AttachState ρ) : AttachState ρ :=
  match outcome with
  | .ended outcome => s.finish outcome
  | .lagged => { s with place := .requesting }

/-- What both reads of `run_attached_loop` do with a message. -/
def received (terminal : Option String) (message : Wire.ServerToClientMsg) (s : AttachState ρ) :
    AttachState ρ :=
  match (s.noteDecoded message).handleServerMessage R sessionId message with
  | (none, s) => { s with place := .nextMessage }
  | (some outcome, s) => andThen (s.flushOutput terminal) s (leave outcome)

/-- The response to the request to attach. -/
def attached (terminal : Option String) (message : Wire.ServerToClientMsg) (s : AttachState ρ) :
    AttachState ρ :=
  let s := s.noteDecoded message
  match message with
  | .attached attachedSessionId initialBytes seq =>
    if attachedSessionId = sessionId then
      let (frame, renderer) :=
        if s.initialAttach then R.initialFrame initialBytes s.renderer
        else R.outputFrame initialBytes s.renderer
      let s := { s.draw frame renderer with initialAttach := false }
      andThen (s.writeFrame terminal frame) s fun s =>
        { s with
          lastSeenSeq := some seq
          place := .nextMessage
          pendingOutput := []
          outputBatchOpen := false
          resizeOpen := true }
    else s.fail "expected attach response"
  | .error _ message => s.finish (.daemonError message)
  | _ => s.fail "expected attach response"

/-- The top of the outer loop. While a batch is open, what has already arrived is read
before the batch is written. -/
def turn (terminal : Option String) (s : AttachState ρ) : AttachState ρ :=
  let s := { s with read := .length [] }
  if s.outputBatchOpen then
    match s.pollRead order with
    | (some (.ok message), s) => s.received R sessionId terminal message
    | (some (.error e), s) =>
      andThen (s.flushOutput terminal) s fun s => s.finish (.connectionLost e)
    | (none, s) =>
      andThen (s.flushOutput terminal) s fun s =>
        { s with outputBatchOpen := false, place := .selecting }
  else { s with place := .selecting }

/-- The branch of the inner loop that reads. -/
def selectRead (terminal : Option String) (s : AttachState ρ) : AttachState ρ :=
  match s.pollRead order with
  | (some (.ok message), s) => s.received R sessionId terminal message
  | (some (.error e), s) => s.finish (.connectionLost e)
  | (none, s) => s

/-- The branch of the inner loop that takes local input. -/
def selectInput (event : InputEvent) (daemon : Option String) (s : AttachState ρ) : AttachState ρ :=
  match event with
  | .bytes bytes =>
    let (action, detachState) := s.detachState.consume bytes
    let s := { s with detachState }
    let sending := if action.bytes = [] then .ok s
      else s.writeMessage order daemon (.input sessionId action.bytes)
    andThen sending s fun s =>
      if action.shouldDetach then
        andThen (s.writeMessage order daemon .detachSession) s fun s => s.finish .detached
      else s
  | .eof =>
    -- Whether the daemon still hears of it does not matter.
    match s.writeMessage order daemon .detachSession with
    | .ok s => s.finish .detached
    | .error _ => s.finish .detached
  | .error message => s.fail s!"read terminal input: {message}"

/-- The branch of the inner loop that takes a new size of the terminal. -/
def selectResize (physicalSize : Option Wire.ClientSize) (terminal daemon : Option String)
    (s : AttachState ρ) : AttachState ρ :=
  match physicalSize with
  | none => { s with resizeOpen := false }
  | some physicalSize =>
    let (ptySize, frame, renderer) := R.resizeFrame physicalSize s.renderer
    let s := { s.draw frame renderer with size := ptySize }
    andThen (s.writeFrame terminal frame) s fun s =>
      andThen (s.writeMessage order daemon (.resize sessionId ptySize)) s id

/-- A response is awaited outside the loop, where nothing else is selected. -/
def awaitAttached (terminal : Option String) (s : AttachState ρ) : AttachState ρ :=
  match s.pollRead order with
  | (some (.ok message), s) => s.attached R sessionId terminal message
  | (some (.error e), s) => s.finish (.connectionLost e)
  | (none, s) => s

def step : AttachAction → AttachState ρ → Option (AttachState ρ)
  | .send message, s =>
    match encodeFrame daemonOrder message with
    | .ok bytes => some { s with wire := s.wire ++ bytes, sent := s.sent ++ [message] }
    | .error _ => none
  | .arrive count, s =>
    if s.closed then none
    else some { s with arrived := s.arrived ++ s.wire.take count, wire := s.wire.drop count }
  | .close, s => some { s with closed := true }
  | .request daemon, s =>
    match s.place with
    | .requesting => some (s.request order sessionId daemon)
    | _ => none
  | .turn terminal, s =>
    match s.place with
    | .nextMessage => some (s.turn order R sessionId terminal)
    | _ => none
  | .poll terminal, s =>
    match s.place with
    | .attaching => some (s.awaitAttached order R sessionId terminal)
    | .selecting => some (s.selectRead order R sessionId terminal)
    | _ => none
  | .input event daemon, s =>
    match s.place with
    | .selecting => some (s.selectInput order sessionId (event.getD .eof) daemon)
    | _ => none
  | .resize physicalSize terminal daemon, s =>
    match s.place with
    | .selecting =>
      if s.resizeOpen then some (s.selectResize order R sessionId physicalSize terminal daemon)
      else none
    | _ => none

/-- Nothing has been sent yet. -/
structure Started (s : AttachState ρ) : Prop where
  wire : s.wire = []
  arrived : s.arrived = []
  place : s.place = .requesting
  read : s.read = .length []
  pendingOutput : s.pendingOutput = []
  output : s.output = []
  sent : s.sent = []
  decoded : s.decoded = []
  rendered : s.rendered = []

end AttachState

/-- `run_attach_session` against a daemon that sends framed messages. -/
def attachSession {ρ : Type} (daemonOrder order : HashOrder) (R : TerminalRenderer ρ)
    (sessionId : Wire.SessionId) : Machine (AttachState ρ) AttachAction where
  init := AttachState.Started
  step := AttachState.step daemonOrder order R sessionId

end Shelly.Cli
