import Shelly.Daemon.Screen
import Shelly.Protocol.Messages

namespace Shelly.Daemon

def ptyWriteQueueCapacity : Nat := 64

inductive PtyWriteError
  | backpressure | closed
  deriving DecidableEq

/-- The bounded queue of what is still to be written to the child. -/
structure PtyWriteSender where
  queue : List (List UInt8)
  closed : Bool
  deriving DecidableEq

def PtyWriteSender.new : PtyWriteSender := ⟨[], false⟩

def PtyWriteSender.trySend (w : PtyWriteSender) (bytes : List UInt8) :
    Except PtyWriteError PtyWriteSender :=
  if bytes = [] then .ok w
  else if w.closed then .error .closed
  else if w.queue.length < ptyWriteQueueCapacity then .ok { w with queue := w.queue ++ [bytes] }
  else .error .backpressure

/-- What the emulator tells its listener. A formatter writes the reply to a query. -/
inductive TermEvent
  | ptyWrite (text : List UInt8)
  | title (title : String)
  | resetTitle
  | colorRequest (index : Nat) (formatter : Rgb → List UInt8)
  | textAreaSizeRequest (formatter : ClientSize → List UInt8)
  | clipboardLoad (formatter : String → List UInt8)
  | other

/-- The terminal emulator. Reading a byte raises events; a missing result is a panic. -/
structure Emulator (T : Type*) where
  new : ClientSize → T
  advance : T → UInt8 → List TermEvent × Option T
  resize : T → ClientSize → Option T
  screen : T → Option Screen
  isEmpty : Cell → Bool

def defaultTitle : String := "Shelly"

def ansiPalette : List Rgb :=
  [⟨0x00, 0x00, 0x00⟩, ⟨0xcc, 0x55, 0x55⟩, ⟨0x55, 0xcc, 0x55⟩, ⟨0xcd, 0xcd, 0x55⟩,
    ⟨0x54, 0x55, 0xcb⟩, ⟨0xcc, 0x55, 0xcc⟩, ⟨0x7a, 0xca, 0xca⟩, ⟨0xcc, 0xcc, 0xcc⟩,
    ⟨0x55, 0x55, 0x55⟩, ⟨0xff, 0x55, 0x55⟩, ⟨0x55, 0xff, 0x55⟩, ⟨0xff, 0xff, 0x55⟩,
    ⟨0x55, 0x55, 0xff⟩, ⟨0xff, 0x55, 0xff⟩, ⟨0x55, 0xff, 0xff⟩, ⟨0xff, 0xff, 0xff⟩]

def paletteRamp : List UInt8 := [0, 0x5f, 0x87, 0xaf, 0xd7, 0xff]

def defaultPaletteColor (index : Nat) : Option Rgb :=
  if index ≤ 15 then ansiPalette[index]?
  else if index ≤ 231 then
    let cube := index - 16
    some ⟨paletteRamp.getD (cube / 36) 0, paletteRamp.getD (cube / 6 % 6) 0,
      paletteRamp.getD (cube % 6) 0⟩
  else if index ≤ 255 then
    let grey := (8 + (index - 232) * 10).toUInt8
    some ⟨grey, grey, grey⟩
  else if index = 256 ∨ index = 267 then some ⟨0xb2, 0xb2, 0xb2⟩
  else if index = 257 ∨ index = 268 then ansiPalette[0]?
  else if index = 258 then some ⟨0x52, 0xad, 0x70⟩
  else none

/-- What the listener writes to the child for an event. -/
def TermEvent.response (size : ClientSize) : TermEvent → Option (List UInt8)
  | .ptyWrite text => some text
  | .colorRequest index formatter => (defaultPaletteColor index).map formatter
  | .textAreaSizeRequest formatter => some (formatter size)
  | .clipboardLoad formatter => some (formatter "")
  | _ => none

def TermEvent.setTitle (title : String) : TermEvent → String
  | .title title => title
  | .resetTitle => defaultTitle
  | _ => title

/-- A reply that was put into the queue: the place in the stream of the byte that completed the
query, which of its queries it was, and whether a terminal model had read that byte before. -/
structure Answer where
  position : Nat
  index : Nat
  again : Bool
  deriving DecidableEq

/-- The queue to the child with the history of the terminal models that write to it: the replies
that were queued, and the places in the stream that were read. -/
structure Responder where
  sender : PtyWriteSender
  answers : List Answer
  read : List Nat
  deriving DecidableEq

namespace Responder

def new : Responder := ⟨.new, [], []⟩

/-- A reply that the queue has no room for is dropped. -/
def respond (r : Responder) (position index : Nat) (bytes : List UInt8) : Responder :=
  match r.sender.trySend bytes with
  | .ok sender =>
    if bytes = [] then r
    else
      { r with
        sender
        answers := r.answers ++ [⟨position, index, decide (position ∈ r.read)⟩] }
  | .error _ => r

def sendEvents (size : ClientSize) (position : Nat) : Nat → List TermEvent → Responder → Responder
  | _, [], r => r
  | index, event :: events, r =>
    sendEvents size position (index + 1) events
      ((event.response size).elim r (r.respond position index))

/-- The byte at this place has been read. -/
def note (r : Responder) (position : Nat) : Responder := { r with read := r.read ++ [position] }

end Responder

/-- A terminal that knows one query, the one for the cursor position, and cannot be made narrower
than two columns. Its state is how much of the query it has read. -/
def queryTerminal : Emulator Nat where
  new _ := 0
  advance read byte :=
    match read, byte with
    | _, 0x1b => ([], some 1)
    | 1, 0x5b => ([], some 2)
    | 2, 0x36 => ([], some 3)
    | 3, 0x6e => ([.ptyWrite [0x1b, 0x5b, 0x31, 0x3b, 0x31, 0x52]], some 0)
    | _, _ => ([], some 0)
  resize read size := if size.cols < 2 then none else some read
  screen _ := some ⟨[], false, 0, 0⟩
  isEmpty cell := cell.c = ' '

/-- `ESC [ 6 n`. -/
def cursorQuery : List UInt8 := [0x1b, 0x5b, 0x36, 0x6e]

variable {T : Type*}

/-- `ingested` is history: the bytes the model has read, the last of them before `reached`. -/
structure TerminalModel (T : Type*) where
  terminal : T
  title : String
  size : ClientSize
  ingested : List UInt8
  reached : Nat

namespace TerminalModel

variable (E : Emulator T)

def new (size : ClientSize) (start : Nat) : TerminalModel T :=
  ⟨E.new size, defaultTitle, size, [], start⟩

/-- Reads bytes that begin at a place in the stream. -/
def advanceBytes : Nat → List UInt8 → TerminalModel T → Responder →
    Responder × Option (TerminalModel T)
  | _, [], m, r => (r, some m)
  | position, byte :: bytes, m, r =>
    let (events, terminal) := E.advance m.terminal byte
    let r := (r.sendEvents m.size position 0 events).note position
    match terminal with
    | none => (r, none)
    | some terminal =>
      advanceBytes (position + 1) bytes
        { m with
          terminal
          title := events.foldl (fun title event => event.setTitle title) m.title
          ingested := m.ingested ++ [byte]
          reached := position + 1 } r

def resize (size : ClientSize) (m : TerminalModel T) : Option (TerminalModel T) :=
  (E.resize m.terminal size).map fun terminal => { m with terminal, size }

def snapshot (m : TerminalModel T) : Option (List UInt8) :=
  (E.screen m.terminal).map fun screen => renderSnapshot E.isEmpty screen m.title

def lastNonEmptyLine (m : TerminalModel T) (maxChars : Nat) : Option (Option String) :=
  (E.screen m.terminal).map fun screen => Daemon.lastNonEmptyLine E.isEmpty screen maxChars

end TerminalModel

inductive TerminalProjectionFailure
  | parserPanicked | inspectionPanicked | unavailable
  deriving DecidableEq

def TerminalProjectionFailure.invalidatedModel : TerminalProjectionFailure → Bool
  | .parserPanicked | .unavailable => true
  | .inspectionPanicked => false

structure TerminalProjection (T : Type*) where
  model : Option (TerminalModel T)
  size : ClientSize
  lastLine : Option String
  lastLineDirty : Bool
  lastLineMaxChars : Nat

namespace TerminalProjection

variable (E : Emulator T)

def new (size : ClientSize) : TerminalProjection T := ⟨some (.new E size 0), size, none, false, 0⟩

/-- Reads a chunk that begins at a place in the stream. -/
def ingest (position : Nat) (bytes : List UInt8) (p : TerminalProjection T) (r : Responder) :
    Option TerminalProjectionFailure × TerminalProjection T × Responder :=
  match p.model with
  | none => (some .unavailable, p, r)
  | some m =>
    match m.advanceBytes E position bytes r with
    | (r, none) => (some .parserPanicked, { p with model := none }, r)
    | (r, some m) => (none, { p with model := some m, lastLineDirty := true }, r)

def lastNonEmptyLine (maxChars : Nat) (p : TerminalProjection T) :
    Except TerminalProjectionFailure (Option String) × TerminalProjection T :=
  if !p.lastLineDirty && p.lastLineMaxChars == maxChars then (.ok p.lastLine, p)
  else
    match p.model with
    | none => (.error .unavailable, p)
    | some m =>
      match m.lastNonEmptyLine E maxChars with
      | none => (.error .inspectionPanicked, p)
      | some lastLine =>
        (.ok lastLine,
          { p with lastLine, lastLineDirty := false, lastLineMaxChars := maxChars })

def cacheLastNonEmptyLine (lastLine : String) (maxChars : Nat) (p : TerminalProjection T) :
    TerminalProjection T :=
  { p with lastLineMaxChars := maxChars, lastLine := some lastLine, lastLineDirty := false }

def resize (size : ClientSize) (p : TerminalProjection T) :
    Option TerminalProjectionFailure × TerminalProjection T :=
  match p.model with
  | none => (some .unavailable, { p with size })
  | some m =>
    match m.resize E size with
    | some m => (none, { p with size, model := some m, lastLineDirty := true })
    | none => (some .parserPanicked, { p with size, model := none })

def snapshot (p : TerminalProjection T) : Except TerminalProjectionFailure (List UInt8) :=
  match p.model with
  | none => .error .unavailable
  | some m => (m.snapshot E).elim (.error .inspectionPanicked) .ok

/-- Reads a scrollback that begins at a place in the stream into a new model. -/
def rebuild (start : Nat) (scrollback : List UInt8) (p : TerminalProjection T) (r : Responder) :
    Option TerminalProjectionFailure × TerminalProjection T × Responder :=
  match (TerminalModel.new E p.size start).advanceBytes E start scrollback r with
  | (r, some m) =>
    (none, { p with
      model := some m, lastLine := none, lastLineDirty := true, lastLineMaxChars := 0 }, r)
  | (r, none) => (some .parserPanicked, { p with model := none }, r)

end TerminalProjection
end Shelly.Daemon
