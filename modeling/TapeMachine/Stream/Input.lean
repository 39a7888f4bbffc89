import TapeMachine.Stream.Sink
import TapeMachine.Text.Quoted

/-!
# Input

Input is a queue of readers, read byte by byte one after another as if they were one. The line being
read and the last line completed are kept for diagnostics; a reader that ends in the middle of a
line completes it.
-/

namespace TapeMachine

/-- A source of bytes. -/
structure Reader where
  /-- The name shown in diagnostics. -/
  name : Bytes
  /-- What is left to be read. -/
  data : Bytes
  /-- What reading past the data reports, each time. -/
  ending : StreamFault := .endOfFile
  /-- Whether the reader wants to be closed when it ends. -/
  closes : Bool := false

/-- A line of a named text, as far as it has been read. -/
structure Line where
  /-- The name of the text. -/
  name : Bytes := []
  /-- The number of the line, counted from 1. -/
  number : Nat := 0
  /-- The bytes of the line, latest first. -/
  read : Bytes := []

/-- The bytes of a line. -/
def Line.text (line : Line) : Bytes :=
  line.read.reverse

/-- Where a line stands. -/
def Line.location (line : Line) : Bytes :=
  line.name ++ utf8 ":" ++ Bytes.ofNat line.number

/-- A line with its place. -/
def Line.summary (line : Line) : Bytes :=
  line.location ++ utf8 " " ++ Quoted.text line.text

/-- A queue of readers, and how far they have been read. -/
structure Input where
  /-- The reader being read. -/
  current : Option Reader := none
  /-- The readers still to come. -/
  queue : List Reader := []
  /-- The line being read. -/
  scan : Line := {}
  /-- The last line completed. -/
  last : Line := {}
  /-- The names of the readers that were closed, latest first. -/
  closed : List Bytes := []

namespace Input

/-- Completes the line being read and starts the next one. -/
def completeLine (input : Input) : Input :=
  { input with
    last := input.scan
    scan := { input.scan with number := input.scan.number + 1, read := [] } }

/-- Takes account of a byte read. -/
def noteByte (input : Input) (b : UInt8) : Input :=
  if b = Bytes.newline then input.completeLine
  else { input with scan := { input.scan with read := b :: input.scan.read } }

/-- Turns to a new reader. -/
def start (input : Input) (reader : Reader) : Input :=
  { input with current := some reader, scan := { name := reader.name, number := 1 } }

/-- Leaves a reader that has ended. -/
def finish (input : Input) (reader : Reader) : Input :=
  -- A text without a newline at its end has a last line nevertheless.
  let input := if input.scan.read.isEmpty then input else input.completeLine
  { input with
    current := none
    closed := if reader.closes then reader.name :: input.closed else input.closed }

/-- What reading one byte from the current reader yields; nothing if the reader has ended. -/
def take (input : Input) (reader : Reader) : Option (Except StreamFault UInt8 × Input) :=
  match reader.data with
  | b :: data => some (.ok b, { input with current := some { reader with data } }.noteByte b)
  | [] =>
    match reader.ending with
    -- The end of a reader is no fault: the next one takes over.
    | .endOfFile => none
    | fault => some (.error fault, input)

/-- Reads a byte from the first reader of a queue that does not end at once. -/
def readFrom (input : Input) : List Reader → Except StreamFault UInt8 × Input
  | [] => (.error .endOfFile, { input with queue := [] })
  | reader :: queue =>
    let input := input.start reader
    match input.take reader with
    | some (result, input) => (result, { input with queue })
    -- A reader without data counts as one that was read and has ended.
    | none => (input.finish reader).readFrom queue

/-- Reads a byte. The end of the input is reported only when all readers have ended. -/
def readByte (input : Input) : Except StreamFault UInt8 × Input :=
  match input.current with
  | none => input.readFrom input.queue
  | some reader =>
    match input.take reader with
    | some result => result
    | none => (input.finish reader).readFrom input.queue

end Input

end TapeMachine
