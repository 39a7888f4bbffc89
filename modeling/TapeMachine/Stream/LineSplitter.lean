import TapeMachine.Stream.Sink

/-!
# Splitting a stream into lines

Lines are passed on as soon as their newline has arrived, however the bytes were cut into pieces.
What follows the last newline is held back until more arrives or the splitter is closed.
-/

namespace TapeMachine

/-- A splitter with the beginning of a line it holds back. -/
structure LineSplitter where
  /-- The beginning of the next line. -/
  held : Bytes := []

namespace LineSplitter

/-- The complete lines of a text, and what follows the last newline. `line` is the line being read,
last byte first. -/
def splitFrom (line : Bytes) : Bytes → List Bytes × Bytes
  | [] => ([], line.reverse)
  | b :: rest =>
    if b = Bytes.newline then
      let (lines, held) := splitFrom [] rest
      (line.reverse :: lines, held)
    else splitFrom (b :: line) rest

/-- Takes more bytes, all of them, and passes on the lines they complete. -/
def write (splitter : LineSplitter) (bytes : Bytes) : Written × List Bytes × LineSplitter :=
  let (lines, held) := splitFrom [] (splitter.held ++ bytes)
  ({ count := bytes.length, fault := none }, lines, { held })

/-- Passes on what is held back, unless it is empty. -/
def close (splitter : LineSplitter) : Option StreamFault × List Bytes × LineSplitter :=
  (none, if splitter.held.isEmpty then [] else [splitter.held], { held := [] })

end LineSplitter

end TapeMachine
