import TapeMachine.Bytes
import TapeMachine.Word

/-!
# Generated code

Generated code is a fragment: a list of operations, in which loops hold their bodies, notes say what
a part of the code is for, and the code of a constant stays recognizable. A fragment can be written
as program text, as the trace of its notes, and as a flat sequence of tokens.
-/

namespace TapeMachine

/-- An operation of generated code. -/
inductive Code where
  /-- Moves the cursor. -/
  | move (amount : Int)
  /-- Changes the cell under the cursor. -/
  | add (amount : Int)
  /-- Writes the cell under the cursor. -/
  | write
  /-- Reads into the cell under the cursor. -/
  | read
  /-- Dumps the status of the machine. -/
  | dump
  /-- Repeats its body while the cell under the cursor is not zero. -/
  | loop (body : List Code)
  /-- Does what its body does; the note says why. -/
  | noted (note : Bytes) (body : List Code)
  /-- Does what its body does, which is meant to change the cell under the cursor by the amount. -/
  | constant (amount : Int) (body : List Code)

/-- Code to be run in order. -/
abbrev Fragment := List Code

/-- A token of generated code. -/
inductive Token where
  | move (amount : Int)
  | add (amount : Int)
  | loopStart
  | loopEnd
  | write
  | read
  | dump
  | note (text : Bytes)
  | noteEnd

namespace Fragment

/-- The code that moves the cursor; a move by zero needs none. -/
def moving (amount : Int) : Fragment :=
  if amount = 0 then [] else [.move amount]

/-- The code that changes a cell; a change by zero needs none. -/
def adding (amount : Int) : Fragment :=
  if amount = 0 then [] else [.add amount]

end Fragment

/-- As many of one symbol as a positive amount asks for, or of another for a negative one. There are
none for the least word, which is a multiple of 256. -/
def Code.symbols (up down : Char) (amount : Int) : Bytes :=
  if amount = Word.least then []
  else List.replicate amount.natAbs (byte (if amount < 0 then down else up))

mutual

/-- The program text of an operation. -/
def Code.text : Code → Bytes
  | .move amount => Code.symbols '>' '<' amount
  | .add amount => Code.symbols '+' '-' amount
  | .write => utf8 "."
  | .read => utf8 ","
  | .dump => utf8 "@"
  | .loop body => utf8 "[" ++ Fragment.text body ++ utf8 "]"
  | .noted _ body => Fragment.text body
  | .constant _ body => Fragment.text body

/-- The program text of a fragment. -/
def Fragment.text : List Code → Bytes
  | [] => []
  | code :: rest => code.text ++ Fragment.text rest

end

mutual

/-- The notes of an operation inside `depth` other notes. -/
def Code.traceAt (depth : Nat) : Code → Bytes
  | .noted note body =>
    (List.replicate depth (utf8 "  ")).flatten ++ note ++ [Bytes.newline] ++
      Fragment.traceAt (depth + 1) body
  | .loop body => Fragment.traceAt depth body
  | .constant _ body => Fragment.traceAt depth body
  | _ => []

/-- The notes of a fragment inside `depth` other notes. -/
def Fragment.traceAt (depth : Nat) : List Code → Bytes
  | [] => []
  | code :: rest => code.traceAt depth ++ Fragment.traceAt depth rest

end

/-- The notes of a fragment, one a line, indented by nesting. -/
def Fragment.trace (fragment : Fragment) : Bytes :=
  Fragment.traceAt 0 fragment

mutual

/-- The tokens of an operation. -/
def Code.tokens : Code → List Token
  | .move amount => [.move amount]
  | .add amount => [.add amount]
  | .write => [.write]
  | .read => [.read]
  | .dump => [.dump]
  | .loop body => .loopStart :: (Fragment.tokens body ++ [.loopEnd])
  | .noted note body => .note note :: (Fragment.tokens body ++ [.noteEnd])
  | .constant _ body => Fragment.tokens body

/-- The tokens of a fragment. -/
def Fragment.tokens : List Code → List Token
  | [] => []
  | code :: rest => code.tokens ++ Fragment.tokens rest

end

end TapeMachine
