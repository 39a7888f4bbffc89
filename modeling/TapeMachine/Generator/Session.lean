import TapeMachine.Generator.Code
import TapeMachine.Generator.Knowledge
import TapeMachine.Text.Quoted
import TapeMachine.Word

/-!
# Generating sessions

A session generates code piece by piece and keeps track of where the cursor will be and what the
cells will hold, so the pieces have to be put together in the order in which they were generated. A
fault leaves the session as it was at that point: a cursor that has moved stays where it is, and
loops that were opened stay open.
-/

namespace TapeMachine.Generator

/-- Why no code can be generated. -/
inductive Fault where
  /-- The cursor would leave the tape. -/
  | cursorBelowZero (source amount : Int)
  /-- A loop is closed that was never opened. -/
  | unbalancedClose
  /-- A variable has a name that is no small letter. -/
  | invalidVariable (letter : UInt8)
  /-- A dialog node has a number that fits into no cell. -/
  | nodeOutOfRange (id : Int)
  /-- Node zero ends a dialog and cannot have an action. -/
  | nodeReserved
deriving DecidableEq, Repr

/-- The wording of a fault. -/
def Fault.message (fault : Fault) : Bytes :=
  utf8 "generation error: " ++
    match fault with
    | .cursorBelowZero source amount =>
      utf8 s!"cursor moved below 0 (from {source} by {amount})"
    | .unbalancedClose => utf8 "unbalanced loop close"
    | .invalidVariable letter => utf8 "invalid variable name " ++ Quoted.char letter.toNat
    | .nodeOutOfRange id => utf8 s!"dialog node {id} out of range 0..255"
    | .nodeReserved => utf8 "dialog node 0 is reserved"

/-- Code that is likely a mistake. -/
inductive Warning where
  /-- A constant takes a cell out of the range of a byte. -/
  | outOfRange (cell value : Int)
  /-- Dividing by zero never ends. -/
  | zeroDivisor (divisor : Int)
deriving DecidableEq, Repr

/-- What was known of some cells at some point. -/
structure Observation where
  /-- Where the cursor was. -/
  cursor : Int
  /-- What was known of the cells asked for. -/
  values : List (Option Int)

/-- The state of a session. -/
structure Session where
  /-- Whether values are tracked modulo 256; if not, values out of range are warned of. -/
  wraps : Bool
  /-- Where the cursor is after the code so far. -/
  cursor : Int := 0
  /-- What the cells hold after the code so far. -/
  knowledge : Knowledge := {}
  /-- The warnings given, latest first. -/
  warnings : List Warning := []
  /-- The observations made, latest first. -/
  observations : List Observation := []

/-- The value of a cell after the code so far, if it is known. -/
def Session.known (s : Session) (pos : Int) : Option Int :=
  s.knowledge.known pos

/-- Takes account of a cell being written. -/
def Session.learn (s : Session) (pos : Int) (value : Option Int) : Session :=
  { s with knowledge := s.knowledge.learn pos value }

/-- Gives a warning. -/
def Session.warn (s : Session) (warning : Warning) : Session :=
  { s with warnings := warning :: s.warnings }

/-- Takes account of a constant being added to the cell under the cursor. -/
def Session.bump (s : Session) (amount : Int) : Session :=
  match s.known s.cursor with
  | none => s.learn s.cursor none
  | some value =>
    let value := Word.wrap (value + amount)
    if s.wraps then s.learn s.cursor (some (value % 256))
    else
      let s := if value < 0 ∨ 255 < value then s.warn (.outOfRange s.cursor value) else s
      s.learn s.cursor (some value)

end Generator

/-- A step of a generating session. -/
abbrev Gen (α : Type) := ExceptT Generator.Fault (StateM Generator.Session) α

namespace Generator

/-- What a step of a session yields, and the session after it. -/
def Session.perform {α : Type} (s : Session) (step : Gen α) : Except Fault α × Session :=
  Id.run (step.run.run s)

/-- Where the cursor is. -/
def cursor : Gen Int := do
  return (← get).cursor

/-- Generates fragments one after another and puts them together. -/
def sequence : List (Gen Fragment) → Gen Fragment
  | [] => return []
  | first :: rest => do
    let a ← first
    let b ← sequence rest
    return a ++ b

/-- Notes what the code of `body` is for, and where the cursor was before it. -/
def noted (note : Bytes) (body : Gen Fragment) : Gen Fragment := do
  let note := utf8 s!"@{← cursor} " ++ note
  let code ← body
  return [.noted note code]

/-- Moves the cursor. -/
def move (amount : Int) : Gen Fragment := do
  let source ← cursor
  let target := source + amount
  if 0 ≤ target ∧ target ≤ Register.lastPosition then
    modify fun s => { s with cursor := target }
    return Fragment.moving amount
  else throw (.cursorBelowZero source (Word.wrap amount))

/-- Moves the cursor to a cell. -/
def moveTo (pos : Int) : Gen Fragment := do
  move (pos - (← cursor))

/-- Adds one to the cell under the cursor. -/
def inc : Gen Fragment := do
  modify (·.bump 1)
  return Fragment.adding 1

/-- Subtracts one from the cell under the cursor. -/
def dec : Gen Fragment := do
  modify (·.bump (-1))
  return Fragment.adding (-1)

/-- Writes the cell under the cursor. -/
def write : Gen Fragment :=
  return [.write]

/-- Reads into the cell under the cursor. -/
def read : Gen Fragment := do
  modify fun s => s.learn s.cursor none
  return [.read]

/-- Dumps the status of the machine. -/
def dump : Gen Fragment :=
  return [.dump]

/-- Sets the cell under the cursor to zero. -/
def clear : Gen Fragment := do
  modify fun s => s.learn s.cursor (some 0)
  return [.loop [.add (-1)]]

/-- Adds one to a cell. -/
def incAt (pos : Int) : Gen Fragment :=
  sequence [moveTo pos, inc]

/-- Subtracts one from a cell. -/
def decAt (pos : Int) : Gen Fragment :=
  sequence [moveTo pos, dec]

/-- Reads into a cell. -/
def readAt (pos : Int) : Gen Fragment :=
  sequence [moveTo pos, read]

/-- Sets a cell to zero. -/
def clearAt (pos : Int) : Gen Fragment :=
  sequence [moveTo pos, clear]

/-- Takes the cursor back to where it was before `body`. -/
def saveCursor (body : Gen Fragment) : Gen Fragment := do
  let keep ← cursor
  sequence [body, moveTo keep]

/-- Opens a loop on a cell. -/
def enterLoop (control : Int) : Gen Unit :=
  modify fun s => { s with knowledge := s.knowledge.enter control }

/-- Closes the innermost loop. -/
def leaveLoop : Gen Unit := do
  let s ← get
  match s.knowledge.leave with
  | some knowledge => set { s with knowledge }
  | none => throw .unbalancedClose

/-- A loop on a cell: the body, which has to leave the cursor on that cell, is repeated while the
cell is not zero. -/
def loopOn (control : Int) (body : Gen Fragment) : Gen Fragment := do
  let before ← moveTo control
  enterLoop control
  let inner ← body
  leaveLoop
  return before ++ [.loop inner]

/-- Repeats `body` while a cell is not zero. -/
def loopAt (control : Int) (body : Gen Fragment) : Gen Fragment :=
  loopOn control (sequence [body, moveTo control])

/-- Repeats `body` as often as a cell says, counting it down to zero. The cursor ends on the cell.
-/
def repeatBy (count : Int) (body : Gen Fragment) : Gen Fragment :=
  loopAt count (sequence [body, decAt count])

/-- Does `body` at most once, if a cell is not zero, and clears the cell whatever `body` left in it.
The cursor ends on the cell. -/
def doOnceIf (flag : Int) (body : Gen Fragment) : Gen Fragment :=
  loopOn flag (sequence [body, clearAt flag])

end Generator

end TapeMachine
