import TapeMachine.Machine.Exec
import TapeMachine.Program.Check
import TapeMachine.Program.Parser

/-!
# Loading and running

A runner holds a machine and the program loaded into it. Loading replaces the program, and a load
that fails leaves none. Every run starts with a fresh tape and the cursor on its first cell, while
the streams carry on from the run before. Running out of input is a regular end.
-/

namespace TapeMachine

/-- Something to be closed together with a runner. -/
structure Closer where
  /-- Its name. -/
  name : Bytes
  /-- What closing it reports. -/
  fault : Option StreamFault

/-- A machine with a program. -/
structure Runner where
  /-- The machine. -/
  machine : Machine
  /-- The program loaded, if any. -/
  program : Option Program
  /-- Whether the last run ended because the input did. -/
  halted : Bool
  /-- What is to be closed, latest first. -/
  closers : List Closer
  /-- Whether the program comes from an image that has an array for it. -/
  listed : Bool := false

/-- Why a run fails. -/
inductive RunFault where
  /-- There is no program to run. -/
  | noProgram
  /-- The run stopped. -/
  | stopped (cause : Stop)
  /-- The run did not come to an end with the fuel given. -/
  | unfinished
deriving DecidableEq, Repr

/-- The wording of a run fault. -/
def RunFault.message : RunFault → Bytes
  | .noProgram => utf8 "no program loaded"
  | .stopped cause => cause.message
  | .unfinished => utf8 "the program did not come to an end"

namespace Runner

/-- A runner without a program, input, output or logger. -/
def fresh (sinks : Sinks) : Runner where
  machine := {
    tape := Tape.fresh .addressable 0 0
    cursor := 0
    ticks := 0
    input := {}
    output := []
    dump := []
    sinks
    logger := [] }
  program := none
  halted := false
  closers := []

/-- Puts a reader at the end of the input. -/
def addInput (r : Runner) (reader : Reader) : Runner :=
  { r with
    machine := { r.machine with
      input := { r.machine.input with queue := r.machine.input.queue ++ [reader] } } }

/-- The output to a sink; no sink discards. -/
def outputTo (sinks : Sinks) (sink : Option Nat) : Output :=
  sink.elim [] (Output.toSink sinks)

/-- Flushes the output and replaces it. -/
def setOutput (r : Runner) (sink : Option Nat) : Runner :=
  let (_, _, sinks) := r.machine.output.flush r.machine.sinks
  { r with machine := { r.machine with output := outputTo sinks sink, sinks } }

/-- Sends the output to one more sink. -/
def addOutput (r : Runner) (sink : Option Nat) : Runner :=
  { r with
    machine := { r.machine with
      output := r.machine.output ++ outputTo r.machine.sinks sink } }

/-- Flushes the dump and replaces it. -/
def setDump (r : Runner) (sink : Option Nat) : Runner :=
  let (_, _, sinks) := r.machine.dump.flush r.machine.sinks
  { r with machine := { r.machine with dump := outputTo sinks sink, sinks } }

/-- Limits the tape; zero lifts the limit. -/
def setLimit (r : Runner) (limit : Nat) : Runner :=
  { r with machine := { r.machine with tape := { r.machine.tape with limit } } }

/-- Replaces the logger. -/
def setLogger (r : Runner) (logger : Log.Logger) : Runner :=
  { r with machine := { r.machine with logger } }

/-- Has something closed together with the runner. -/
def addCloser (r : Runner) (closer : Closer) : Runner :=
  { r with closers := closer :: r.closers }

/-- Closes everything, latest first. Gives the names in that order and the first fault. -/
def close (r : Runner) : List Bytes × Option StreamFault × Runner :=
  (r.closers.map (·.name), r.closers.findSome? (·.fault), { r with closers := [] })

/-- Loads a program text. -/
def load (r : Runner) (text : Bytes) : Except ParseFault Unit × Runner :=
  match Program.parse text with
  -- A text that is no program takes the program before it away.
  | .error fault => (.error fault, { r with program := none })
  | .ok program =>
    (.ok (), { r with
      program := some program
      listed := false
      machine := r.machine.trace (.loaded program.length text.length) })

/-- Loads an instruction tree. -/
def loadTree (r : Runner) (program : Program) : Except CheckFault Unit × Runner :=
  match program.check with
  | .error fault => (.error fault, { r with program := none })
  | .ok _ => (.ok (), { r with program := some program, listed := false })

/-- The program loaded; the empty one if there is none. -/
def loaded (r : Runner) : Program :=
  r.program.getD []

/-- The value of a cell. -/
def cell (r : Runner) (address : Int) : UInt8 :=
  if address < 0 then 0 else r.machine.tape.peek address.toNat

/-- The machine at the start of a run. -/
def start (m : Machine) : Machine :=
  { m with tape := m.tape.reset, cursor := 0, ticks := 0 }

/-- Ends a run that stopped: the streams are flushed, whatever comes of it, unless the machine
crashed. -/
def halt (m : Machine) (cause : Stop) : Machine :=
  if cause.isCrash then m else m.flush.2.trace (.halted cause)

/-- Runs the program loaded. -/
def run (r : Runner) (fuel : Nat) (patience : Patience) : Except RunFault Unit × Runner :=
  match r.program with
  | none => (.error .noProgram, r)
  | some program =>
    -- An output that reports the end of a file counts as the end of the input, too.
    let conclude (cause : Stop) (machine : Machine) : Except RunFault Unit × Runner :=
      if cause.isEndOfInput then (.ok (), { r with machine, halted := true })
      else (.error (.stopped cause), { r with machine, halted := false })
    match Machine.exec patience fuel program (start r.machine) with
    -- A program that came to its end may still fail, if the last of its output cannot be passed on.
    | .finished machine =>
      match machine.flush with
      | (none, machine) => (.ok (), { r with machine, halted := false })
      | (some fault, machine) => conclude (.output fault) machine
    | .stopped cause machine => conclude cause (halt machine cause)
    | .unfinished machine => (.error .unfinished, { r with machine, halted := false })

end Runner

end TapeMachine
