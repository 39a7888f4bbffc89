import TapeMachine.Program.Basic
import TapeMachine.Stream.Sink
import TapeMachine.Tape
import TapeMachine.Task

/-!
# How runs stop

A run that does not reach the end of its program stops for one of the causes given here. How long a
run may go on is a matter of patience: every so many loop passes it is checked whether the run is to
be interrupted.
-/

namespace TapeMachine

/-- Why a run is interrupted from outside. -/
inductive Interrupt where
  /-- It was called off. -/
  | canceled
  /-- Its time is up. -/
  | deadlineExceeded
deriving DecidableEq, Repr

/-- The wording of an interrupt. -/
def Interrupt.message : Interrupt → Bytes
  | .canceled => utf8 "context canceled"
  | .deadlineExceeded => utf8 "context deadline exceeded"

/-- When a run is interrupted, if ever. -/
inductive Patience where
  /-- Never. -/
  | endless
  /-- At the check with this number, counted from one, and at every later one. -/
  | upTo (check : Nat) (interrupt : Interrupt)

/-- What the check with the given number finds. -/
def Patience.atCheck (number : Nat) : Patience → Option Interrupt
  | .endless => none
  | .upTo check interrupt => if max 1 check ≤ number then some interrupt else none

/-- Why a run stops before the end of its program. -/
inductive Stop where
  /-- The cursor would leave the tape. -/
  | underflow (cursor : Nat) (amount : Int64)
  /-- A cell beyond the limit was accessed. -/
  | limit (fault : LimitFault)
  /-- There was no memory for a cell, which makes the machine crash. -/
  | memory (fault : MemoryFault)
  /-- The run was interrupted. -/
  | interrupted (interrupt : Interrupt)
  /-- No byte could be read. -/
  | input (fault : StreamFault)
  /-- Output or dump failed. -/
  | output (fault : StreamFault)
  /-- The program holds a node without a meaning. -/
  | unknownOp (op : Op)
deriving DecidableEq, Repr

/-- The stop that an access to a cell leads to when it fails. -/
def Stop.ofTape : TapeFault → Stop
  | .limit fault => .limit fault
  | .memory fault => .memory fault

/-- The wording of a stop. -/
def Stop.message : Stop → Bytes
  | .underflow cursor amount =>
    utf8 "cursor moved below cell 0: " ++ Bytes.ofNat cursor ++ Bytes.signed amount.toInt
  | .limit fault => fault.message
  | .memory fault => (TaskFault.crashed (utf8 "VM") (.fault fault.message)).message
  | .interrupted interrupt => interrupt.message
  | .input fault => fault.message
  | .output fault => fault.message
  | .unknownOp op => utf8 "invalid node op " ++ op.name

/-- Whether a stop is a crash: nothing is flushed after it. -/
def Stop.isCrash : Stop → Bool
  | .memory _ => true
  | _ => false

/-- Whether a stop counts as the end of the input: any stream may report it. -/
def Stop.isEndOfInput : Stop → Bool
  | .input .endOfFile => true
  | .output .endOfFile => true
  | _ => false

end TapeMachine
