import TapeMachine.Log.Logger
import TapeMachine.Machine.Stop
import TapeMachine.Register
import TapeMachine.Stream.Input
import TapeMachine.Stream.Output
import TapeMachine.Text.ByteName

/-!
# The machine

A machine is a tape with a cursor, its streams, and a count of loop passes. Each primitive operation
either goes on with a value or stops the run; in both cases it gives the machine as it then is.
-/

namespace TapeMachine

/-- A machine in the middle of a run. -/
structure Machine where
  /-- The tape. -/
  tape : Tape
  /-- The cell under the cursor. -/
  cursor : Nat
  /-- How many loop passes have begun. A run only asks which of them are multiples of 1024, and how
  many of these there were. So the count need not have a bound: one that wraps around at `2 ^ 64` is
  a multiple of 1024 at the same passes. -/
  ticks : Nat
  /-- Where bytes are read from. -/
  input : Input
  /-- Where the program writes. -/
  output : Output
  /-- Where status dumps go. -/
  dump : Output
  /-- The sinks that outputs and log handlers refer to. -/
  sinks : Sinks
  /-- Where events are traced. -/
  logger : Log.Logger

/-- The outcome of a primitive operation. -/
inductive Progress (α : Type) where
  /-- The run goes on. -/
  | next (value : α) (machine : Machine)
  /-- The run stops. -/
  | stop (cause : Stop) (machine : Machine)

/-- What is traced. -/
inductive Event where
  | loaded (nodes bytes : Nat)
  | moved (source target : Nat)
  | stored (cursor : Nat) (value : UInt8)
  | wrote (b : UInt8)
  | read (b : UInt8)
  | skipped (b : UInt8)
  | status (line : Bytes)
  | halted (cause : Stop)

/-- The wording of an event: a mark for its kind, and what happened. -/
def Event.message : Event → Bytes
  | .loaded nodes bytes =>
    utf8 "# loaded " ++ Bytes.ofNat nodes ++ utf8 " top level nodes from " ++ Bytes.ofNat bytes ++
      utf8 " bytes"
  | .moved source target =>
    utf8 "# move " ++ Bytes.ofNat source ++ utf8 " -> " ++ Bytes.ofNat target
  | .stored cursor value =>
    utf8 "= st[" ++ Bytes.ofNat cursor ++ utf8 "] = " ++ Bytes.ofNat value.toNat
  | .wrote b => utf8 "> write " ++ ByteName.name b
  | .read b => utf8 "< read " ++ ByteName.name b
  | .skipped b => utf8 "< skip " ++ ByteName.name b
  | .status line => utf8 "@ " ++ line
  | .halted cause => utf8 "# halt: " ++ cause.message

namespace Machine

/-- Whether events are traced. -/
def tracing (m : Machine) : Bool :=
  m.logger.enabled .debug

/-- Logs an event, if events are traced. -/
def trace (m : Machine) (event : Event) : Machine :=
  if m.tracing then
    { m with sinks := m.logger.log { level := .debug, message := event.message } m.sinks }
  else m

/-- Flushes the output and then the dump, and gives the first fault. -/
def flush (m : Machine) : Option StreamFault × Machine :=
  let (first, output, sinks) := m.output.flush m.sinks
  let (later, dump, sinks) := m.dump.flush sinks
  (first <|> later, { m with output, dump, sinks })

/-- Reads the cell under the cursor. -/
def load (m : Machine) : Progress UInt8 :=
  match m.tape.fault? .load m.cursor with
  | some fault => .stop (.ofTape fault) m
  -- A cell that is only read is set up all the same.
  | none => .next (m.tape.peek m.cursor) { m with tape := m.tape.touch m.cursor }

/-- Sets the cell under the cursor. -/
def store (m : Machine) (value : UInt8) : Progress Unit :=
  match m.tape.fault? .store m.cursor with
  | some fault => .stop (.ofTape fault) m
  | none =>
    .next () ({ m with tape := m.tape.record m.cursor value }.trace (.stored m.cursor value))

/-- Moves the cursor. Both ends of the range of positions count as leaving the tape. -/
def move (m : Machine) (amount : Int64) : Progress Unit :=
  let target := (m.cursor : Int) + amount.toInt
  -- A sum beyond the last position would be negative as a signed word.
  if 0 ≤ target ∧ target.toNat ≤ Register.lastPosition then
    .next () { m.trace (.moved m.cursor target.toNat) with cursor := target.toNat }
  else .stop (.underflow m.cursor amount) m

/-- Adds to the cell under the cursor, modulo 256. -/
def add (m : Machine) (amount : Int64) : Progress Unit :=
  match m.load with
  | .stop cause m => .stop cause m
  | .next value m => m.store (value + UInt8.ofInt amount.toInt)

/-- Writes a byte. -/
def writeByte (m : Machine) (b : UInt8) : Progress Unit :=
  let m := m.trace (.wrote b)
  let (fault, output, sinks) := m.output.writeByte b m.sinks
  let m := { m with output, sinks }
  match fault with
  | some fault => .stop (.output fault) m
  | none => .next () m

/-- Writes the cell under the cursor. -/
def write (m : Machine) : Progress Unit :=
  match m.load with
  | .stop cause m => .stop cause m
  | .next value m => m.writeByte value

/-- Begins a loop pass. Every so many passes it is checked whether the run is to be interrupted. -/
def tick (m : Machine) (patience : Patience) : Progress Unit :=
  let m := { m with ticks := m.ticks + 1 }
  -- The first check is at the beginning of pass 1024, not before the run.
  if m.ticks % 1024 = 0 then
    match patience.atCheck (m.ticks / 1024) with
    | some interrupt => .stop (.interrupted interrupt) m
    | none => .next () m
  else .next () m

end Machine

end TapeMachine
