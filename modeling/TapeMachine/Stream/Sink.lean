import TapeMachine.Bytes

/-!
# Sinks

A sink is where bytes end up. It keeps a record of what reaches it, may have room for only so many
bytes, and may report a fault when a write does not fit or when it is flushed. A sink that has
failed may recover: it may get new room after a write that did not fit, and a later flush may
succeed.
-/

namespace TapeMachine

/-- Why a stream refuses an operation. -/
inductive StreamFault where
  /-- There is nothing more. -/
  | endOfFile
  /-- Fewer bytes were taken than given, for no stated reason. -/
  | shortWrite
  /-- Any other reason, in the stream's own words. -/
  | other (reason : Bytes)
deriving DecidableEq, Repr

/-- The wording of a stream fault. -/
def StreamFault.message : StreamFault → Bytes
  | .endOfFile => utf8 "EOF"
  | .shortWrite => utf8 "short write"
  | .other reason => reason

/-- The outcome of a write. -/
structure Written where
  /-- How many bytes were taken. -/
  count : Nat
  /-- What went wrong, if anything. -/
  fault : Option StreamFault
deriving DecidableEq, Repr

/-- How a sink is to be written to. -/
inductive SinkKind where
  /-- Each write is costly, so bytes are held back in a buffer of ours. -/
  | plain
  /-- Writes stay in memory and need no buffer. -/
  | memory
  /-- The sink has a buffer of its own, which it can be told to flush. -/
  | flusher
deriving DecidableEq, Repr

/-- What a sink has seen. -/
inductive SinkEvent where
  /-- The bytes taken by one write. -/
  | wrote (bytes : Bytes)
  /-- A request to flush. -/
  | flushed
deriving DecidableEq, Repr

/-- How far a sink can be written to. -/
structure Allowance where
  /-- How many bytes it still takes; none for any number. -/
  room : Option Nat
  /-- What it reports when a write does not fit. -/
  fault : Option StreamFault

/-- A sink. -/
structure Sink where
  /-- How it is to be written to. -/
  kind : SinkKind
  /-- How many bytes it still takes; none for any number. -/
  room : Option Nat := none
  /-- What it reports when a write does not fit. -/
  fault : Option StreamFault := none
  /-- What it is allowed after each write that does not fit, in this order; then it stays full. -/
  renewals : List Allowance := []
  /-- What it reports at the next flushes, in this order. -/
  flushFaults : List (Option StreamFault) := []
  /-- What it reports at every flush after these. -/
  flushFault : Option StreamFault := none
  /-- What it has seen, latest first. -/
  events : List SinkEvent := []

namespace Sink

/-- The sink after a write that did not fit. -/
def renew (sink : Sink) : Sink :=
  match sink.renewals with
  | [] => { sink with room := some 0 }
  | ⟨room, fault⟩ :: renewals => { sink with room, fault, renewals }

/-- Takes as many bytes as there is room for. -/
def write (sink : Sink) (bytes : Bytes) : Written × Sink :=
  match sink.room with
  | none => (⟨bytes.length, none⟩, { sink with events := .wrote bytes :: sink.events })
  | some room =>
    if bytes.length ≤ room then
      (⟨bytes.length, none⟩,
        { sink with room := some (room - bytes.length), events := .wrote bytes :: sink.events })
    else
      (⟨room, sink.fault⟩,
        { sink.renew with
          -- A write of nothing is not seen.
          events := if room = 0 then sink.events else .wrote (bytes.take room) :: sink.events })

/-- Notes a request to flush. -/
def flush (sink : Sink) : Option StreamFault × Sink :=
  let events := .flushed :: sink.events
  match sink.flushFaults with
  | [] => (sink.flushFault, { sink with events })
  | fault :: flushFaults => (fault, { sink with flushFaults, events })

/-- The bytes a sink has received, in order. -/
def received (sink : Sink) : Bytes :=
  sink.events.reverse.flatMap fun
    | .wrote bytes => bytes
    | .flushed => []

end Sink

/-- The sinks at hand, known by their position. -/
abbrev Sinks := List Sink

namespace Sinks

/-- Writes to the sink at a position; where there is none the bytes are dropped. -/
def write : Sinks → Nat → Bytes → Written × Sinks
  | [], _, bytes => (⟨bytes.length, none⟩, [])
  | sink :: rest, 0, bytes =>
    let (written, sink) := sink.write bytes
    (written, sink :: rest)
  | sink :: rest, i + 1, bytes =>
    let (written, rest) := write rest i bytes
    (written, sink :: rest)

/-- Flushes the sink at a position. -/
def flush : Sinks → Nat → Option StreamFault × Sinks
  | [], _ => (none, [])
  | sink :: rest, 0 =>
    let (fault, sink) := sink.flush
    (fault, sink :: rest)
  | sink :: rest, i + 1 =>
    let (fault, rest) := flush rest i
    (fault, sink :: rest)

/-- The sinks with what they have seen forgotten. -/
def forget (sinks : Sinks) : Sinks :=
  sinks.map fun sink => { sink with events := [] }

end Sinks

end TapeMachine
