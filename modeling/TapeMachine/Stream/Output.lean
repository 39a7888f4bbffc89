import TapeMachine.Stream.Sink

/-!
# Outputs

An output sends everything written to it to any number of sinks. The way to each sink is a channel:
memory is written at once, a sink with a buffer of its own gets every write and every flush, and any
other sink is reached through a buffer of 4096 bytes. An output without channels discards.
-/

namespace TapeMachine

/-- Bytes held back from a sink. After a fault the buffer keeps it and passes on nothing more. -/
structure Buffer where
  /-- The sink the bytes are for. -/
  sink : Nat
  /-- The bytes held back. -/
  held : Array UInt8 := #[]
  /-- The first fault the sink reported. -/
  fault : Option StreamFault := none

namespace Buffer

/-- How many bytes a buffer holds back at most. -/
def capacity : Nat :=
  4096

/-- How many more bytes can be held back. -/
def free (buffer : Buffer) : Nat :=
  capacity - buffer.held.size

/-- Holds back more bytes. -/
def hold (buffer : Buffer) (bytes : Bytes) : Buffer :=
  { buffer with held := buffer.held.appendList bytes }

/-- Passes on everything held back in one write. What the sink does not take stays. -/
def flush (buffer : Buffer) (sinks : Sinks) : Option StreamFault × Buffer × Sinks :=
  match buffer.fault with
  | some fault => (some fault, buffer, sinks)
  | none =>
    -- Without anything held back the sink is not called at all.
    if buffer.held.isEmpty then (none, buffer, sinks)
    else
      let held := buffer.held.toList
      let (written, sinks) := sinks.write buffer.sink held
      let fault := match written.fault with
        | some fault => some fault
        | none => if written.count < held.length then some .shortWrite else none
      (fault, { buffer with held := (held.drop written.count).toArray, fault }, sinks)

/-- Writes through an empty buffer: as long as the bytes exceed the capacity they go straight to the
sink, and the rest is held back. `sofar` bytes were taken before. -/
def writeThrough (buffer : Buffer) (sofar : Nat) (bytes : Bytes) (sinks : Sinks) :
    Written × Buffer × Sinks :=
  if bytes.length ≤ capacity then (⟨sofar + bytes.length, none⟩, buffer.hold bytes, sinks)
  else
    let (written, sinks) := sinks.write buffer.sink bytes
    match written.fault with
    | some fault =>
      (⟨sofar + written.count, some fault⟩, { buffer with fault := some fault }, sinks)
    | none =>
      if written.count = 0 then
        (⟨sofar, some .shortWrite⟩, { buffer with fault := some .shortWrite }, sinks)
      else writeThrough buffer (sofar + written.count) (bytes.drop written.count) sinks
termination_by bytes.length
decreasing_by
  simp only [List.length_drop]
  have : capacity = 4096 := rfl
  omega

/-- Writes bytes: they are held back if they fit, and else the buffer is filled up and flushed
first. -/
def write (buffer : Buffer) (bytes : Bytes) (sinks : Sinks) : Written × Buffer × Sinks :=
  match buffer.fault with
  | some fault => (⟨0, some fault⟩, buffer, sinks)
  | none =>
    if bytes.length ≤ buffer.free then (⟨bytes.length, none⟩, buffer.hold bytes, sinks)
    -- Only an empty buffer may be bypassed, to keep the bytes in order.
    else if buffer.held.isEmpty then writeThrough buffer 0 bytes sinks
    else
      let fitting := buffer.free
      let (fault, buffer, sinks) := (buffer.hold (bytes.take fitting)).flush sinks
      match fault with
      | some fault => (⟨fitting, some fault⟩, buffer, sinks)
      | none => writeThrough buffer fitting (bytes.drop fitting) sinks

/-- Writes one byte; a full buffer is flushed first. -/
def writeByte (buffer : Buffer) (b : UInt8) (sinks : Sinks) :
    Option StreamFault × Buffer × Sinks :=
  match buffer.fault with
  | some fault => (some fault, buffer, sinks)
  | none =>
    if 0 < buffer.free then (none, { buffer with held := buffer.held.push b }, sinks)
    else
      let (fault, buffer, sinks) := buffer.flush sinks
      match fault with
      | some fault => (some fault, buffer, sinks)
      | none => (none, { buffer with held := buffer.held.push b }, sinks)

end Buffer

/-- The way to one sink. -/
inductive Channel where
  /-- Bytes go to the sink at once, and there is nothing to flush. -/
  | direct (sink : Nat)
  /-- Bytes go to the sink at once, and so do requests to flush. -/
  | flushing (sink : Nat)
  /-- Bytes are held back in a buffer. -/
  | buffered (buffer : Buffer)

namespace Channel

/-- Writes bytes to a channel. -/
def write (channel : Channel) (bytes : Bytes) (sinks : Sinks) : Written × Channel × Sinks :=
  match channel with
  | .direct sink | .flushing sink =>
    let (written, sinks) := sinks.write sink bytes
    (written, channel, sinks)
  | .buffered buffer =>
    let (written, buffer, sinks) := buffer.write bytes sinks
    (written, .buffered buffer, sinks)

/-- Writes one byte to a channel. -/
def writeByte (channel : Channel) (b : UInt8) (sinks : Sinks) :
    Option StreamFault × Channel × Sinks :=
  match channel with
  | .direct sink | .flushing sink =>
    let (written, sinks) := sinks.write sink [b]
    (written.fault, channel, sinks)
  | .buffered buffer =>
    let (fault, buffer, sinks) := buffer.writeByte b sinks
    (fault, .buffered buffer, sinks)

/-- Passes on what a channel holds back. -/
def flush (channel : Channel) (sinks : Sinks) : Option StreamFault × Channel × Sinks :=
  match channel with
  | .direct _ => (none, channel, sinks)
  | .flushing sink =>
    let (fault, sinks) := sinks.flush sink
    (fault, channel, sinks)
  | .buffered buffer =>
    let (fault, buffer, sinks) := buffer.flush sinks
    (fault, .buffered buffer, sinks)

end Channel

/-- An output: everything goes to each of its channels in turn. -/
abbrev Output := List Channel

namespace Output

/-- The output to one sink, by the kind of the sink. -/
def toSink (sinks : Sinks) (i : Nat) : Output :=
  match sinks[i]? with
  | none => []
  | some sink =>
    match sink.kind with
    | .plain => [.buffered { sink := i }]
    | .memory => [.direct i]
    | .flusher => [.flushing i]

/-- Writes bytes to each channel until one fails or takes fewer bytes than given. -/
def writeEach (bytes : Bytes) : Output → Sinks → Written × Output × Sinks
  | [], sinks => (⟨bytes.length, none⟩, [], sinks)
  | channel :: rest, sinks =>
    let (written, channel, sinks) := channel.write bytes sinks
    match written.fault with
    | some fault => (⟨written.count, some fault⟩, channel :: rest, sinks)
    | none =>
      -- The channels behind this one get nothing of a write that was cut short.
      if written.count < bytes.length then
        (⟨written.count, some .shortWrite⟩, channel :: rest, sinks)
      else
        let (written, rest, sinks) := writeEach bytes rest sinks
        (written, channel :: rest, sinks)

/-- Writes bytes. Only several channels together turn a short write into a fault. -/
def write (output : Output) (bytes : Bytes) (sinks : Sinks) : Written × Output × Sinks :=
  match output with
  | [channel] =>
    let (written, channel, sinks) := channel.write bytes sinks
    (written, [channel], sinks)
  | channels => writeEach bytes channels sinks

/-- Writes one byte to each channel until one fails. -/
def writeByte (b : UInt8) : Output → Sinks → Option StreamFault × Output × Sinks
  | [], sinks => (none, [], sinks)
  | channel :: rest, sinks =>
    let (fault, channel, sinks) := channel.writeByte b sinks
    match fault with
    | some fault => (some fault, channel :: rest, sinks)
    | none =>
      let (fault, rest, sinks) := writeByte b rest sinks
      (fault, channel :: rest, sinks)

/-- Flushes every channel and reports the first fault. -/
def flush : Output → Sinks → Option StreamFault × Output × Sinks
  | [], sinks => (none, [], sinks)
  | channel :: rest, sinks =>
    let (first, channel, sinks) := channel.flush sinks
    -- A fault does not keep the other channels from being flushed.
    let (later, rest, sinks) := flush rest sinks
    (first <|> later, channel :: rest, sinks)

end Output

end TapeMachine
