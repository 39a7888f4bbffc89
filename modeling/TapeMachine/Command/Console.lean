import TapeMachine.Command.StandardStream
import TapeMachine.Log.Logger

/-!
# Consoles

A console is what a command works with: its input, its output, where it reports errors, its log, and
the folder it is run in. Log records go to where errors are reported and, if asked for, to a file.

Input is taken in block by block, ahead of being read by a machine. The input as a file holds only
what has not been taken in yet.
-/

namespace TapeMachine.Command

/-- The file that is logged to. -/
structure LogFile where
  /-- Where it is. -/
  place : Location
  /-- How many bytes have been written to it. -/
  size : Nat := 0

/-- What a command works with. -/
structure Console where
  /-- What is left of the input. -/
  input : Bytes
  /-- How many bytes of it have been taken in ahead. -/
  ahead : Nat := 0
  /-- Output, errors and log file, in this order. -/
  sinks : Sinks := List.replicate 3 { kind := .plain }
  /-- The logger. -/
  logger : Log.Logger := []
  /-- The files. -/
  folder : Folder
  /-- The file that is logged to, if any. -/
  logFile : Option LogFile := none

namespace Console

/-- The sink for output. -/
def outputSink : Nat :=
  0

/-- The sink for errors. -/
def errorSink : Nat :=
  1

/-- The sink of the log file. -/
def logSink : Nat :=
  2

/-- What has been received by a sink. -/
def received (c : Console) (sink : Nat) : Bytes :=
  (c.sinks[sink]?.map Sink.received).getD []

/-- Writes to a sink. -/
def write (c : Console) (sink : Nat) (bytes : Bytes) : Console :=
  { c with sinks := (c.sinks.write sink bytes).2 }

/-- Logs a record. -/
def log (c : Console) (record : Log.Record) : Console :=
  { c with sinks := c.logger.log record c.sinks }

/-- How much input is taken in at once. -/
def block : Nat :=
  4096

/-- The console after a machine has left the given rest of the input. -/
def leaveInput (c : Console) (rest : Bytes) : Console :=
  let count := c.input.length - rest.length
  -- Input comes in whole blocks, except for the last one.
  let blocks := (count - c.ahead + (block - 1)) / block
  let taken := c.ahead + min (blocks * block) (c.input.length - c.ahead)
  { c with input := rest, ahead := taken - count }

/-- What the file of a stream holds. -/
def contents (c : Console) : StandardStream → Bytes
  | .input => c.input.drop c.ahead
  | .output => []
  | .errors => []

/-- All files, among them those of the streams. -/
def files (c : Console) : Folder :=
  { c.folder with
    files := StandardStream.all.flatMap (fun stream => stream.places.map (·, c.contents stream)) ++
      c.folder.files }

/-- The console after the file at a path has been read. -/
def afterReading (c : Console) (path : Bytes) : Console :=
  match c.files.locate false path with
  | .ok place =>
    if StandardStream.at? place = some .input then { c with input := c.input.take c.ahead } else c
  | .error _ => c

/-- Writes to a stream. What is written to the input is lost. -/
def send (c : Console) (bytes : Bytes) : StandardStream → Console
  | .input => c
  | .output => c.write outputSink bytes
  | .errors => c.write errorSink bytes

/-- The console after its files have become the given ones: what stands in the files of the streams
now is sent there. -/
def withFiles (c : Console) (files : Folder) : Console :=
  let (streams, others) := files.files.partition fun file => (StandardStream.at? file.1).isSome
  streams.foldl
    (fun after file =>
      match StandardStream.at? file.1 with
      | some stream => if file.2 = c.contents stream then after else after.send file.2 stream
      | none => after)
    { c with folder := { files with files := others } }

/-- Starts logging, from the given level on and with the given time stamp, and to the given file if
it is not empty. The file is emptied first. -/
def openLog (c : Console) (stamp : Log.Stamp) (level : Log.Level) (path : Bytes) :
    Except FileFault Console := do
  let terminal : Log.Handler := ⟨.text, level, errorSink, stamp⟩
  if path.isEmpty then return { c with logger := [terminal] }
  let place ← c.files.locateForWriting path
  match StandardStream.at? place with
  -- What is logged to the input gets lost.
  | some .input => return { c with logger := [terminal] }
  | some .output => return { c with logger := [terminal, ⟨.json, level, outputSink, stamp⟩] }
  | some .errors => return { c with logger := [terminal, ⟨.json, level, errorSink, stamp⟩] }
  | none =>
    return { c with
      logger := [terminal, ⟨.json, level, logSink, stamp⟩]
      folder := c.folder.put place []
      logFile := some { place } }

/-- Brings the log file up to date. -/
def sync (c : Console) : Console :=
  match c.logFile with
  | none => c
  | some file =>
    let bytes := c.received logSink
    if bytes.isEmpty then c
    else { c with
      -- What has been written to the file is not kept in the sink.
      sinks := c.sinks.take logSink ++ [{ kind := .plain }]
      folder := c.folder.writeAt file.place file.size bytes
      logFile := some { file with size := file.size + bytes.length } }

end Console

end TapeMachine.Command
