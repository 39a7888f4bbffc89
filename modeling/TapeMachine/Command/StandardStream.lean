import TapeMachine.Folder

/-!
# Standard streams as files

A command has three streams: its input, its output, and where it reports errors. Each can be used as
a file too, which is found at some fixed locations. Reading the input as a file uses it up. What is
written to the file of the output, or of the errors, goes there.
-/

namespace TapeMachine.Command

/-- A stream that every command has. -/
inductive StandardStream where
  /-- The input. -/
  | input
  /-- The output. -/
  | output
  /-- Where errors are reported. -/
  | errors
deriving DecidableEq, Repr

namespace StandardStream

/-- The streams. -/
def all : List StandardStream :=
  [.input, .output, .errors]

/-- The name of the file of a stream. -/
def name : StandardStream → String
  | .input => "stdin"
  | .output => "stdout"
  | .errors => "stderr"

/-- The number of a stream, which is the name of its file in the folders of open files. -/
def number : StandardStream → String
  | .input => "0"
  | .output => "1"
  | .errors => "2"

/-- Where the file of a stream is. -/
def places (stream : StandardStream) : List Location :=
  [["dev", stream.name], ["dev", "fd", stream.number], ["proc", "self", "fd", stream.number]].map
    fun names => { isAbsolute := true, names := names.reverse.map utf8 }

/-- The stream that has its file at a location. -/
def at? (place : Location) : Option StandardStream :=
  all.find? fun stream => stream.places.contains place

end StandardStream

end TapeMachine.Command
