import Std.Time.DateTime.Timestamp
import TapeMachine.Command.Run

/-!
# The command line

The outer layer of the command: it reads the files that are named on the command line, hands
everything to `Command.run`, and writes what comes back.
-/

namespace TapeMachine.CommandLine

/-- The bytes of a byte array. -/
def bytesOf (bytes : ByteArray) : Bytes :=
  bytes.data.toList

/-- The byte array of some bytes. -/
def arrayOf (bytes : Bytes) : ByteArray :=
  ⟨bytes.toArray⟩

/-- The variables that settings are taken from. -/
def settingVariables : List String :=
  ["TAPEKIT_TIMEOUT", "TAPEKIT_MEM_LIMIT", "TAPEKIT_FOLD", "TAPEKIT_TRACE", "TAPEKIT_LOG_FILE"]

/-- The settings in the environment. -/
def readEnvironment : IO Environment := do
  let mut env : Environment := []
  for name in settingVariables do
    if let some value ← IO.getEnv name then
      env := (utf8 name, utf8 value) :: env
  return env

/-- The paths that an argument may name. -/
def paths (argument : String) : List String :=
  [argument, String.intercalate "=" ((argument.splitOn "=").drop 1)]

/-- A path up to each of its parts. -/
def stages (path : String) : List String :=
  let parts := path.splitOn "/"
  (List.range parts.length).map fun count => String.intercalate "/" (parts.take (count + 1))

/-- The location that a path leads to when all its folders are there. -/
def lexical (path : String) : Location :=
  (Location.parts (utf8 path)).foldl
    (fun place part =>
      if part.isEmpty || part == utf8 "." then place
      else if part == utf8 ".." then place.parent
      else place.child part)
    (Location.origin (utf8 path))

/-- Whether the file at a location need not be read to be known. -/
def isAlwaysThere (place : Location) : Bool :=
  place.keepsNothing || (Command.StandardStream.at? place).isSome

/-- Adds the files and folders that a path leads through and to. -/
def readFile (folder : Folder) (path : String) : IO Folder := do
  let mut folder := folder
  for stage in stages path do
    if isAlwaysThere (lexical stage) then continue
    try
      let _ ← IO.FS.realPath (stage ++ "/.")
      folder := { folder with folders := lexical stage :: folder.folders }
    catch _ =>
      try
        folder := folder.put (lexical stage) (bytesOf (← IO.FS.readBinFile stage))
      catch _ => pure ()
  return folder

/-- The log file that the settings name, if they can be read. -/
def logPath? (env : Environment) (folder : Folder) (arguments : List Bytes) : Option String := do
  let start : Command.Options := { settings := Settings.ofEnvironment env }
  let options ← (start.read arguments).toOption
  let options ← (options.configure folder).toOption
  String.fromUTF8? (arrayOf options.settings.logFile)

/-- The files that are named on the command line and in the settings, and the folders around them.
-/
def readFiles (env : Environment) (arguments : List String) : IO Folder := do
  let folder ← (arguments.flatMap paths).foldlM readFile {}
  (logPath? env folder (arguments.map utf8)).toList.foldlM readFile folder

/-- Writes the files that have changed. -/
def writeFiles (before after : Folder) : IO Unit := do
  for (place, contents) in after.files do
    if before.contents? place != some contents then
      if let some path := String.fromUTF8? (arrayOf place.path) then
        IO.FS.writeBinFile path (arrayOf contents)

/-- How many checks a span of time is taken to hold: one in twenty microseconds. -/
def pace (limit : Duration) : Nat :=
  (limit.nanoseconds / 20000).toNat

/-- Whether a command line reads the standard input. -/
def usesInput (env : Environment) (folder : Folder) (arguments : List Bytes) : Bool :=
  match Command.Options.read { settings := Settings.ofEnvironment env } arguments with
  | .ok options => options.usesInput folder
  | .error _ => false

/-- Everything that is left of a stream, behind what has been read. -/
partial def readAll (stream : IO.FS.Stream) (before : ByteArray) : IO ByteArray := do
  let chunk ← stream.read 65536
  if chunk.isEmpty then return before else readAll stream (before ++ chunk)

/-- The time now. -/
def readClock : IO Log.Stamp := do
  return .ofNanoseconds (← Std.Time.Timestamp.now).toNanosecondsSinceUnixEpoch.val.toNat

/-- Carries out a command line. -/
def run (arguments : List String) : IO UInt32 := do
  let env ← readEnvironment
  let words := arguments.map utf8
  let folder ← readFiles env arguments
  let input ←
    if usesInput env folder words then readAll (← IO.getStdin) ByteArray.empty
    else pure ByteArray.empty
  let report := Command.run Word.count pace (← readClock) env folder (bytesOf input) words
  writeFiles folder report.folder
  (← IO.getStdout).write (arrayOf report.output)
  (← IO.getStderr).write (arrayOf report.errors)
  return report.exit.toUInt32

end TapeMachine.CommandLine

/-- Runs the command. -/
def main (arguments : List String) : IO UInt32 :=
  TapeMachine.CommandLine.run arguments
