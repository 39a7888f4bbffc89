import TapeMachine.Folder
import TapeMachine.Settings.Duration
import TapeMachine.Settings.Syntax
import TapeMachine.Toml.Field
import TapeMachine.Toml.Parser
import TapeMachine.Word

/-!
# Settings

Settings come from the environment, from a file, and from flags, each overriding the ones before. A
variable that does not hold a proper value is as good as missing, while a file has to be right.
-/

namespace TapeMachine

/-- The settings of a command. -/
structure Settings where
  /-- How long the command may take; zero for any time. -/
  timeout : Duration := {}
  /-- The number of cells of the tape; zero for any number. -/
  memLimit : Nat := 0
  /-- The width that generated programs are folded to; zero or less for not at all. -/
  fold : Int := 0
  /-- Whether everything is logged. -/
  trace : Bool := false
  /-- The file that is logged to; none if empty. -/
  logFile : Bytes := []
  /-- Whether generated cell values are tracked modulo 256. -/
  wrap : Bool := false
  /-- Whether program texts are optimized. -/
  optimize : Bool := false
deriving DecidableEq, Repr

/-- One of the settings. -/
inductive Setting where
  | timeout
  | memLimit
  | fold
  | trace
  | logFile
  | wrap
  | optimize
deriving DecidableEq, Repr

/-- The name of a setting, in files and as a flag. -/
def Setting.name : Setting → String
  | .timeout => "timeout"
  | .memLimit => "mem-limit"
  | .fold => "fold"
  | .trace => "trace"
  | .logFile => "log-file"
  | .wrap => "wrap"
  | .optimize => "optimize"

/-- All settings. -/
def Setting.all : List Setting :=
  [.timeout, .memLimit, .fold, .trace, .logFile, .wrap, .optimize]

/-- The setting with a name. -/
def Setting.named? (name : Bytes) : Option Setting :=
  Setting.all.find? fun setting => utf8 setting.name == name

/-- Variables with their values. -/
abbrev Environment := List (Bytes × Bytes)

/-- The value of a variable; an empty one is as good as missing. -/
def Environment.value? (env : Environment) (name : String) : Option Bytes :=
  (env.lookup (utf8 name)).filter fun value => !value.isEmpty

/-- Why a settings file cannot be used. -/
inductive SettingsFault where
  /-- The file cannot be read. -/
  | unreadable (path : Bytes) (fault : FileFault)
  /-- The file at this path is no TOML. -/
  | malformed (path : Bytes) (fault : Toml.Fault)
  /-- The file at this path has a setting of the wrong kind. -/
  | wrongKind (path : Bytes)
  /-- The settings file at this path has a time limit that is none. -/
  | badTimeout (path : Bytes) (fault : DurationFault)
deriving DecidableEq, Repr

/-- The wording of a settings fault. -/
def SettingsFault.message : SettingsFault → Bytes
  | .unreadable path fault => utf8 "cannot read " ++ path ++ utf8 ": " ++ fault.message
  | .malformed path fault => utf8 "parse error in " ++ path ++ utf8 ": " ++ fault.message
  | .wrongKind path => utf8 "parse error in " ++ path ++ utf8 ": a setting is of the wrong kind"
  | .badTimeout path fault => utf8 "parse error in " ++ path ++ utf8 ": " ++ fault.message

namespace Settings

/-- The settings that the environment gives. -/
def ofEnvironment (env : Environment) : Settings :=
  let integer (name : String) : Int :=
    ((env.value? name).bind fun s => (readInt s).toOption).getD 0
  { timeout := ((env.value? "TAPEKIT_TIMEOUT").bind fun s => (Duration.parse s).toOption).getD {}
    memLimit := (integer "TAPEKIT_MEM_LIMIT").toNat
    fold := integer "TAPEKIT_FOLD"
    trace := ((env.value? "TAPEKIT_TRACE").bind readBool?).getD false
    logFile := (env.value? "TAPEKIT_LOG_FILE").getD [] }

/-- Takes one setting from other settings. -/
def take (settings : Settings) (source : Settings) : Setting → Settings
  | .timeout => { settings with timeout := source.timeout }
  | .memLimit => { settings with memLimit := source.memLimit }
  | .fold => { settings with fold := source.fold }
  | .trace => { settings with trace := source.trace }
  | .logFile => { settings with logFile := source.logFile }
  | .wrap => { settings with wrap := source.wrap }
  | .optimize => { settings with optimize := source.optimize }

/-- A duration in a file, if it may be one: a text, or an integer that reads as one. -/
def readDuration? : Toml.Value → Option (Except DurationFault Duration)
  | .text s => some (Duration.parse s)
  | .integer n => some (Duration.parse (Bytes.ofInt n))
  | _ => none

/-- A duration in a file. -/
def duration? (value : Toml.Value) : Option Duration :=
  (readDuration? value).bind Except.toOption

/-- What is wrong with the time limit of a table, if it is given but cannot be read. -/
def timeoutFault? (table : Toml.Table) : Option DurationFault :=
  table.findSome? fun (key, value) =>
    match readDuration? value with
    | some (.error fault) => if Toml.names key Setting.timeout.name then some fault else none
    | _ => none

/-- Overrides settings by those of a table. A negative limit counts from 2^64 down. -/
def overlay (settings : Settings) (table : Toml.Table) : Option Settings := do
  let read {α : Type} (setting : Setting) (value? : Toml.Value → Option α)
      (put : Settings → α → Settings) (s : Settings) : Option Settings :=
    table.readField setting.name value? put s
  let s ← read .timeout duration? (fun s d => { s with timeout := d }) settings
  let s ← read .memLimit Toml.Value.integer?
    (fun s n => { s with memLimit := (n % Word.count).toNat }) s
  let s ← read .fold Toml.Value.integer? (fun s n => { s with fold := n }) s
  let s ← read .trace Toml.Value.boolean? (fun s b => { s with trace := b }) s
  let s ← read .logFile Toml.Value.text? (fun s t => { s with logFile := t }) s
  let s ← read .wrap Toml.Value.boolean? (fun s b => { s with wrap := b }) s
  read .optimize Toml.Value.boolean? (fun s b => { s with optimize := b }) s

/-- Overrides settings by those of a file. -/
def load (settings : Settings) (folder : Folder) (path : Bytes) :
    Except SettingsFault Settings := do
  let text ← (folder.read path).mapError (.unreadable path)
  let table ← (Toml.parse text).mapError (.malformed path)
  match settings.overlay table with
  | some settings => return settings
  | none => throw ((timeoutFault? table).elim (.wrongKind path) (.badTimeout path))

end Settings

end TapeMachine
