import TapeMachine.Settings.Basic

/-!
# Flags

A command line starts with flags, which begin with one or two dashes. A flag has its value behind an
equals sign or as the next argument, except for a truth value, which may only stand behind an equals
sign and is true if left out. The first argument that is no flag, and everything after it, is left
to the command.
-/

namespace TapeMachine.Command

/-- What a command line asks for. -/
structure Options where
  /-- The settings, as far as they come from the environment and the flags. -/
  settings : Settings
  /-- The settings given as flags. -/
  given : List Setting := []
  /-- The settings file. -/
  config : Bytes := []
  /-- The demonstration to generate. -/
  demo : Bytes := []
  /-- The dialog file to generate a program from. -/
  dialog : Bytes := []
  /-- The image to run. -/
  image : Bytes := []
  /-- The file to save an image to. -/
  saveImage : Bytes := []
  /-- Whether a generated program is run. -/
  runs : Bool := false
  /-- Whether notes are printed instead of program text. -/
  debug : Bool := false
  /-- Whether programs are listed instead of run. -/
  lists : Bool := false
  /-- Whether the checks of generated code are made. -/
  checks : Bool := false
  /-- Whether dumps are shown. -/
  dumps : Bool := false
  /-- The arguments that are no flags. -/
  arguments : List Bytes := []

/-- The kinds of flags, with what their values are put into. -/
inductive FlagKind where
  | truth (put : Options → Bool → Options)
  | text (put : Options → Bytes → Options)
  | integer (put : Options → Int → Options)
  | natural (put : Options → Nat → Options)
  | duration (put : Options → Duration → Options)

/-- Puts a setting and notes that it was given. -/
def Options.give (options : Options) (setting : Setting) (settings : Settings) : Options :=
  { options with settings, given := setting :: options.given }

/-- The flags that are settings. -/
def settingFlag : Setting → FlagKind
  | .timeout =>
    .duration fun o value => o.give .timeout { o.settings with timeout := value }
  | .memLimit =>
    .natural fun o value => o.give .memLimit { o.settings with memLimit := value }
  | .fold => .integer fun o value => o.give .fold { o.settings with fold := value }
  | .trace => .truth fun o value => o.give .trace { o.settings with trace := value }
  | .logFile => .text fun o value => o.give .logFile { o.settings with logFile := value }
  | .wrap => .truth fun o value => o.give .wrap { o.settings with wrap := value }
  | .optimize => .truth fun o value => o.give .optimize { o.settings with optimize := value }

/-- All flags by name. -/
def flags : List (String × FlagKind) := [
  ("config", .text fun o value => { o with config := value }),
  ("gen", .text fun o value => { o with demo := value }),
  ("dialog", .text fun o value => { o with dialog := value }),
  ("run", .truth fun o value => { o with runs := value }),
  ("debug", .truth fun o value => { o with debug := value }),
  ("list", .truth fun o value => { o with lists := value }),
  ("image", .text fun o value => { o with image := value }),
  ("save-image", .text fun o value => { o with saveImage := value }),
  ("selfcheck", .truth fun o value => { o with checks := value }),
  ("dump", .truth fun o value => { o with dumps := value })] ++
  Setting.all.map fun setting => (setting.name, settingFlag setting)

/-- The flag with a name. -/
def flagNamed? (name : Bytes) : Option FlagKind :=
  flags.findSome? fun (key, kind) => if utf8 key = name then some kind else none

/-- Why a command line is not accepted. -/
inductive FlagFault where
  /-- An argument has not the form of a flag. -/
  | badForm (argument : Bytes)
  /-- There is no flag with this name. -/
  | undefined (name : Bytes)
  /-- The value of a flag is missing. -/
  | noValue (name : Bytes)
  /-- A truth value is not one. -/
  | badTruth (value name : Bytes)
  /-- Any other value is not what the flag wants. -/
  | badValue (value name : Bytes) (fault : Settings.NumberFault)
deriving DecidableEq, Repr

/-- The wording of a flag fault. -/
def FlagFault.message : FlagFault → Bytes
  | .badForm argument => utf8 "bad flag syntax: " ++ argument
  | .undefined name => utf8 "flag provided but not defined: -" ++ name
  | .noValue name => utf8 "flag needs an argument: -" ++ name
  | .badTruth value name =>
    utf8 "invalid boolean value " ++ Quoted.text value ++ utf8 " for -" ++ name ++ utf8 ": " ++
      Settings.NumberFault.malformed.message
  | .badValue value name fault =>
    utf8 "invalid value " ++ Quoted.text value ++ utf8 " for flag -" ++ name ++ utf8 ": " ++
      fault.message

/-- Why a command line is not carried out. -/
inductive FlagStop where
  /-- Help is asked for. -/
  | help
  /-- The command line is not accepted. -/
  | fault (fault : FlagFault)
deriving DecidableEq, Repr

/-- What an argument is. -/
inductive Argument where
  /-- No flag. -/
  | word
  /-- The end of the flags. -/
  | separator
  /-- Neither of them nor a proper flag. -/
  | bad
  /-- A flag, and its value if it has one. -/
  | flag (name : Bytes) (value : Option Bytes)

/-- Cuts a flag at its first equals sign. -/
def Argument.ofBody (body : Bytes) : Argument :=
  let isEquals (b : UInt8) : Bool := b == byte '='
  match body with
  | [] => .bad
  | b :: rest =>
    if b = byte '-' ∨ isEquals b then .bad
    else
      let name := b :: rest.takeWhile (!isEquals ·)
      match rest.dropWhile (!isEquals ·) with
      | [] => .flag name none
      | _ :: value => .flag name (some value)

/-- What an argument is. -/
def Argument.of (argument : Bytes) : Argument :=
  match argument with
  | a :: b :: rest =>
    if a ≠ byte '-' then .word
    else if b ≠ byte '-' then ofBody (b :: rest)
    else if rest.isEmpty then .separator
    else ofBody rest
  | _ => .word

/-- Puts the value of a flag. -/
def FlagKind.set (kind : FlagKind) (name value : Bytes) (options : Options) :
    Except FlagFault Options :=
  match kind with
  | .truth put =>
    match Settings.readBool? value with
    | some b => .ok (put options b)
    | none => .error (.badTruth value name)
  | .text put => .ok (put options value)
  | .integer put =>
    match Settings.readInt value with
    | .ok n => .ok (put options n)
    | .error fault => .error (.badValue value name fault)
  | .natural put =>
    match Settings.readNat value with
    | .ok n => .ok (put options n)
    | .error fault => .error (.badValue value name fault)
  | .duration put =>
    match Duration.parse value with
    | .ok d => .ok (put options d)
    | .error _ => .error (.badValue value name .malformed)

/-- Whether a flag may go without a value. -/
def FlagKind.isTruth : FlagKind → Bool
  | .truth _ => true
  | _ => false

/-- Reads the flags of a command line. -/
def Options.read (options : Options) : List Bytes → Except FlagStop Options
  | [] => .ok options
  | argument :: rest =>
    match Argument.of argument with
    | .word => .ok { options with arguments := argument :: rest }
    | .separator => .ok { options with arguments := rest }
    | .bad => .error (.fault (.badForm argument))
    | .flag name value =>
      match flagNamed? name with
      -- Help is asked for by a flag that is not declared.
      | none =>
        if name = utf8 "help" ∨ name = utf8 "h" then .error .help
        else .error (.fault (.undefined name))
      | some kind =>
        -- A truth value may stand alone; other flags take the next argument.
        match value.orElse fun _ => if kind.isTruth then some (utf8 "true") else none with
        | some value =>
          match kind.set name value options with
          | .ok options => options.read rest
          | .error fault => .error (.fault fault)
        | none =>
          match rest with
          | [] => .error (.fault (.noValue name))
          | value :: rest =>
            match kind.set name value options with
            | .ok options => options.read rest
            | .error fault => .error (.fault fault)

/-- The options with the settings file taken into account; flags come before the file. -/
def Options.configure (options : Options) (folder : Folder) : Except SettingsFault Options := do
  if options.config.isEmpty then return options
  let loaded ← options.settings.load folder options.config
  return { options with
    settings := options.given.foldl (fun s setting => s.take options.settings setting) loaded }

end TapeMachine.Command
