import TapeMachine.Command.Console
import TapeMachine.Command.Flag
import TapeMachine.Demo
import TapeMachine.Dialog.Source
import TapeMachine.Generator.Render
import TapeMachine.Generator.Report
import TapeMachine.Machine.Storage
import TapeMachine.Program.Listing
import TapeMachine.Trial.Check

/-!
# Running a command

A command generates a program and prints or runs it, runs an image, or runs programs one after
another, which share one input. Instead of being run, programs may be listed, and they may be saved
as images.
-/

namespace TapeMachine.Command

/-- Why a program does not run through. -/
inductive ProgramFault where
  /-- The text is no program. -/
  | parse (fault : ParseFault)
  /-- The image cannot be loaded. -/
  | image (fault : LoadFault)
  /-- The program cannot be saved. -/
  | save (fault : SaveFault)
  /-- The run fails. -/
  | run (fault : RunFault)

/-- The wording of a program fault. -/
def ProgramFault.message : ProgramFault → Bytes
  | .parse fault => fault.message
  | .image fault => fault.message
  | .save fault => fault.message
  | .run fault => fault.message

/-- Why a command fails. -/
inductive CommandFault where
  /-- Nothing is asked for. -/
  | nothingToDo
  /-- There is no demonstration with this name. -/
  | unknownDemo (name : Bytes)
  /-- The dialog cannot be loaded. -/
  | dialog (fault : Dialog.LoadFault)
  /-- The program cannot be generated. -/
  | generation (fault : Generator.Fault)
  /-- The check with this name fails. -/
  | check (name : Bytes) (failure : CheckFailure)
  /-- A program file cannot be read. -/
  | file (fault : FileFault)
  /-- A generated program or an image does not run through. -/
  | program (fault : ProgramFault)
  /-- The program in the file with this name does not run through. -/
  | programFile (name : Bytes) (fault : ProgramFault)

/-- The wording of a command fault. -/
def CommandFault.message : CommandFault → Bytes
  | .nothingToDo => utf8 "nothing to do; give a program file, -image, -gen, or -selfcheck"
  | .unknownDemo name =>
    utf8 "unknown program " ++ Quoted.text name ++ utf8 ", have: " ++ Demo.names
  | .dialog fault => fault.message
  | .generation fault => fault.message
  | .check name failure => name ++ utf8 ": " ++ failure.message
  | .file fault => fault.message
  | .program fault => fault.message
  | .programFile name fault => name ++ utf8 ": " ++ fault.message

/-- How far programs are run: fuel to work with, and when to lose patience. -/
structure Bounds where
  /-- The fuel of a run. -/
  fuel : Nat
  /-- When a run is interrupted. -/
  patience : Patience

/-- A step of a command that may fail with `ε`. -/
abbrev Step (ε α : Type) := ExceptT ε (StateM Console) α

namespace Step

/-- Turns the faults of a step into other ones. -/
def widen {ε ε' α : Type} (wrap : ε → ε') (step : Step ε α) : Step ε' α :=
  ExceptT.mk (Except.mapError wrap <$> step.run)

/-- Logs a record. -/
def log {ε : Type} (record : Log.Record) : Step ε Unit :=
  modify (·.log record)

/-- Prints. -/
def print {ε : Type} (bytes : Bytes) : Step ε Unit :=
  modify (·.write Console.outputSink bytes)

/-- The files as they are now. -/
def files {ε : Type} : Step ε Folder := do
  modify Console.sync
  return (← get).files

/-- The files as they are now, for reading the one at a path. -/
def filesToRead {ε : Type} (path : Bytes) : Step ε Folder := do
  let folder ← files
  modify (·.afterReading path)
  return folder

end Step

namespace Options

/-- A machine on the console. -/
def machine (options : Options) (c : Console) : Runner :=
  let runner := Runner.fresh c.sinks
  let runner := runner.addInput { name := utf8 "stdin", data := c.input }
  -- The sinks are those of the console, and come back to it after the run.
  let runner := (runner.setOutput (some Console.outputSink)).setLogger c.logger
  let runner := runner.setLimit options.settings.memLimit
  if options.dumps then runner.setDump (some Console.errorSink) else runner

/-- Saves the program of a machine if asked to. -/
def save (options : Options) (name : Bytes) (runner : Runner) : Step ProgramFault Unit := do
  if options.saveImage.isEmpty then return
  match runner.saveImage (← Step.files) options.saveImage with
  | .error fault => throw (.save fault)
  | .ok folder =>
    modify (·.withFiles folder)
    Step.log {
      level := .info
      message := utf8 "saved image"
      attributes := [("program", .text name), ("path", .text options.saveImage)] }

/-- What a machine has left of its input. -/
def unread (runner : Runner) : Bytes :=
  let input := runner.machine.input
  (input.current.toList ++ input.queue).flatMap (·.data)

/-- Runs or lists a loaded program. -/
def runLoaded (options : Options) (bounds : Bounds) (name : Bytes) (runner : Runner) :
    Step ProgramFault Unit := do
  options.save name runner
  if options.lists then Step.print (runner.loaded.listing [])
  else
    -- Saving may have written to the sinks, so they are taken from the console again.
    let c ← get
    let runner := { runner with machine := { runner.machine with sinks := c.sinks } }
    let (result, runner) := runner.run bounds.fuel bounds.patience
    set { c.leaveInput (unread runner) with sinks := runner.machine.sinks }
    match result with
    | .error fault => throw (.run fault)
    | .ok _ =>
      if runner.halted then
        Step.log {
          level := .debug
          message := utf8 "halted at end of input"
          attributes := [("program", .text name)] }

/-- Runs or lists a program text. -/
def runText (options : Options) (bounds : Bounds) (name text : Bytes) : Step ProgramFault Unit := do
  let text := if options.settings.optimize then ProgramText.optimize text else text
  let c ← get
  match (options.machine c).load text with
  | (.error fault, _) => throw (.parse fault)
  | (.ok _, runner) =>
    set { c with sinks := runner.machine.sinks }
    options.runLoaded bounds name runner

/-- Runs or lists an image. -/
def runImage (options : Options) (bounds : Bounds) : Step ProgramFault Unit := do
  let folder ← Step.filesToRead options.image
  match (options.machine (← get)).loadImage folder options.image with
  | (.error fault, _) => throw (.image fault)
  | (.ok _, runner) => options.runLoaded bounds options.image runner

/-- The code that is asked for. -/
def code (options : Options) (folder : Folder) : Except CommandFault (Gen Fragment) :=
  if options.dialog.isEmpty then
    match Demo.named? options.demo with
    | some build => .ok build
    | none => .error (.unknownDemo options.demo)
  else
    match Dialog.load folder options.dialog with
    | .ok tree => .ok tree.emit
    | .error fault => .error (.dialog fault)

/-- Generates the program that is asked for, or its notes. -/
def generate (options : Options) : Step CommandFault Bytes := do
  let build ← options.code (← Step.filesToRead options.dialog)
  let start : Generator.Session := { wraps := options.settings.wrap }
  let (result, session) := start.perform build
  -- Warnings are reported also where the generation fails.
  session.records.forM fun record => Step.log record
  match result with
  | .error fault => throw (.generation fault)
  | .ok fragment =>
    let text :=
      if options.settings.optimize then Fragment.program options.debug fragment
      else Fragment.render options.debug fragment
    Step.log {
      level := .debug
      message := utf8 "generated"
      attributes := [
        ("name", .text options.demo), ("dialog", .text options.dialog),
        ("bytes", .number text.length)] }
    return text

/-- Makes all checks of generated code. -/
def check (bounds : Bounds) : Step CommandFault Unit := do
  Check.all.forM fun check =>
    match check.run bounds.fuel bounds.patience with
    | .ok _ => return ()
    | .error failure => throw (.check check.name failure)
  Step.log {
    level := .info
    message := utf8 "selfcheck passed"
    attributes := [("checks", .number Check.all.length)] }

/-- Runs program files one after another. -/
def runFiles (options : Options) (bounds : Bounds) : List Bytes → Step CommandFault Unit
  | [] => return ()
  | name :: rest => do
    match (← Step.filesToRead name).read name with
    | .error fault => throw (.file fault)
    | .ok text =>
      (options.runText bounds name text).widen (.programFile name)
      options.runFiles bounds rest

/-- Does what is asked for. -/
def perform (options : Options) (bounds : Bounds) : Step CommandFault Unit := do
  if options.checks then check bounds
  else if !options.demo.isEmpty || !options.dialog.isEmpty then
    let text ← options.generate
    -- Code with notes in it is for reading only.
    if options.runs && !options.debug then
      (options.runText bounds (utf8 "generated") text).widen .program
    else Step.print (ProgramText.fold options.settings.fold text)
  else if !options.image.isEmpty then (options.runImage bounds).widen .program
  else if !options.arguments.isEmpty then options.runFiles bounds options.arguments
  else throw .nothingToDo

/-- Whether anything may be read from the input: it is one of the files, or a program is run, and it
is there. -/
def usesInput (options : Options) (folder : Folder) : Bool :=
  let files := Console.files { input := [], folder }
  let isThere (path : Bytes) : Bool := (files.read path).toOption.isSome
  let isInput (path : Bytes) : Bool :=
    (files.locate false path).toOption.bind StandardStream.at? == some .input
  (options.config :: options.dialog :: options.image :: options.arguments).any isInput ||
    !options.lists && !options.checks &&
      if !options.demo.isEmpty || !options.dialog.isEmpty then options.runs && !options.debug
      else if !options.image.isEmpty then isThere options.image
      else options.arguments.head?.any isThere

end Options

/-- What a command leaves behind. -/
structure Report where
  /-- The exit code. -/
  exit : Nat
  /-- What was printed. -/
  output : Bytes := []
  /-- What was reported as errors. -/
  errors : Bytes := []
  /-- The files. -/
  folder : Folder

/-- A report on a fault, which is all there is to say. -/
def complain (folder : Folder) (message : Bytes) : Report :=
  { exit := 2, errors := message ++ [Bytes.newline], folder }

/-- An error message. -/
def errorLine (message : Bytes) : Bytes :=
  utf8 "ERROR: " ++ message

/-- When a command is interrupted, given how many checks there are in a span of time. -/
def patience (pace : Duration → Nat) (settings : Settings) : Patience :=
  if settings.timeout.nanoseconds = 0 then .endless
  else .upTo (pace settings.timeout) .deadlineExceeded

/-- Carries out a command on a console, and reports. -/
def Options.report (options : Options) (bounds : Bounds) (c : Console) : Report :=
  let (result, c) := Id.run ((options.perform bounds).run.run c)
  match result with
  | .ok _ =>
    let c := c.sync
    ⟨0, c.received Console.outputSink, c.received Console.errorSink, c.folder⟩
  | .error fault =>
    -- The fault is logged and printed, and then what was logged is written to the file.
    let c := c.log {
      level := .error
      message := utf8 "failed"
      attributes := [("err", .text fault.message)] }
    let c := c.write Console.errorSink (errorLine fault.message ++ [Bytes.newline])
    let c := c.sync
    ⟨1, c.received Console.outputSink, c.received Console.errorSink, c.folder⟩

/-- Runs a command line in a folder. All log records have the same time stamp. -/
def run (fuel : Nat) (pace : Duration → Nat) (stamp : Log.Stamp) (env : Environment)
    (folder : Folder) (input : Bytes) (arguments : List Bytes) : Report :=
  let start : Options := { settings := Settings.ofEnvironment env }
  match start.read arguments with
  -- Asking for help is no fault.
  | .error .help => { exit := 0, folder }
  | .error (.fault fault) => complain folder fault.message
  | .ok options =>
    let console : Console := { input, folder }
    match options.configure console.files with
    | .error fault => complain folder (errorLine fault.message)
    | .ok options =>
      let level : Log.Level := if options.settings.trace then .debug else .info
      let console := console.afterReading options.config
      match console.openLog stamp level options.settings.logFile with
      | .error fault => complain folder (errorLine fault.message)
      | .ok console => options.report ⟨fuel, patience pace options.settings⟩ console

end TapeMachine.Command
