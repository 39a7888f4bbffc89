import TapeMachine.Bytes

/-!
# Guarded tasks

A task that is guarded never takes its caller down: whether it fails, crashes or quits, the caller
gets a fault to report.
-/

namespace TapeMachine

/-- What a task crashes with. -/
inductive CrashValue where
  /-- A fault, with its wording. -/
  | fault (reason : Bytes)
  /-- A text. -/
  | text (s : Bytes)
  /-- A number. -/
  | number (n : Int)
deriving DecidableEq, Repr

/-- The wording of what a task crashes with. -/
def CrashValue.message : CrashValue → Bytes
  | .fault reason => reason
  | .text s => s
  | .number n => Bytes.ofInt n

/-- How a task ends. -/
inductive TaskEnd where
  /-- It succeeds. -/
  | done
  /-- It reports a fault. -/
  | failed (reason : Bytes)
  /-- It crashes. -/
  | crashed (value : CrashValue)
  /-- It quits without any result. -/
  | quit
deriving DecidableEq, Repr

/-- What is reported of a task that does not succeed. -/
inductive TaskFault where
  /-- The fault that the task itself reported. -/
  | reported (reason : Bytes)
  /-- The task with this name crashed. -/
  | crashed (name : Bytes) (value : CrashValue)
  /-- The task with this name quit. -/
  | quit (name : Bytes)
deriving DecidableEq, Repr

namespace TaskFault

/-- The wording of a task fault. A task without a name is not mentioned. -/
def message : TaskFault → Bytes
  | .reported reason => reason
  | .crashed name value =>
    (if name.isEmpty then [] else name ++ utf8 " ") ++ utf8 "panicked: " ++ value.message
  | .quit name =>
    if name.isEmpty then utf8 "runtime.Goexit called" else name ++ utf8 " called runtime.Goexit"

/-- The fault that is behind a task fault. -/
def cause? : TaskFault → Option Bytes
  | .crashed _ (.fault reason) => some reason
  | _ => none

end TaskFault

/-- What a guarded task with the given name comes to. -/
def TaskEnd.guarded (name : Bytes) : TaskEnd → Except TaskFault Unit
  | .done => .ok ()
  | .failed reason => .error (.reported reason)
  | .crashed value => .error (.crashed name value)
  | .quit => .error (.quit name)

end TapeMachine
