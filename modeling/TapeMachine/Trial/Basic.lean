import TapeMachine.Generator.Session
import TapeMachine.Machine.Runner

/-!
# Trials

A trial runs a program text on a machine of its own, with a given input and with its output and dump
kept in memory.
-/

namespace TapeMachine

/-- Why a trial fails. -/
inductive TrialFault where
  /-- The text is no program. -/
  | parse (fault : ParseFault)
  /-- The run fails. -/
  | run (fault : RunFault)
deriving DecidableEq, Repr

/-- The wording of a trial fault. -/
def TrialFault.message : TrialFault → Bytes
  | .parse fault => fault.message
  | .run fault => fault.message

/-- A trial that was made. -/
structure Trial where
  /-- Whether it failed. -/
  result : Except TrialFault Unit
  /-- The machine afterwards. -/
  runner : Runner

namespace Trial

/-- The machine of a trial before its start. Output is the first sink and dump the second one. -/
def prepare (input : Bytes) (limit : Nat) : Runner :=
  let fresh := Runner.fresh [{ kind := .memory }, { kind := .memory }]
  (((fresh.addInput { name := utf8 "input", data := input }).setOutput (some 0)).setDump
    (some 1)).setLimit limit

/-- Runs a program text. -/
def run (text input : Bytes) (limit fuel : Nat) (patience : Patience) : Trial :=
  match (prepare input limit).load text with
  | (.error fault, runner) => ⟨.error (.parse fault), runner⟩
  | (.ok _, runner) =>
    match runner.run fuel patience with
    | (.error fault, runner) => ⟨.error (.run fault), runner⟩
    | (.ok _, runner) => ⟨.ok (), runner⟩

/-- What reached a sink. -/
def received (trial : Trial) (sink : Nat) : Bytes :=
  (trial.runner.machine.sinks[sink]?.map Sink.received).getD []

/-- What was written. -/
def output (trial : Trial) : Bytes :=
  trial.received 0

/-- What was dumped. -/
def dump (trial : Trial) : Bytes :=
  trial.received 1

/-- How many bytes of the input have not been read. -/
def unread (trial : Trial) : Nat :=
  trial.runner.machine.input.remaining

end Trial

end TapeMachine
