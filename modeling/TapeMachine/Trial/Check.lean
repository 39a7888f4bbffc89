import TapeMachine.Generator.Dispatch
import TapeMachine.Trial.Basic
import TapeMachine.Trial.Expectation

/-!
# Checks of generated code

A check generates code, runs it, and compares what it left on the tape or printed with the
arithmetic that it is meant to do.
-/

namespace TapeMachine

/-- Something that generated code is to get right. -/
inductive Check where
  /-- A cell is set to a constant. -/
  | set (value : Int)
  /-- A cell is copied. -/
  | copy (value : Int)
  /-- A number is printed. -/
  | decimal (value : Int)
  /-- A number is divided by another one. -/
  | divide (dividend divisor : Int)
  /-- A number is subtracted from another one and added back. -/
  | subAdd (x y : Int)
  /-- A question is answered: which answer is found, and after how many bytes of the input. -/
  | yesNo (input : Bytes) (want consumed : Int)

/-- Why a check fails. -/
inductive CheckFailure where
  /-- No code is generated. -/
  | generation (fault : Generator.Fault)
  /-- The code cannot be run to its end. -/
  | trial (fault : TrialFault)
  /-- A cell is wrong. -/
  | cell (mismatch : Mismatch)
  /-- A register is not clear. -/
  | scratch (mismatch : Mismatch)
  /-- Something else is printed. -/
  | printed (got want : Bytes)
  /-- Quotient and remainder are wrong. -/
  | division (quotient remainder : UInt8) (dividend divisor : Int)
  /-- The answer is not found. -/
  | outOfInput (input : Bytes)
  /-- Another number of bytes is read. -/
  | consumed (count : Int) (input : Bytes) (want : Int)

/-- The wording of a check failure. Quotients are rounded towards zero. -/
def CheckFailure.message : CheckFailure → Bytes
  | .generation fault => fault.message
  | .trial fault => fault.message
  | .cell mismatch => mismatch.message
  | .scratch mismatch => mismatch.scratchMessage
  | .printed got want =>
    utf8 "printed " ++ Quoted.text got ++ utf8 ", want " ++ Quoted.text want
  | .division quotient remainder dividend divisor =>
    let q := Word.wrap (dividend.tdiv divisor)
    let r := dividend.tmod divisor
    utf8 s!"got q={quotient.toNat} r={remainder.toNat}, want q={q} r={r}"
  | .outOfInput input => utf8 "ran out of input " ++ Quoted.text input
  | .consumed count input want =>
    utf8 s!"consumed {count} bytes of " ++ Quoted.text input ++ utf8 s!", want {want}"

namespace Check

open Generator

/-- What is checked, in a few words. -/
def name : Check → Bytes
  | .set value => utf8 s!"set {value}"
  | .copy value => utf8 s!"copy {value}"
  | .decimal value => utf8 s!"decimal {value}"
  | .divide dividend divisor => utf8 s!"divide {dividend}/{divisor}"
  | .subAdd x y => utf8 s!"sub add {x}-{y}+{y}"
  | .yesNo input .. => utf8 "yes/no " ++ input

/-- The checks for one value of a byte. -/
def ofValue (value : Int) : List Check :=
  [.set value, .copy value, .decimal value] ++
    ([1, 2, 3, 7, 10, 16, 100, 255] : List Int).map (.divide value) ++
    (List.range 256).map fun (y : Nat) => .subAdd value y

/-- All checks that are worth making. -/
def all : List Check :=
  ((List.range 256).flatMap fun (value : Nat) => ofValue value) ++
    [.yesNo (utf8 "xqn") 0 3, .yesNo (utf8 "y") 1 1]

/-- The code whose effect is checked. -/
def code : Check → Gen Fragment
  | .set value => setAt (Register.cellOf 'a') value
  | .copy value =>
    sequence [setAt (Register.cellOf 'b') value,
      Generator.copy (Register.cellOf 'a') (Register.cellOf 'b')]
  | .decimal value =>
    sequence [setAt (Register.cellOf 'a') value, writeDecimal (Register.cellOf 'a')]
  | .divide dividend divisor =>
    sequence [setAt (Register.cellOf 'a') dividend, moveTo (Register.cellOf 'a'), div divisor]
  | .subAdd x y => sequence [
      setAt (Register.cellOf 'a') x,
      setAt (Register.cellOf 'b') y,
      subCell (Register.cellOf 'a') (Register.cellOf 'b'),
      Generator.copy (Register.cellOf 'c') Register.borrow,
      addCell (Register.cellOf 'a') (Register.cellOf 'b')]
  | .yesNo .. => readYesNo

/-- The input the code is run with. -/
def input : Check → Bytes
  | .yesNo input .. => input
  | _ => []

/-- Compares what a cell holds after a trial. -/
def expect (trial : Trial) (pos want : Int) : Except CheckFailure Unit :=
  (trial.runner.expectCell pos want).mapError .cell

/-- Compares what a trial left behind. -/
def judge (trial : Trial) : Check → Except CheckFailure Unit
  | .set value => do
    expect trial (Register.cellOf 'a') value
    expect trial (Register.cellOf 'a' + 1) 0
  | .copy value => do
    expect trial (Register.cellOf 'a') value
    expect trial (Register.cellOf 'b') value
    (trial.runner.expectScratchClear []).mapError .scratch
  | .decimal value =>
    let want := Bytes.ofInt value
    if trial.output = want then .ok () else .error (.printed trial.output want)
  | .divide dividend divisor => do
    -- What is checked is that division is Euclidean, not the two results one by one.
    let quotient := trial.runner.cell (Register.cellOf 'a')
    let remainder := trial.runner.cell Register.divRemainder
    let q : Int := quotient.toNat
    let r : Int := remainder.toNat
    if q * divisor + r ≠ dividend ∨ divisor ≤ r then
      throw (.division quotient remainder dividend divisor)
    expect trial Register.divQuotient q
  | .subAdd x y => do
    expect trial (Register.cellOf 'c') (if x < y then 1 else 0)
    expect trial (Register.cellOf 'b') y
    expect trial (Register.cellOf 'a') x
  | .yesNo input want consumed => do
    if trial.runner.halted then throw (.outOfInput input)
    expect trial Register.yesNo want
    expect trial Register.flag want
    let count : Int := input.length - trial.unread
    if count ≠ consumed then throw (.consumed count input consumed)

/-- Makes a check. -/
def run (check : Check) (fuel : Nat) (patience : Patience) : Except CheckFailure Unit := do
  let session : Session := { wraps := true }
  let code ← (session.perform check.code).1.mapError .generation
  let trial := Trial.run (Fragment.text code) check.input 0 fuel patience
  trial.result.mapError .trial
  check.judge trial

end Check

end TapeMachine
