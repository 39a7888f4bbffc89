import TapeMachine.Generator.Condition

/-!
# Arithmetic on cells

All arithmetic is modulo 256. A subtraction tells in `borrow` whether it went below zero, and a
division leaves quotient and remainder in registers.
-/

namespace TapeMachine.Generator

/-- Adds one cell to another. -/
def addCell (target source : Int) : Gen Fragment :=
  noted (utf8 s!"@{target} += @{source}") <| saveCursor <| sequence [
    copy Register.addSub source,
    repeatBy Register.addSub (incAt target)]

/-- Subtracts one cell from another, and sets `borrow` to whether the difference is negative. -/
def subCell (target source : Int) : Gen Fragment :=
  noted (utf8 s!"@{target} -= @{source}") <| saveCursor <| sequence [
    clearAt Register.borrow,
    copy Register.addSub source,
    repeatBy Register.addSub <| sequence [
      -- A cell that is zero before it is decremented wraps around, which is a borrow.
      ifZero target (setAt Register.borrow 1),
      decAt target]]

/-- Multiplies the cell under the cursor by a constant. -/
def mul (factor : Int) : Gen Fragment := do
  let pos ← cursor
  noted (utf8 s!"*= {factor}") <| saveCursor <| sequence [
    copy Register.mulSource pos,
    clearAt Register.mulSum,
    setAt Register.mulCount factor,
    repeatBy Register.mulCount (addCell Register.mulSum Register.mulSource),
    copy pos Register.mulSum,
    clearAt Register.mulSum,
    clearAt Register.mulSource]

/-- Multiplies a cell by a constant. -/
def mulAt (pos factor : Int) : Gen Fragment :=
  sequence [moveTo pos, mul factor]

/-- Divides one cell by another: the divisor is subtracted from a copy of the dividend until that
borrows, and the step that borrowed is undone. -/
def divide (dividend divisor : Int) : Gen Fragment :=
  sequence [
    clearAt Register.divQuotient,
    copy Register.divRemainder dividend,
    setAt Register.divLoop 1,
    loopAt Register.divLoop <| sequence [
      -- This never ends for a divisor of zero, as nothing is ever borrowed.
      subCell Register.divRemainder divisor,
      incAt Register.divQuotient,
      ifNonzero Register.borrow <| sequence [
        addCell Register.divRemainder divisor,
        decAt Register.divQuotient,
        clearAt Register.divLoop]]]

/-- Divides the cell under the cursor by another one. -/
def divCell (divisor : Int) : Gen Fragment := do
  let pos ← cursor
  noted (utf8 s!"/= @{divisor}") <| saveCursor <| sequence [
    divide pos divisor,
    copy pos Register.divQuotient]

/-- Replaces the cell under the cursor by its remainder modulo another one. -/
def modCell (divisor : Int) : Gen Fragment := do
  let pos ← cursor
  noted (utf8 s!"%= @{divisor}") <| saveCursor <| sequence [
    divide pos divisor,
    copy pos Register.divRemainder]

/-- Warns of a constant divisor that is zero modulo 256. -/
def warnZeroDivisor (divisor : Int) : Gen Unit :=
  if divisor % 256 = 0 then modify (·.warn (.zeroDivisor divisor)) else return ()

/-- Divides the cell under the cursor by a constant. -/
def div (divisor : Int) : Gen Fragment := do
  warnZeroDivisor divisor
  -- Setting the divisor moves the cursor, so the way back is a step of its own.
  let pos ← cursor
  sequence [setAt Register.divDivisor divisor, moveTo pos, divCell Register.divDivisor]

/-- Replaces the cell under the cursor by its remainder modulo a constant. -/
def mod (divisor : Int) : Gen Fragment := do
  warnZeroDivisor divisor
  let pos ← cursor
  sequence [setAt Register.divDivisor divisor, moveTo pos, modCell Register.divDivisor]

end TapeMachine.Generator
