import TapeMachine.Generator.Constant

/-!
# Copies, tests and conditions

A cell is copied by draining it into its destination and a register and refilling it from there.
Tests work on a copy, so they keep the cell tested, and leave their outcome in the register `flag`.
-/

namespace TapeMachine.Generator

/-- Sets one cell to the value of another, which is kept. -/
def copy (target source : Int) : Gen Fragment :=
  -- Copying a cell to itself would clear it first.
  if target = source then return []
  else
    noted (utf8 s!"copy @{target} = @{source}") <| saveCursor <| sequence [
      clearAt target,
      clearAt Register.copy,
      -- The source is counted down into both cells, and then restored from the register.
      repeatBy source (sequence [incAt target, incAt Register.copy]),
      repeatBy Register.copy (incAt source)]

/-- Sets `flag` to whether the cell under the cursor is zero. The cursor ends on `flag`. -/
def checkZero : Gen Fragment := do
  let pos ← cursor
  noted (utf8 "flag = zero?") <| sequence [
    copy Register.zeroTest pos,
    setAt Register.flag 1,
    -- The test is made on a copy, because testing a cell uses it up.
    doOnceIf Register.zeroTest (decAt Register.flag),
    moveTo Register.flag]

/-- Sets `flag` to whether the cell under the cursor is not zero. The cursor ends on `flag`. -/
def checkNonzero : Gen Fragment := do
  let pos ← cursor
  noted (utf8 "flag = nonzero?") <| sequence [
    copy Register.zeroTest pos,
    clearAt Register.flag,
    doOnceIf Register.zeroTest (incAt Register.flag),
    moveTo Register.flag]

/-- Sets `flag` to whether the cell under the cursor is equal to a constant. -/
def checkEq (value : Int) : Gen Fragment := do
  let pos ← cursor
  noted (utf8 s!"flag = == {value}?") <| sequence [
    add (-value),
    checkZero,
    moveTo pos,
    -- The value is taken away for the test only.
    add value]

/-- Does `body` once if a cell is not zero. -/
def ifNonzero (pos : Int) (body : Gen Fragment) : Gen Fragment :=
  noted (utf8 s!"if @{pos} != 0") <| saveCursor <| sequence [
    moveTo pos,
    checkNonzero,
    doOnceIf Register.flag body]

/-- Does `body` once if a cell is zero. -/
def ifZero (pos : Int) (body : Gen Fragment) : Gen Fragment :=
  noted (utf8 s!"if @{pos} == 0") <| saveCursor <| sequence [
    moveTo pos,
    checkZero,
    doOnceIf Register.flag body]

/-- Sets the cell under the cursor to whether both it and another one are set. -/
def logicalAnd (other : Int) : Gen Fragment := do
  let pos ← cursor
  noted (utf8 s!"and @{other}") <| saveCursor <| ifZero other (clearAt pos)

/-- Sets the cell under the cursor to whether it or another one is set. -/
def logicalOr (other : Int) : Gen Fragment := do
  let pos ← cursor
  noted (utf8 s!"or @{other}") <| saveCursor <| ifNonzero other (setAt pos 1)

/-- Sets the cell under the cursor to whether another one, possibly itself, is not set. -/
def logicalNot (other : Int) : Gen Fragment := do
  let pos ← cursor
  noted (utf8 s!"not @{other}") <| saveCursor <| sequence [
    -- The other cell may be the one under the cursor, which is set next.
    copy Register.flagLogic other,
    setAt pos 1,
    ifNonzero Register.flagLogic (clearAt pos),
    clearAt Register.flagLogic]

end TapeMachine.Generator
