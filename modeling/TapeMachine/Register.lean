import TapeMachine.Bytes
import TapeMachine.Word

/-!
# The layout of the tape

Generated programs use the first thirty cells of the tape as registers. Behind them come the
variables `a` to `z`, each of two cells of which the second stays zero.

A pad is a cell that holds zero except while a constant is being built on the cell before it, which
borrows the pad as a counter: five registers and the second cells of the variables are pads.
-/

namespace TapeMachine.Register

/-- The selected node of a dialog. -/
abbrev node : Int := 0
/-- The copy of the selected node that is counted down. -/
abbrev nodeWork : Int := 1
/-- A blank, while a text is printed. -/
abbrev putSpace : Int := 2
/-- The character to be printed. -/
abbrev put : Int := 3
/-- The pad of `put`. -/
abbrev putPad : Int := 4
/-- The second copy made while a cell is copied. -/
abbrev copy : Int := 5
/-- The copy of a cell that is tested for zero. -/
abbrev zeroTest : Int := 6
/-- The copy of a cell that is added or subtracted. -/
abbrev addSub : Int := 7
/-- The factor of a multiplication. -/
abbrev mulSource : Int := 8
/-- The product so far. -/
abbrev mulSum : Int := 9
/-- How often the factor is still to be added. -/
abbrev mulCount : Int := 10
/-- The pad of `mulCount`. -/
abbrev mulPad : Int := 11
/-- The quotient of a division. -/
abbrev divQuotient : Int := 12
/-- The remainder of a division. -/
abbrev divRemainder : Int := 13
/-- Whether a division goes on. -/
abbrev divLoop : Int := 14
/-- A constant divisor. -/
abbrev divDivisor : Int := 15
/-- The pad of `divDivisor`. -/
abbrev divPad : Int := 16
/-- The outcome of a test. -/
abbrev flag : Int := 17
/-- The copy of a cell that is negated. -/
abbrev flagLogic : Int := 18
/-- Whether a subtraction went below zero. -/
abbrev borrow : Int := 19
/-- Whether a digit has been printed. -/
abbrev bump : Int := 20
/-- The answer to a question: one for yes, zero for no. -/
abbrev yesNo : Int := 21
/-- Whether a question is still open. -/
abbrev yesNoLoop : Int := 22
/-- The byte read as an answer. -/
abbrev yesNoKey : Int := 23
/-- The pad of `yesNoKey`. -/
abbrev yesNoPad : Int := 24
/-- The number to be split into digits, then the digit to be printed. -/
abbrev digitWork : Int := 25
/-- The pad of `digitWork`. -/
abbrev digitPad : Int := 26
/-- Ten less the hundreds digit. -/
abbrev hundreds : Int := 27
/-- Ten less the tens digit. -/
abbrev tens : Int := 28
/-- Ten less the ones digit. -/
abbrev ones : Int := 29

/-- The first cell behind the registers. -/
abbrev variableBase : Int := 30

/-- The last position the cursor can take. -/
@[noinline] def lastPosition : Nat :=
  0x7fffffffffffffff

/-- How many variables there are. -/
def variableCount : Int :=
  26

/-- The names of the registers, in order. -/
def names : List String := [
  "node", "node.work", "put.space", "put", "put.pad", "copy", "znz", "addsub", "mul.src", "mul.acc",
  "mul.count", "mul.pad", "div.quot", "div.rem", "div.loop", "div.divisor", "div.pad", "flag",
  "flag.logic", "borrow", "bump", "yn", "yn.loop", "yn.key", "yn.pad", "digit", "digit.pad",
  "digit.100", "digit.10", "digit.1"]

/-- The first cell of the variable with the given small letter. -/
def cellOf (letter : Char) : Int :=
  variableBase + 2 * ((letter.toNat : Int) - 'a'.toNat)

/-- The first cell of the variable with the given letter, if there is such a variable. -/
def cellOfVariable? (letter : UInt8) : Option Int :=
  if byte 'a' ≤ letter ∧ letter ≤ byte 'z' then
    some (variableBase + 2 * (letter.toNat - (byte 'a').toNat : Int))
  else none

/-- Whether a cell is a register. -/
def isScratch (pos : Int) : Bool :=
  0 ≤ pos && pos < variableBase

/-- The role of a cell: the name of a register, or the letter of a variable at its first cell. Other
cells have none. -/
def role (pos : Int) : Bytes :=
  if isScratch pos then utf8 (names[pos.toNat]?.getD "")
  else
    let past := pos - variableBase
    if 0 ≤ past ∧ past % 2 = 0 ∧ past / 2 < variableCount then
      [byte 'a' + (past / 2).toNat.toUInt8]
    else []

/-- Whether a cell is a pad. -/
def isPad (pos : Int) : Bool :=
  let past := pos - variableBase
  pos == putPad || pos == mulPad || pos == divPad || pos == yesNoPad || pos == digitPad ||
    (0 < past && past % 2 == 1 && past / 2 < variableCount)

end TapeMachine.Register
