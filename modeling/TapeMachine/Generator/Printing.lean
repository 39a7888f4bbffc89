import TapeMachine.Generator.Arithmetic

/-!
# Printing

Text is printed from one register that is changed from character to character; blanks come from a
second one that is set up beforehand, so that a run of blanks costs a single move. A number is
printed by counting it down into three digits.
-/

namespace TapeMachine.Generator

/-- A blank. -/
def blank : UInt8 :=
  0x20

/-- Writes a byte. -/
def writeChar (c : UInt8) : Gen Fragment :=
  noted (utf8 "write " ++ Quoted.char c.toNat) <| saveCursor <| sequence [
    setAt Register.put c.toNat,
    write]

/-- Sets `putSpace` and `put`, which have to be zero, to a blank, by counting eight times four on
the pad. -/
def loadBlanks : Gen Fragment := do
  let before ← moveTo Register.putPad
  let code : Fragment := Fragment.adding 8 ++
    [.loop (Fragment.moving (Register.put - Register.putPad) ++ Fragment.adding 4 ++
      Fragment.moving (Register.putSpace - Register.put) ++ Fragment.adding 4 ++
      Fragment.moving (Register.putPad - Register.putSpace) ++ Fragment.adding (-1))]
  -- The loop is not tracked; what it leaves is noted at once.
  modify fun s =>
    (s.learn Register.putSpace (some blank.toNat)).learn Register.put (some blank.toNat)
  let after ← moveTo Register.put
  return before ++ code ++ after

/-- Writes the bytes of a text, given what `put` holds. -/
def writeBytes (last : Int) : Bytes → Gen Fragment
  | [] => return []
  | c :: rest => do
    if c = blank then
      let code ← sequence [moveTo Register.putSpace, write]
      return code ++ (← writeBytes last rest)
    else
      -- Only the difference to the byte before is added.
      let value : Int := c.toNat
      let code ← sequence [moveTo Register.put, add (value - last), write]
      return code ++ (← writeBytes value rest)

/-- Writes a text. -/
def writeString (text : Bytes) : Gen Fragment :=
  if text.isEmpty then return []
  else
    let hasBlank := text.contains blank
    noted (utf8 "write " ++ Quoted.text text) <| saveCursor <| sequence [
      clearAt Register.putSpace,
      clearAt Register.put,
      -- Blanks are so frequent in texts that they get a cell of their own.
      if hasBlank then loadBlanks else return [],
      writeBytes (if hasBlank then blank.toNat else 0) text]

/-- Splits the value of a cell into digits, leaving ten less each of them in registers. -/
def splitDigits (pos : Int) : Gen Fragment :=
  sequence [
    copy Register.digitWork pos,
    setAt Register.ones 10,
    setAt Register.tens 10,
    setAt Register.hundreds 10,
    -- Each digit counts down from ten, so that a carry is a test for zero.
    loopAt Register.digitWork <| sequence [
      decAt Register.digitWork,
      decAt Register.ones,
      ifZero Register.ones <| sequence [
        addAt Register.ones 10,
        decAt Register.tens,
        ifZero Register.tens <| sequence [
          addAt Register.tens 10,
          decAt Register.hundreds]]]]

/-- Restores a digit from the register that holds ten less it. -/
def restoreDigit (register : Int) : Gen Fragment :=
  sequence [setAt Register.digitWork 10, subCell Register.digitWork register]

/-- Prints the digit restored. -/
def printDigit : Gen Fragment :=
  sequence [addAt Register.digitWork 48, write]

/-- Prints the digits that `splitDigits` left: the hundreds if not zero, the tens if not zero or
after hundreds, and the ones in any case. -/
def printDigits : Gen Fragment :=
  sequence [
    clearAt Register.bump,
    restoreDigit Register.hundreds,
    ifNonzero Register.digitWork (sequence [printDigit, setAt Register.bump 1]),
    restoreDigit Register.tens,
    -- A zero among the tens is printed only behind hundreds.
    ifNonzero Register.bump (ifZero Register.digitWork (writeChar 48)),
    ifNonzero Register.digitWork printDigit,
    restoreDigit Register.ones,
    printDigit,
    clearAt Register.digitWork,
    clearAt Register.bump]

/-- Writes the value of a cell in decimal, without leading zeros. -/
def writeDecimal (pos : Int) : Gen Fragment :=
  noted (utf8 s!"write decimal @{pos}") <| saveCursor <| sequence [splitDigits pos, printDigits]

/-- Writes a constant, modulo 256, in decimal. -/
def writeNumber (value : Int) : Gen Fragment :=
  noted (utf8 s!"write decimal {value}") <| saveCursor <| sequence [
    setAt Register.put value,
    splitDigits Register.put,
    printDigits]

end TapeMachine.Generator
