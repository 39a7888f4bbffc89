import TapeMachine.Text.Digits
import TapeMachine.Word

/-!
# Numbers and truth values in settings

Numbers may be written in base 2, 8, 10 or 16, told apart by what stands before the digits, with
underscores between them.
-/

namespace TapeMachine.Settings

/-- Why a text is no number of the kind asked for. -/
inductive NumberFault where
  /-- The text is no number. -/
  | malformed
  /-- The number is too large or too small. -/
  | outOfRange
deriving DecidableEq, Repr

/-- The wording of a number fault. -/
def NumberFault.message : NumberFault → Bytes
  | .malformed => utf8 "parse error"
  | .outOfRange => utf8 "value out of range"

/-- Adds digits to a number that has to stay below a bound. Underscores are skipped. -/
def readDigits (base bound : Nat) (n : Nat) : Bytes → Except NumberFault Nat
  | [] => .ok n
  | b :: rest =>
    if b = Digits.separator then readDigits base bound n rest
    else match (Digits.value? b).filter (· < base) with
      | none => .error .malformed
      | some d =>
        let n := n * base + d
        if n < bound then readDigits base bound n rest else .error .outOfRange

/-- The base that a letter behind a zero stands for. -/
def base? (b : UInt8) : Option Nat :=
  match (Bytes.char b).toLower with
  | 'x' => some 16
  | 'o' => some 8
  | 'b' => some 2
  | _ => none

/-- Splits a number into its base, whether that is given by a letter, and its digits. A zero alone
before the digits means base eight. -/
def cutBase (text : Bytes) : Nat × Bool × Bytes :=
  match text with
  | zero :: letter :: digit :: rest =>
    if zero ≠ byte '0' then (10, false, text)
    else match base? letter with
      | some base => (base, true, digit :: rest)
      | none => (8, false, text)
  | zero :: _ => (if zero = byte '0' then 8 else 10, false, text)
  | [] => (10, false, [])

/-- Reads a natural number of 64 bits. -/
def readNat (text : Bytes) : Except NumberFault Nat := do
  if text.isEmpty then throw .malformed
  let (base, hasLetter, digits) := cutBase text
  let n ← readDigits base Word.count 0 digits
  if (Digits.join? (· != Digits.separator) hasLetter digits).isNone then throw .malformed
  return n

/-- Reads an integer of 64 bits. -/
def readInt (text : Bytes) : Except NumberFault Int := do
  let (isNegative, body) := match text with
    | [] => (false, [])
    | b :: rest =>
      if b = byte '-' then (true, rest) else if b = byte '+' then (false, rest) else (false, text)
  let n ← readNat body
  let value : Int := if isNegative then -n else n
  if Word.isSigned value then return value else throw .outOfRange

/-- Reads a truth value. -/
def readBool? (text : Bytes) : Option Bool :=
  if ["1", "t", "T", "TRUE", "true", "True"].any (utf8 · == text) then some true
  else if ["0", "f", "F", "FALSE", "false", "False"].any (utf8 · == text) then some false
  else none

end TapeMachine.Settings
