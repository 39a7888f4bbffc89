import TapeMachine.Bytes

/-!
# Digits

Numbers are read digit by digit in some base. Underscores may separate the digits.
-/

namespace TapeMachine.Digits

/-- The separator of digits. -/
def separator : UInt8 :=
  byte '_'

/-- The value of a digit; letters of either case follow the ten figures. -/
def value? (b : UInt8) : Option Nat :=
  let c := Bytes.char b
  if c.isDigit then some (c.toNat - '0'.toNat)
  else if 'a' ≤ c ∧ c ≤ 'z' then some (c.toNat - 'a'.toNat + 10)
  else if 'A' ≤ c ∧ c ≤ 'Z' then some (c.toNat - 'A'.toNat + 10)
  else none

/-- Whether a byte is a digit in a base. -/
def isDigit (base : Nat) (b : UInt8) : Bool :=
  (value? b).any (· < base)

/-- The digits of a text without their separators, each of which has to stand between two digits.
`afterDigit` says whether there is a digit before the text. -/
def join? (isDigit : UInt8 → Bool) (afterDigit : Bool) : Bytes → Option Bytes
  | [] => if afterDigit then some [] else none
  | b :: rest =>
    if isDigit b then (join? isDigit true rest).map (b :: ·)
    else if b = separator ∧ afterDigit then join? isDigit false rest
    else none

/-- The number with the given digits. -/
def number (base : Nat) (digits : Bytes) : Nat :=
  digits.foldl (fun n b => n * base + (value? b).getD 0) 0

end TapeMachine.Digits
