import TapeMachine.Text.Digits
import TapeMachine.Toml.Value
import TapeMachine.Word

/-!
# TOML numbers

Integers are decimal, with a sign if need be, or hexadecimal, octal or binary behind a lower case
letter. Leading zeros are not allowed. Numbers with a fraction or an exponent are checked and kept
as they are written.
-/

namespace TapeMachine.Toml.Number

/-- Splits off a sign: whether it is a minus. -/
def cutSign : Bytes → Bool × Bytes
  | [] => (false, [])
  | b :: rest =>
    if b = byte '-' then (true, rest)
    else if b = byte '+' then (false, rest)
    else (false, b :: rest)

/-- An integer if it fits into 64 bits. -/
def fit? (n : Int) : Option Value :=
  if Word.isSigned n then some (.integer n) else none

/-- The decimal digits of a text, which have no leading zero. -/
def decimal? (text : Bytes) : Option Bytes :=
  match text with
  | a :: _ :: _ =>
    if a = byte '0' then none else Digits.join? (Digits.isDigit 10) false text
  | _ => Digits.join? (Digits.isDigit 10) false text

/-- The base that a letter behind a zero stands for. -/
def base? (b : UInt8) : Option Nat :=
  match Bytes.char b with
  | 'x' => some 16
  | 'o' => some 8
  | 'b' => some 2
  | _ => none

/-- An integer in another base, without its zero and its letter. -/
def based? (base : Nat) (text : Bytes) : Option Value :=
  (Digits.join? (Digits.isDigit base) false text).bind fun digits =>
    fit? (Digits.number base digits)

/-- A decimal integer. -/
def integer? (text : Bytes) : Option Value :=
  let (isNegative, body) := cutSign text
  (decimal? body).bind fun digits =>
    let n : Int := Digits.number 10 digits
    fit? (if isNegative then -n else n)

/-- Whether a byte belongs to a run of digits. -/
def isDigitOrSeparator (b : UInt8) : Bool :=
  Digits.isDigit 10 b || b == Digits.separator

/-- Whether a byte starts an exponent. -/
def isExponent (b : UInt8) : Bool :=
  b == byte 'e' || b == byte 'E'

/-- The digits of the fraction at the start of a text, and what follows. -/
def fraction? : Bytes → Option (Bytes × Bytes)
  | [] => some ([], [])
  | b :: rest =>
    if b = byte '.' then
      (Digits.join? (Digits.isDigit 10) false (rest.takeWhile isDigitOrSeparator)).map
        fun digits => (digits, rest.dropWhile isDigitOrSeparator)
    else some ([], b :: rest)

/-- The exponent that makes up a text. -/
def exponent? : Bytes → Option Int
  | [] => some 0
  | b :: rest =>
    if isExponent b then
      let (isNegative, body) := cutSign rest
      (Digits.join? (Digits.isDigit 10) false body).map fun digits =>
        let n : Int := Digits.number 10 digits
        if isNegative then -n else n
    else none

/-- Whether `digits * 10 ^ exponent` is too large for a double: it would be rounded to the first
power of two that is. -/
def isTooLarge (digits : Nat) (exponent : Int) : Bool :=
  let size := (Nat.toDigits 10 digits).length + exponent
  if digits = 0 ∨ size < 300 then false
  else if 400 < size then true
  else
    let value := digits * Nat.pow 10 exponent.toNat / Nat.pow 10 (-exponent).toNat
    decide (Nat.pow 2 1024 - Nat.pow 2 970 ≤ value)

/-- A number with a fraction or an exponent. -/
def real? (text : Bytes) : Option Value := do
  let (_, body) := cutSign text
  let whole ← decimal? (body.takeWhile isDigitOrSeparator)
  let rest := body.dropWhile isDigitOrSeparator
  if rest.isEmpty then none
  let (fraction, rest) ← fraction? rest
  let exponent ← exponent? rest
  let digits := Digits.number 10 (whole ++ fraction)
  if isTooLarge digits (exponent - fraction.length) then none else some (.real text)

/-- Whether a byte may stand in a number behind its first point or exponent. -/
def isRealByte (b : UInt8) : Bool :=
  isDigitOrSeparator b || isExponent b || b == byte '.' || b == byte '-' || b == byte '+'

/-- Cuts off what may be a number without its sign: digits, and whatever goes on like a fraction or
an exponent, or the digits of another base. -/
def cutUnsigned (text : Bytes) : Bytes × Bytes :=
  let isBased := match text with
    | zero :: letter :: _ => zero == byte '0' && (base? letter).isSome
    | _ => false
  if isBased then
    let base := (text[1]?.bind base?).getD 10
    let isDigit (b : UInt8) : Bool := Digits.isDigit base b || b == Digits.separator
    let count := 2 + ((text.drop 2).takeWhile isDigit).length
    (text.take count, text.drop count)
  else
    let whole := text.takeWhile isDigitOrSeparator
    let rest := text.dropWhile isDigitOrSeparator
    if rest.head?.any fun b => b == byte '.' || isExponent b then
      (whole ++ rest.takeWhile isRealByte, rest.dropWhile isRealByte)
    else (whole, rest)

/-- Whether a text starts with one of the numbers that have no digits. -/
def startsSpecial (text : Bytes) : Bool :=
  text.take 3 == utf8 "inf" || text.take 3 == utf8 "nan"

/-- Whether a byte is part of a letter. -/
def isLetter (b : UInt8) : Bool :=
  (Bytes.char b).isAlpha || 0x80 ≤ b

/-- Cuts off what may be a number or a truth value. -/
def cutWord (text : Bytes) : Bytes × Bytes :=
  let sign := if text.head?.any fun b => b == byte '-' || b == byte '+' then 1 else 0
  let unsigned := text.drop sign
  if startsSpecial unsigned then (text.take (sign + 3), text.drop (sign + 3))
  else if sign = 0 ∧ unsigned.head?.any isLetter then
    (text.takeWhile isLetter, text.dropWhile isLetter)
  else
    let (number, rest) := cutUnsigned unsigned
    (text.take sign ++ number, rest)

/-- Whether a word is one of the numbers that have no digits. -/
def isSpecial (word : Bytes) : Bool :=
  let unsigned := (cutSign word).2
  unsigned == utf8 "inf" || unsigned == utf8 "nan"

/-- The value of a word that is no text. -/
def word? (text : Bytes) : Option Value :=
  if text = utf8 "true" then some (.boolean true)
  else if text = utf8 "false" then some (.boolean false)
  else if isSpecial text then some (.real text)
  else match text with
    | zero :: letter :: digits =>
      match base? letter with
      | some base => if zero = byte '0' then based? base digits else none
      | none => (integer? text).orElse fun _ => real? text
    | _ => integer? text

end TapeMachine.Toml.Number
