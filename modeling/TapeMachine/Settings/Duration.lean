import TapeMachine.Text.Quoted
import TapeMachine.Word

/-!
# Durations

A duration is a number of nanoseconds that fits into 64 bits. It is written as a sequence of numbers
with units, such as `1h15m30.5s`.
-/

namespace TapeMachine

/-- A span of time. -/
structure Duration where
  /-- Its length in nanoseconds. -/
  nanoseconds : Int := 0
deriving DecidableEq, Repr

/-- Why a text is no duration. -/
inductive DurationFault where
  /-- The text has not the form of a duration, or its value is too large. -/
  | invalid (text : Bytes)
  /-- A number has no unit. -/
  | missingUnit (text : Bytes)
  /-- A unit is not known. -/
  | unknownUnit (unit text : Bytes)
deriving DecidableEq, Repr

namespace Duration

/-- A byte inside the quotes of a message about durations: all but the printable ASCII characters
are shown by their numbers. -/
def quotedByte (b : UInt8) : Bytes :=
  if b < 0x20 ∨ 0x80 ≤ b then utf8 "\\x" ++ Quoted.hexDigits 2 b.toNat
  else if b = byte '"' ∨ b = byte '\\' then [byte '\\', b]
  else [b]

/-- A text in quotes for a message about durations. -/
def quoted (text : Bytes) : Bytes :=
  utf8 "\"" ++ text.flatMap quotedByte ++ utf8 "\""

end Duration

/-- The wording of a duration fault. -/
def DurationFault.message : DurationFault → Bytes
  | .invalid text => utf8 "time: invalid duration " ++ Duration.quoted text
  | .missingUnit text => utf8 "time: missing unit in duration " ++ Duration.quoted text
  | .unknownUnit unit text =>
    utf8 "time: unknown unit " ++ Duration.quoted unit ++ utf8 " in duration " ++
      Duration.quoted text

namespace Duration

/-- The units in nanoseconds; both the micro sign and the Greek letter may stand for micro. -/
def units : List (Bytes × Nat) := [
  (utf8 "ns", 1), (utf8 "us", 1000), (utf8 "µs", 1000), (utf8 "μs", 1000), (utf8 "ms", 1000000),
  (utf8 "s", 1000000000), (utf8 "m", 60000000000), (utf8 "h", 3600000000000)]

/-- Whether a byte is a digit. -/
def isDigit (b : UInt8) : Bool :=
  byte '0' ≤ b && b ≤ byte '9'

/-- Whether a byte belongs to a number. -/
def isNumeral (b : UInt8) : Bool :=
  b == byte '.' || isDigit b

/-- The value of a digit. -/
def digit (b : UInt8) : Nat :=
  b.toNat - (byte '0').toNat

/-- The fraction with the given digits as a numerator and a power of ten in double precision. Digits
beyond the precision of 64 bits are dropped. -/
def fraction (digits : Bytes) : Nat × Float :=
  let (numerator, scale, _) := digits.foldl
    (fun (numerator, scale, isFull) b =>
      let next := numerator * 10 + digit b
      if isFull ∨ (Word.signBound - 1) / 10 < numerator ∨ Word.signBound < next then
        (numerator, scale, true)
      else (next, scale * 10, false))
    (0, (1 : Float), false)
  (numerator, scale)

/-- The nanoseconds in a fraction of a unit, computed in double precision. -/
def fractionOf (unit numerator : Nat) (scale : Float) : Nat :=
  (numerator.toUInt64.toFloat * (unit.toUInt64.toFloat / scale)).toUInt64.toNat

/-- One number with its unit, as far as they are written: the whole digits, the fraction if there is
a point, and the unit. -/
structure Term where
  /-- The digits before the point. -/
  whole : Bytes
  /-- The digits behind the point. -/
  fraction : Bytes
  /-- The unit. -/
  unit : Bytes

/-- Cuts the first number with its unit off a text. -/
def cutTerm (text : Bytes) : Term × Bytes :=
  let whole := text.takeWhile isDigit
  let rest := text.dropWhile isDigit
  let (digits, rest) := match rest with
    | [] => ([], [])
    | b :: more =>
      if b = byte '.' then (more.takeWhile isDigit, more.dropWhile isDigit) else ([], rest)
  (⟨whole, digits, rest.takeWhile (!isNumeral ·)⟩, rest.dropWhile (!isNumeral ·))

/-- The nanoseconds of a number with its unit, at most 2^63 of them; `text` is shown in faults. -/
def Term.nanoseconds (term : Term) (text : Bytes) : Except DurationFault Nat := do
  let whole := term.whole.foldl (fun n b => n * 10 + digit b) 0
  if Word.signBound < whole ∨ (term.whole.isEmpty ∧ term.fraction.isEmpty) then
    throw (.invalid text)
  if term.unit.isEmpty then throw (.missingUnit text)
  match units.lookup term.unit with
  | none => throw (.unknownUnit term.unit text)
  | some unit =>
    if Word.signBound / unit < whole then throw (.invalid text)
    let (numerator, scale) := Duration.fraction term.fraction
    let total := whole * unit + (if numerator = 0 then 0 else fractionOf unit numerator scale)
    if Word.signBound < total then throw (.invalid text)
    return total

/-- Adds up the numbers of a text, at most 2^63 nanoseconds after each of them, where twice that
many count as none; every number is at least one byte long, so the length of the text is fuel
enough. -/
def sum (text : Bytes) : Nat → Nat → Bytes → Except DurationFault Nat
  | _, total, [] => .ok total
  | 0, _, _ => .error (.invalid text)
  | fuel + 1, total, b :: rest => do
    if !isNumeral b then throw (.invalid text)
    let (term, rest) := cutTerm (b :: rest)
    let total := (total + (← term.nanoseconds text)) % Word.count
    if Word.signBound < total then throw (.invalid text)
    sum text fuel total rest

/-- Reads a duration. A bare zero needs no unit. -/
def parse (text : Bytes) : Except DurationFault Duration := do
  let (isNegative, body) := match text with
    | [] => (false, [])
    | b :: rest =>
      if b = byte '-' then (true, rest) else if b = byte '+' then (false, rest) else (false, text)
  if body = utf8 "0" then return ⟨0⟩
  if body.isEmpty then throw (.invalid text)
  let total ← sum text body.length 0 body
  if isNegative then return ⟨-total⟩
  if total = Word.signBound then throw (.invalid text)
  return ⟨total⟩

/-- A number with so many places behind the point, without trailing zeros. -/
def pointed (places n : Nat) : Bytes :=
  let whole := Bytes.ofNat (n / Nat.pow 10 places)
  let digits := Bytes.padLeft (byte '0') places (Bytes.ofNat (n % Nat.pow 10 places))
  let digits := (digits.reverse.dropWhile (· == byte '0')).reverse
  if digits.isEmpty then whole else whole ++ utf8 "." ++ digits

/-- A number of nanoseconds, in the largest unit below a second or in hours, minutes and seconds. -/
def natText (n : Nat) : Bytes :=
  if n = 0 then utf8 "0s"
  else if n < 1000 then Bytes.ofNat n ++ utf8 "ns"
  else if n < 1000000 then pointed 3 n ++ utf8 "µs"
  else if n < 1000000000 then pointed 6 n ++ utf8 "ms"
  else
    let minutes := n / 60000000000
    let seconds := pointed 9 (n % 60000000000) ++ utf8 "s"
    if minutes = 0 then seconds
    else
      let hours := minutes / 60
      (if hours = 0 then [] else Bytes.ofNat hours ++ utf8 "h") ++
        Bytes.ofNat (minutes % 60) ++ utf8 "m" ++ seconds

/-- A duration as it is written. -/
def text (d : Duration) : Bytes :=
  (if d.nanoseconds < 0 then utf8 "-" else []) ++ natText d.nanoseconds.natAbs

end Duration

end TapeMachine
