import TapeMachine.Text.Digits

/-!
# TOML dates and times

A moment is a date, a time of day, or both, and then possibly with the offset of its time zone. A
letter T or a space separates date and time. Seconds may be left out, and may have a fraction.
-/

namespace TapeMachine.Toml

/-- A day of the calendar. -/
structure Date where
  /-- The year, of four digits. -/
  year : Nat
  /-- The month, counted from one. -/
  month : Nat
  /-- The day of the month, counted from one. -/
  day : Nat
deriving DecidableEq, Repr

/-- A time of day. -/
structure Clock where
  /-- The hour. -/
  hour : Nat
  /-- The minute. -/
  minute : Nat
  /-- The second. -/
  second : Nat := 0
  /-- The digits of the fraction of a second. -/
  fraction : Bytes := []
deriving DecidableEq, Repr

/-- A date, a time of day, or both. -/
inductive Moment where
  /-- A date. -/
  | date (date : Date)
  /-- A time of day. -/
  | time (clock : Clock)
  /-- A date and a time of day, in no particular time zone. -/
  | dateTime (date : Date) (clock : Clock)
  /-- A date and a time of day in a time zone, given by its offset in minutes. -/
  | zoned (date : Date) (clock : Clock) (offset : Int)
deriving DecidableEq, Repr

/-- Cuts a number of so many digits off a text. -/
def cutNumber (count : Nat) (text : Bytes) : Option (Nat × Bytes) :=
  let digits := text.take count
  if digits.length = count ∧ digits.all (Digits.isDigit 10) then
    some (Digits.number 10 digits, text.drop count)
  else none

/-- Cuts a byte off a text. -/
def cutByte (c : Char) : Bytes → Option Bytes
  | [] => none
  | b :: rest => if b = byte c then some rest else none

namespace Date

/-- Whether a year has a day more than others. -/
def isLeap (year : Nat) : Bool :=
  year % 4 == 0 && (year % 100 != 0 || year % 400 == 0)

/-- How many days a month has. -/
def daysIn (year month : Nat) : Nat :=
  match month with
  | 2 => if isLeap year then 29 else 28
  | 4 | 6 | 9 | 11 => 30
  | _ => 31

/-- Whether there is such a day. -/
def isValid (date : Date) : Bool :=
  1 ≤ date.month && date.month ≤ 12 && 1 ≤ date.day && date.day ≤ daysIn date.year date.month

/-- Cuts a date off a text. -/
def cut (text : Bytes) : Option (Date × Bytes) := do
  let (year, text) ← cutNumber 4 text
  let (month, text) ← cutNumber 2 (← cutByte '-' text)
  let (day, text) ← cutNumber 2 (← cutByte '-' text)
  let date : Date := { year, month, day }
  if date.isValid then some (date, text) else none

end Date

namespace Clock

/-- Whether there is such a time. -/
def isValid (clock : Clock) : Bool :=
  clock.hour < 24 && clock.minute < 60 && clock.second < 60

/-- Cuts the digits of a fraction off a text, if there are any. -/
def cutFraction (text : Bytes) : Bytes × Bytes :=
  match cutByte '.' text with
  | none => ([], text)
  | some rest =>
    let digits := rest.takeWhile (Digits.isDigit 10)
    if digits.isEmpty then ([], text) else (digits, rest.drop digits.length)

/-- Cuts a time of day off a text. -/
def cut (text : Bytes) : Option (Clock × Bytes) := do
  let (hour, text) ← cutNumber 2 text
  let (minute, text) ← cutNumber 2 (← cutByte ':' text)
  let (clock, text) ← match cutByte ':' text with
    | none => some (({ hour, minute } : Clock), text)
    | some rest => do
      let (second, rest) ← cutNumber 2 rest
      let (fraction, rest) := cutFraction rest
      some ({ hour, minute, second, fraction }, rest)
  if clock.isValid then some (clock, text) else none

end Clock

namespace Moment

/-- The offset that makes up a text, in minutes: none for a Z, else hours and minutes. A whole day,
and a whole hour in the minutes, are allowed for. -/
def offset? (text : Bytes) : Option Int :=
  if text = utf8 "Z" then some 0
  else match text with
    | [] => none
    | sign :: text => do
      let (hours, text) ← cutNumber 2 text
      let (minutes, text) ← cutNumber 2 (← cutByte ':' text)
      if !text.isEmpty || 24 < hours || 60 < minutes then none
      else if sign = byte '+' then some (hours * 60 + minutes : Nat)
      else if sign = byte '-' then some (-(hours * 60 + minutes : Nat))
      else none

/-- A byte as it counts inside a moment: letters in upper case, and a T for a space. -/
def normal (b : UInt8) : UInt8 :=
  if b = byte ' ' ∨ b = byte 't' then byte 'T' else if b = byte 'z' then byte 'Z' else b

/-- The moment that makes up a text. -/
def parse? (text : Bytes) : Option Moment :=
  let text := text.map normal
  match Date.cut text with
  | some (day, []) => some (.date day)
  | some (day, rest) => do
    let (clock, rest) ← Clock.cut (← cutByte 'T' rest)
    if rest.isEmpty then some (.dateTime day clock)
    else (offset? rest).map (.zoned day clock)
  | none =>
    match Clock.cut text with
    | some (clock, []) => some (.time clock)
    | _ => none

end Moment

end TapeMachine.Toml
