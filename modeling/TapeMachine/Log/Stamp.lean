import TapeMachine.Bytes

/-!
# Time stamps

A stamp says when a record was made, as a date and a time of day in universal time. Text records
give it to the millisecond, JSON records to the nanosecond and without zeros at the end.
-/

namespace TapeMachine.Log

/-- A date and a time of day in universal time. -/
structure Stamp where
  /-- The year. -/
  year : Nat
  /-- The month, counted from one. -/
  month : Nat
  /-- The day of the month, counted from one. -/
  day : Nat
  /-- The second of the day. -/
  second : Nat
  /-- The nanosecond of the second. -/
  nanosecond : Nat
deriving DecidableEq, Repr

namespace Stamp

/-- The moment that lies so many nanoseconds behind the start of 1970. Years are counted from March
on, so that the day that only some of them have comes last, and in cycles of 400 years. -/
def ofNanoseconds (nanoseconds : Nat) : Stamp :=
  let seconds := nanoseconds / 1000000000
  let days := seconds / 86400 + 719468
  let dayOfCycle := days % 146097
  let yearOfCycle :=
    (dayOfCycle - dayOfCycle / 1460 + dayOfCycle / 36524 - dayOfCycle / 146096) / 365
  let dayOfYear := dayOfCycle - (365 * yearOfCycle + yearOfCycle / 4 - yearOfCycle / 100)
  let month := (5 * dayOfYear + 2) / 153
  { year := days / 146097 * 400 + yearOfCycle + month / 10
    month := (month + 2) % 12 + 1
    day := dayOfYear - (153 * month + 2) / 5 + 1
    second := seconds % 86400
    nanosecond := nanoseconds % 1000000000 }

/-- A number with at least so many digits. -/
def digits (width n : Nat) : Bytes :=
  Bytes.padLeft (byte '0') width (Bytes.ofNat n)

/-- A date and a time of day with the given fraction of a second. -/
def withFraction (stamp : Stamp) (fraction : Bytes) : Bytes :=
  let date := [digits 4 stamp.year, digits 2 stamp.month, digits 2 stamp.day]
  let time := [stamp.second / 3600, stamp.second / 60 % 60, stamp.second % 60].map (digits 2)
  Bytes.joinWith (utf8 "-") date ++ utf8 "T" ++ Bytes.joinWith (utf8 ":") time ++
    (if fraction.isEmpty then [] else byte '.' :: fraction) ++ utf8 "Z"

/-- A stamp to the millisecond. -/
def coarse (stamp : Stamp) : Bytes :=
  stamp.withFraction (digits 3 (stamp.nanosecond / 1000000))

/-- A stamp to the nanosecond. -/
def fine (stamp : Stamp) : Bytes :=
  let fraction := digits 9 stamp.nanosecond
  stamp.withFraction (fraction.reverse.dropWhile (· == byte '0')).reverse

end Stamp

end TapeMachine.Log
