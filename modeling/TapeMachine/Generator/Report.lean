import TapeMachine.Generator.Session
import TapeMachine.Log.Logger

/-!
# Reporting warnings

The warnings of a session are reported as log records.
-/

namespace TapeMachine.Generator

/-- The record of a warning. -/
def Warning.record : Warning → Log.Record
  | .outOfRange cell value => {
      level := .warn
      message := utf8 "cell value out of byte range"
      attributes := [
        ("cell", .number cell), ("role", .text (Register.role cell)), ("value", .number value)] }
  | .zeroDivisor divisor => {
      level := .warn
      message := utf8 "division by a constant zero never terminates"
      attributes := [("divisor", .number divisor)] }

/-- The records of the warnings given, in order. -/
def Session.records (s : Session) : List Log.Record :=
  s.warnings.reverse.map Warning.record

end TapeMachine.Generator
