import TapeMachine.Log.Record
import TapeMachine.Stream.Sink

/-!
# Loggers

A logger hands each record to its handlers. A handler writes the records that are important enough
to a sink, one write a record.
-/

namespace TapeMachine.Log

/-- Where and how records are written. -/
structure Handler where
  /-- The form of a record. -/
  format : Format
  /-- The least level written. -/
  level : Level
  /-- The sink written to. -/
  sink : Nat
  /-- The time stamp of the records, if they have one. -/
  stamp : Option Stamp := none

/-- The handlers of a logger; without any, nothing is logged. -/
abbrev Logger := List Handler

/-- Whether a handler writes records of a level. -/
def Handler.takes (handler : Handler) (level : Level) : Bool :=
  handler.level.rank ≤ level.rank

/-- Whether records of a level are written at all. -/
def Logger.enabled (logger : Logger) (level : Level) : Bool :=
  logger.any (·.takes level)

/-- Logs a record. -/
def Logger.log (logger : Logger) (record : Record) (sinks : Sinks) : Sinks :=
  logger.foldl
    (fun sinks handler =>
      if handler.takes record.level then
        (sinks.write handler.sink (record.line handler.stamp handler.format)).2
      else sinks)
    sinks

end TapeMachine.Log
