import TapeMachine.Toml.Moment

/-!
# TOML values

A TOML document is a table: keys with their values, which may be tables again. A path of keys leads
from a table to one inside it; where there is a list of tables on the way, it leads through the last
one.
-/

namespace TapeMachine.Toml

/-- A value. -/
inductive Value where
  /-- A text. -/
  | text (s : Bytes)
  /-- An integer of 64 bits. -/
  | integer (n : Int)
  /-- A number with a fraction or an exponent, as it is written. -/
  | real (literal : Bytes)
  /-- A truth value. -/
  | boolean (b : Bool)
  /-- A date, a time of day, or both. -/
  | moment (m : Moment)
  /-- A list of values. -/
  | array (items : List Value)
  /-- A table. -/
  | table (entries : List (Bytes × Value))
  /-- A list of tables made by headers: the one added last, and the earlier ones, latest first. -/
  | tables (last : List (Bytes × Value)) (earlier : List (List (Bytes × Value)))

instance : Inhabited Value := ⟨.boolean false⟩

/-- The keys of a table with their values, in order. -/
abbrev Table := List (Bytes × Value)

/-- The keys that lead to something inside a table. -/
abbrev Path := List Bytes

namespace Table

/-- Gives a key a value, in place of any it had. -/
def set (key : Bytes) (value : Value) (table : Table) : Table :=
  match table.lookup key with
  | none => table ++ [(key, value)]
  | some _ => table.map fun entry => if entry.1 = key then (key, value) else entry

/-- The table at a path. -/
def at? : Path → Table → Option Table
  | [], table => some table
  | key :: path, table =>
    match table.lookup key with
    | some (.table entries) => at? path entries
    | some (.tables last _) => at? path last
    | _ => none

/-- Changes the table at a path, which has to be there. -/
def changeAt (change : Table → Option Table) : Path → Table → Option Table
  | [], table => change table
  | key :: path, table =>
    match table.lookup key with
    | some (.table entries) =>
      (changeAt change path entries).map fun inner => table.set key (.table inner)
    | some (.tables last earlier) =>
      (changeAt change path last).map fun inner => table.set key (.tables inner earlier)
    | _ => none

/-- Gives the key at the end of a path a value, and sets up the tables on the way. -/
def assign (key : Bytes) (value : Value) : Path → Table → Option Table
  | [], table => some (table.set key value)
  | step :: path, table =>
    match table.lookup step with
    | none => (assign key value path []).map fun inner => table.set step (.table inner)
    | some (.table entries) =>
      (assign key value path entries).map fun inner => table.set step (.table inner)
    | some _ => none

end Table

end TapeMachine.Toml
