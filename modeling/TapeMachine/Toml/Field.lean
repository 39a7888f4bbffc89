import TapeMachine.Text.Utf8
import TapeMachine.Toml.Value

/-!
# Fields of a table

A table is read as a record by looking up its fields. A field may be written in either case, so a
table may have several keys for one field, which are then read one after another. A field that is
missing keeps its default, and one of the wrong kind makes the table no such record.
-/

namespace TapeMachine.Toml

/-- A piece of a key in lower case. The Kelvin sign and the long s count as the letters they look
like. -/
def foldPiece : Utf8.Piece → Bytes
  | .char 0x212a _ => [byte 'k']
  | .char 0x17f _ => [byte 's']
  | .char _ bytes => bytes.map fun b => if b < 0x80 then byte (Bytes.char b).toLower else b
  | .stray b => [b]

/-- Whether a key names a field, whose name is in lower case. -/
def names (key : Bytes) (field : String) : Bool :=
  (Utf8.pieces key).flatMap foldPiece == utf8 field

/-- Changes a record by each value that a field has in a table. -/
def Table.foldField {ρ : Type} (field : String) (step : ρ → Value → Option ρ) (table : Table)
    (record : ρ) : Option ρ :=
  (table.filter fun entry => names entry.1 field).foldlM (fun record entry => step record entry.2)
    record

/-- Reads a field into a record; the record as it is if the field is missing. -/
def Table.readField {ρ α : Type} (field : String) (read : Value → Option α) (put : ρ → α → ρ)
    (table : Table) (record : ρ) : Option ρ :=
  table.foldField field (fun record value => (read value).map (put record)) record

/-- A text. -/
def Value.text? : Value → Option Bytes
  | .text s => some s
  | _ => none

/-- An integer. -/
def Value.integer? : Value → Option Int
  | .integer n => some n
  | _ => none

/-- A truth value. -/
def Value.boolean? : Value → Option Bool
  | .boolean b => some b
  | _ => none

/-- A table. -/
def Value.table? : Value → Option Table
  | .table entries => some entries
  | _ => none

/-- A list of tables, however it is written. -/
def Value.tables? : Value → Option (List Table)
  | .array items => items.mapM Value.table?
  | .tables last earlier => some (last :: earlier).reverse
  | _ => none

end TapeMachine.Toml
