import TapeMachine.Toml.Value

/-!
# The form of TOML documents

A document is a sequence of statements. A header opens a table or adds one to a list of tables, and
an assignment gives a key a value. A key may have several parts, which lead through tables. Where a
text cannot be read any further, its last statement is broken.
-/

namespace TapeMachine.Toml

/-- A key as it is written. -/
structure Key where
  /-- The parts before the last one. -/
  parents : Path
  /-- The last part. -/
  name : Bytes
deriving DecidableEq, Repr

/-- The path that all parts of a key make up. -/
def Key.path (key : Key) : Path :=
  key.parents ++ [key.name]

/-- A value as it is written. -/
inductive Expr where
  /-- A value without parts. -/
  | scalar (value : Value)
  /-- A list between brackets. -/
  | array (items : List Expr)
  /-- A table between braces. If it is broken off behind its pairs, then how far a key could be
  read. -/
  | inline (pairs : List (Key × Expr)) (broken : Option Bytes)
  /-- A value that cannot be read, and how far it could be. -/
  | broken (near : Bytes)

instance : Inhabited Expr := ⟨.array []⟩

/-- Whether a value is written as a list. -/
def Expr.isArray : Expr → Bool
  | .array _ => true
  | _ => false

/-- A statement. -/
inductive Statement where
  /-- A header that opens a table. -/
  | openTable (key : Key)
  /-- A header that adds a table to a list. -/
  | addTable (key : Key)
  /-- An assignment. -/
  | assign (key : Key) (value : Expr)
  /-- Something that cannot be read, and how far it could be. -/
  | broken (near : Bytes)

end TapeMachine.Toml
