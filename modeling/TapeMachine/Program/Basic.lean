import TapeMachine.Bytes

/-!
# Instruction trees

A program of the tape machine is a list of nodes. A node has an operation, a signed amount used by
moves and additions, and a body used by loops. Nodes also stand for programs restored from
storage, so the type admits operation codes without a meaning, amounts on nodes that take none and
bodies on nodes that are no loops; `Program.check` tells which trees are well formed.
-/

namespace TapeMachine

/-- An operation, known by its code. -/
structure Op where
  /-- The stored code of the operation. -/
  code : UInt8
deriving DecidableEq, Repr, Inhabited

namespace Op

/-- Repeat the body while the cell under the cursor is not zero. -/
@[match_pattern] def loop : Op := ⟨1⟩

/-- Write the cell under the cursor to the output. -/
@[match_pattern] def write : Op := ⟨2⟩

/-- Read a byte of input into the cell under the cursor. -/
@[match_pattern] def read : Op := ⟨3⟩

/-- Move the cursor by the node's amount. -/
@[match_pattern] def move : Op := ⟨4⟩

/-- Add the node's amount to the cell under the cursor. -/
@[match_pattern] def add : Op := ⟨5⟩

/-- Set the cell under the cursor to zero. -/
@[match_pattern] def clear : Op := ⟨6⟩

/-- Write the machine's status to the dump. -/
@[match_pattern] def dump : Op := ⟨7⟩

/-- The name of an operation in messages. -/
def name : Op → Bytes
  | ⟨0⟩ => utf8 "INVALID"
  | loop => utf8 "while"
  | write => utf8 "write"
  | read => utf8 "read"
  | move => utf8 "move"
  | add => utf8 "aug"
  | clear => utf8 "setzero"
  | dump => utf8 "dump"
  | op => utf8 "Op(" ++ Bytes.ofNat op.code.toNat ++ utf8 ")"

end Op

/-- One node of an instruction tree. -/
structure Node where
  /-- What the node does. -/
  op : Op
  /-- How far a move goes, or how much an addition adds. -/
  amount : Int64 := 0
  /-- What a loop repeats. -/
  body : List Node := []
deriving Repr, Inhabited

/-- A program: the nodes to be run one after another. -/
abbrev Program := List Node

mutual

/-- Whether two nodes are the same. -/
def Node.decEq : (node other : Node) → Decidable (node = other)
  | ⟨op, amount, body⟩, ⟨op', amount', body'⟩ =>
    haveI := Node.decEqAll body body'
    decidable_of_iff (op = op' ∧ amount = amount' ∧ body = body') (by rw [Node.mk.injEq])

/-- Whether two lists of nodes are the same. -/
def Node.decEqAll : (nodes others : List Node) → Decidable (nodes = others)
  | [], [] => isTrue rfl
  | [], _ :: _ => isFalse (by simp)
  | _ :: _, [] => isFalse (by simp)
  | node :: rest, other :: others =>
    haveI := Node.decEq node other
    haveI := Node.decEqAll rest others
    decidable_of_iff (node = other ∧ rest = others) (by rw [List.cons.injEq])

end

instance : DecidableEq Node :=
  Node.decEq

mutual

/-- A node in one line: moves and additions show their amount, loops their body. -/
def Node.summary : Node → Bytes
  | ⟨op, amount, body⟩ =>
    match op with
    | .move | .add => op.name ++ utf8 "(" ++ Bytes.signed amount.toInt ++ utf8 ")"
    | .loop => op.name ++ utf8 "[" ++ Bytes.joinWith (utf8 " ") (Node.summaries body) ++ utf8 "]"
    | _ => op.name

/-- The nodes of a list, each in one line. -/
def Node.summaries : List Node → List Bytes
  | [] => []
  | node :: rest => node.summary :: Node.summaries rest

end

/-- A program in one line, in brackets. -/
def Program.summary (program : Program) : Bytes :=
  utf8 "[" ++ Bytes.joinWith (utf8 " ") (Node.summaries program) ++ utf8 "]"

end TapeMachine
