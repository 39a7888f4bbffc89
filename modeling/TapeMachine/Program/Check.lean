import TapeMachine.Program.Basic

/-!
# Well-formed programs

A tree that was not read from text may be no program. Checking visits the nodes in order and
reports the first fault.
-/

namespace TapeMachine

/-- What makes an instruction tree no program. -/
inductive CheckFault where
  /-- A loop that repeats nothing. -/
  | emptyBody
  /-- A move or an addition of zero. -/
  | zeroAmount (op : Op)
  /-- An amount on a node that takes none. -/
  | unexpectedAmount (op : Op) (amount : Int64)
  /-- A body on a node that is no loop. -/
  | unexpectedBody (op : Op)
  /-- A code that stands for no operation. -/
  | unknownOp (op : Op)
deriving DecidableEq, Repr

/-- The wording of a check fault. -/
def CheckFault.message : CheckFault → Bytes
  | .emptyBody => utf8 "invalid " ++ Op.loop.name ++ utf8 " node: empty body"
  | .zeroAmount op => utf8 "invalid " ++ op.name ++ utf8 " node: zero delta"
  | .unexpectedAmount op amount =>
    utf8 "invalid " ++ op.name ++ utf8 " node: unexpected delta " ++ Bytes.ofInt amount.toInt
  | .unexpectedBody op => utf8 "invalid " ++ op.name ++ utf8 " node: unexpected body"
  | .unknownOp op => utf8 "invalid node op " ++ op.name

/-- The fault of a node that is no loop, given whether it has a body. -/
def Node.leafFault (op : Op) (amount : Int64) (hasBody : Bool) : Option CheckFault :=
  match op with
  | .move | .add =>
    if amount = 0 then some (.zeroAmount op)
    else if hasBody then some (.unexpectedBody op)
    else none
  | .write | .read | .clear | .dump =>
    if amount ≠ 0 then some (.unexpectedAmount op amount)
    else if hasBody then some (.unexpectedBody op)
    else none
  | _ => some (.unknownOp op)

mutual

/-- The fault of a node, if any. The amount of a loop is of no account. -/
def Node.fault : Node → Option CheckFault
  | ⟨op, amount, body⟩ =>
    match op with
    | .loop => if body.isEmpty then some .emptyBody else Node.firstFault body
    | _ => Node.leafFault op amount (!body.isEmpty)

/-- The first fault of the nodes of a list. -/
def Node.firstFault : List Node → Option CheckFault
  | [] => none
  | node :: rest =>
    match node.fault with
    | some fault => some fault
    | none => Node.firstFault rest

end

/-- Accepts well-formed programs. -/
def Program.check (program : Program) : Except CheckFault Unit :=
  match Node.firstFault program with
  | some fault => .error fault
  | none => .ok ()

end TapeMachine
