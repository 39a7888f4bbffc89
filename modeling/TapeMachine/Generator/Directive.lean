import TapeMachine.Generator.Dispatch

/-!
# Directives

A directive is one thing that a generating session can be asked for. Directives with a body hold the
directives of that body, so that whole sessions are values.
-/

namespace TapeMachine.Generator

/-- A cell, by its position or by the letter of a variable. -/
inductive Place where
  | cell (pos : Int)
  | named (letter : UInt8)
deriving DecidableEq, Repr

/-- The position of a place. -/
def Place.resolve : Place → Gen Int
  | .cell pos => return pos
  | .named letter =>
    match Register.cellOfVariable? letter with
    | some pos => return pos
    | none => throw (.invalidVariable letter)

mutual

/-- What a session can be asked for. -/
inductive Directive where
  | move (amount : Int)
  | moveTo (pos : Place)
  | inc
  | dec
  | write
  | read
  | dump
  | incAt (pos : Place)
  | decAt (pos : Place)
  | readAt (pos : Place)
  | clear
  | clearAt (pos : Place)
  | saveCursor (body : List Directive)
  | loopAt (control : Place) (body : List Directive)
  | add (amount : Int)
  | sub (amount : Int)
  | set (value : Int)
  | addAt (pos : Place) (amount : Int)
  | setAt (pos : Place) (value : Int)
  | copy (target source : Place)
  | addCell (target source : Place)
  | subCell (target source : Place)
  | mul (factor : Int)
  | mulAt (pos : Place) (factor : Int)
  | divCell (divisor : Place)
  | modCell (divisor : Place)
  | div (divisor : Int)
  | mod (divisor : Int)
  | repeatBy (count : Place) (body : List Directive)
  | doOnceIf (flag : Place) (body : List Directive)
  | checkZero
  | checkNonzero
  | checkEq (value : Int)
  | ifNonzero (pos : Place) (body : List Directive)
  | ifZero (pos : Place) (body : List Directive)
  | logicalAnd (other : Place)
  | logicalOr (other : Place)
  | logicalNot (other : Place)
  | writeChar (c : UInt8)
  | writeString (text : Bytes)
  | writeDecimal (pos : Place)
  | writeNumber (value : Int)
  | readYesNo
  | say (text : Bytes) (next : Int)
  | ask (prompt : Bytes) (no yes : Int)
  | dispatch (entries : List Entry)
  | dispatchFrom (start : Int) (entries : List Entry)
  | group (body : List Directive)
  | observe (cells : List Place)

/-- An entry of a dispatch table: the number of a node and its action, if it has one. -/
inductive Entry where
  | absent (id : Int)
  | action (id : Int) (body : List Directive)

end

instance : Inhabited Directive := ⟨.write⟩

instance : Inhabited Entry := ⟨.absent 0⟩

/-- Notes what is known of some cells. -/
def observe (cells : List Place) : Gen Fragment := do
  let positions ← cells.mapM Place.resolve
  modify fun s =>
    { s with observations := ⟨s.cursor, positions.map s.known⟩ :: s.observations }
  return []

mutual

/-- The code of a directive. -/
def Directive.emit : Directive → Gen Fragment
  | .move amount => Generator.move amount
  | .moveTo pos => do Generator.moveTo (← pos.resolve)
  | .inc => Generator.inc
  | .dec => Generator.dec
  | .write => Generator.write
  | .read => Generator.read
  | .dump => Generator.dump
  | .incAt pos => do Generator.incAt (← pos.resolve)
  | .decAt pos => do Generator.decAt (← pos.resolve)
  | .readAt pos => do Generator.readAt (← pos.resolve)
  | .clear => Generator.clear
  | .clearAt pos => do Generator.clearAt (← pos.resolve)
  -- Bodies are emitted where the step that runs them asks for it.
  | .saveCursor body => Generator.saveCursor (emitAll body)
  | .loopAt control body => do Generator.loopAt (← control.resolve) (emitAll body)
  | .add amount => Generator.add amount
  | .sub amount => Generator.sub amount
  | .set value => Generator.set value
  | .addAt pos amount => do Generator.addAt (← pos.resolve) amount
  | .setAt pos value => do Generator.setAt (← pos.resolve) value
  | .copy target source => do
    let target ← target.resolve
    Generator.copy target (← source.resolve)
  | .addCell target source => do
    let target ← target.resolve
    Generator.addCell target (← source.resolve)
  | .subCell target source => do
    let target ← target.resolve
    Generator.subCell target (← source.resolve)
  | .mul factor => Generator.mul factor
  | .mulAt pos factor => do Generator.mulAt (← pos.resolve) factor
  | .divCell divisor => do Generator.divCell (← divisor.resolve)
  | .modCell divisor => do Generator.modCell (← divisor.resolve)
  | .div divisor => Generator.div divisor
  | .mod divisor => Generator.mod divisor
  | .repeatBy count body => do Generator.repeatBy (← count.resolve) (emitAll body)
  | .doOnceIf flag body => do Generator.doOnceIf (← flag.resolve) (emitAll body)
  | .checkZero => Generator.checkZero
  | .checkNonzero => Generator.checkNonzero
  | .checkEq value => Generator.checkEq value
  | .ifNonzero pos body => do Generator.ifNonzero (← pos.resolve) (emitAll body)
  | .ifZero pos body => do Generator.ifZero (← pos.resolve) (emitAll body)
  | .logicalAnd other => do Generator.logicalAnd (← other.resolve)
  | .logicalOr other => do Generator.logicalOr (← other.resolve)
  | .logicalNot other => do Generator.logicalNot (← other.resolve)
  | .writeChar c => Generator.writeChar c
  | .writeString text => Generator.writeString text
  | .writeDecimal pos => do Generator.writeDecimal (← pos.resolve)
  | .writeNumber value => Generator.writeNumber value
  | .readYesNo => Generator.readYesNo
  | .say text next => Generator.say text next
  | .ask prompt no yes => Generator.ask prompt no yes
  | .dispatch entries => Generator.dispatch (Table.ofEntries (emitEntries entries))
  | .dispatchFrom start entries =>
    Generator.dispatchFrom start (Table.ofEntries (emitEntries entries))
  | .group body => emitAll body
  | .observe cells => Generator.observe cells

/-- The code of directives one after another. -/
def emitAll : List Directive → Gen Fragment
  | [] => return []
  | first :: rest => do
    let a ← first.emit
    let b ← emitAll rest
    return a ++ b

/-- The actions of table entries. -/
def emitEntries : List Entry → List (Int × Option (Gen Fragment))
  | [] => []
  | .absent id :: rest => (id, none) :: emitEntries rest
  | .action id body :: rest => (id, some (emitAll body)) :: emitEntries rest

end

end TapeMachine.Generator
