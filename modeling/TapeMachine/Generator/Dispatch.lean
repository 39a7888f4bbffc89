import TapeMachine.Generator.Printing

/-!
# Dialogs

A dialog moves from node to node. The node selected is kept in a register, and zero ends the dialog.
In each pass a copy of it is counted down through the nodes that have an action, and the action of
the node selected is done, which selects the next one.
-/

namespace TapeMachine.Generator

/-- Reads until a `y` or an `n` comes, and sets `yesNo` and `flag` to one or zero. -/
def readYesNo : Gen Fragment :=
  noted (utf8 "read y/n") <| saveCursor <| sequence [
    clearAt Register.yesNo,
    setAt Register.yesNoLoop 1,
    loopAt Register.yesNoLoop <| sequence [
      readAt Register.yesNoKey,
      -- The byte of `n`.
      add (-110),
      ifZero Register.yesNoKey (clearAt Register.yesNoLoop),
      moveTo Register.yesNoKey,
      -- The byte of `y`, eleven further on.
      add (-11),
      ifZero Register.yesNoKey (sequence [clearAt Register.yesNoLoop, setAt Register.yesNo 1])],
    clearAt Register.yesNoKey,
    copy Register.flag Register.yesNo]

/-- Refuses a node number that fits into no cell. -/
def checkNode (id : Int) : Gen Unit :=
  if id < 0 ∨ 255 < id then throw (.nodeOutOfRange id) else return ()

/-- Prints a line and selects the next node. -/
def say (text : Bytes) (next : Int) : Gen Fragment := do
  checkNode next
  noted (utf8 "say " ++ Quoted.text text ++ utf8 s!" -> {next}") <| saveCursor <| sequence [
    writeString (text ++ [Bytes.newline]),
    setAt Register.node next]

/-- Prints a question, reads the answer and selects the next node by it. -/
def ask (prompt : Bytes) (no yes : Int) : Gen Fragment := do
  checkNode no
  checkNode yes
  noted (utf8 "ask " ++ Quoted.text prompt ++ utf8 s!" -> n:{no} y:{yes}") <|
    saveCursor <| sequence [
      writeString (prompt ++ utf8 " [y/n]\n> "),
      readYesNo,
      -- Both tests are made, so the answer has to outlive the first one.
      ifNonzero Register.yesNo (setAt Register.node yes),
      ifZero Register.yesNo (setAt Register.node no)]

/-- Actions by the numbers of their nodes, ascending and without repetition. -/
abbrev Table := List (Int × Gen Fragment)

/-- Puts an entry into an ascending list; an entry for the same number is replaced. -/
def insertEntry {α : Type} (id : Int) (entry : α) : List (Int × α) → List (Int × α)
  | [] => [(id, entry)]
  | (other, e) :: rest =>
    if id < other then (id, entry) :: (other, e) :: rest
    else if id = other then (id, entry) :: rest
    else (other, e) :: insertEntry id entry rest

/-- The table of some entries: a later one replaces an earlier one for the same number, and an entry
without an action is no entry. -/
def Table.ofEntries (entries : List (Int × Option (Gen Fragment))) : Table :=
  (entries.foldl (fun table (id, action) => insertEntry id action table) []).filterMap
    fun (id, action) => action.map (id, ·)

/-- Refuses node numbers that no action can have. -/
def checkIds : List Int → Gen Unit
  | [] => return ()
  | id :: rest => do
    -- Node zero ends the dispatch.
    if id = 0 then throw .nodeReserved
    checkNode id
    checkIds rest

/-- Counts the copy of the node selected down through a table, given the number it was counted down
by before, and does the action of the node at which it gets to zero. -/
def selectAction (before : Int) : Table → Gen Fragment
  | [] => return []
  | (id, action) :: rest =>
    sequence [
      -- The actions leave the copy alone, so that the next difference can be taken from it.
      addAt Register.nodeWork (before - id),
      ifZero Register.nodeWork action,
      selectAction id rest]

/-- Does the action of the node selected until node zero is. -/
def dispatch (table : Table) : Gen Fragment := do
  let ids := table.map (·.1)
  checkIds ids
  let shown := Bytes.joinWith (utf8 " ") (ids.map Bytes.ofInt)
  noted (utf8 "dispatch [" ++ shown ++ utf8 "]") <| saveCursor <|
    loopAt Register.node <| sequence [
      copy Register.nodeWork Register.node,
      -- The action sets the node itself, and with it whether there is another pass.
      selectAction 0 table,
      clearAt Register.nodeWork]

/-- Selects a node and dispatches. -/
def dispatchFrom (start : Int) (table : Table) : Gen Fragment := do
  checkNode start
  sequence [saveCursor (setAt Register.node start), dispatch table]

end TapeMachine.Generator
