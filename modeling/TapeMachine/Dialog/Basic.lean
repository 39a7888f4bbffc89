import TapeMachine.Generator.Dispatch

/-!
# Dialog trees

A dialog script is a list of named nodes, each of which says something or asks something and then
leads to other nodes by name. Resolving a script numbers its nodes from one, in order, and replaces
the names by numbers; no name leads to node zero, which ends the dialog.

The module introduces:

* `Dialog.Script`: what is written down;
* `Dialog.Tree`: what is run;
* `Dialog.Script.resolve`: the tree of a script.
-/

namespace TapeMachine.Dialog

/-- A node of a script. -/
structure Node where
  /-- The name of the node. -/
  name : Bytes := []
  /-- What the node says. -/
  say : Option Bytes := none
  /-- The node after something was said. -/
  next : Bytes := []
  /-- What the node asks. -/
  ask : Option Bytes := none
  /-- The node after a yes. -/
  yes : Bytes := []
  /-- The node after a no. -/
  no : Bytes := []

/-- A dialog as it is written down. -/
structure Script where
  /-- The name of the node to start with; the first one if there is none. -/
  start : Bytes := []
  /-- The nodes. -/
  nodes : List Node := []

/-- What a node does. -/
inductive Action where
  /-- Says a text. -/
  | say (text : Bytes) (next : Nat)
  /-- Asks a question. -/
  | ask (prompt : Bytes) (no yes : Nat)
deriving DecidableEq, Repr

/-- A resolved dialog. -/
structure Tree where
  /-- The names of the nodes in order. -/
  names : List Bytes
  /-- What the nodes do, in order. -/
  actions : List Action
  /-- The number of the node to start with. -/
  start : Nat
deriving DecidableEq, Repr

/-- Why a script has no tree. -/
inductive Fault where
  /-- There are no nodes. -/
  | noNodes
  /-- There are more nodes than a cell can tell apart. -/
  | tooMany (count : Nat)
  /-- The node at this place, counted from one, has no name. -/
  | unnamed (place : Nat)
  /-- Two nodes have the same name. -/
  | repeated (name : Bytes)
  /-- A node both says and asks. -/
  | both (name : Bytes)
  /-- A node neither says nor asks. -/
  | neither (name : Bytes)
  /-- A node leads to one that does not exist. -/
  | undefined (name : Bytes) (field : String) (target : Bytes)
  /-- The dialog starts with a node that does not exist. -/
  | undefinedStart (name : Bytes)
deriving DecidableEq, Repr

/-- How many nodes a dialog may have: their numbers have to fit into a cell. -/
def maxNodes : Nat :=
  255

/-- The wording of a fault. -/
def Fault.message : Fault → Bytes
  | .noNodes => utf8 "dialog has no nodes"
  | .tooMany count => utf8 s!"dialog has {count} nodes, at most {maxNodes} allowed"
  | .unnamed place => utf8 s!"node #{place} has no name"
  | .repeated name => utf8 "node " ++ Quoted.text name ++ utf8 " defined more than once"
  | .both name => utf8 "node " ++ Quoted.text name ++ utf8 " has both say and ask"
  | .neither name => utf8 "node " ++ Quoted.text name ++ utf8 " has neither say nor ask"
  | .undefined name field target =>
    utf8 "node " ++ Quoted.text name ++ utf8 s!" {field} refers to undefined node " ++
      Quoted.text target
  | .undefinedStart name => utf8 "start refers to undefined node " ++ Quoted.text name

/-- The number of the node with a name; zero if there is none. -/
def idOf (names : List Bytes) (name : Bytes) : Nat :=
  match names.idxOf? name with
  -- Numbers start at one, as zero ends a dialog.
  | some i => i + 1
  | none => 0

/-- The name of the node with a number; empty if there is none. -/
def nameOf (names : List Bytes) (id : Int) : Bytes :=
  if 1 ≤ id then names[id.toNat - 1]?.getD [] else []

/-- The number of the node with a name. No name leads to zero; a name of no node is a fault. -/
def follow (names : List Bytes) (fault : Fault) (name : Bytes) : Except Fault Nat :=
  if name.isEmpty then .ok 0
  else match idOf names name with
    | 0 => .error fault
    | id => .ok id

/-- What a node does, with names replaced by numbers. -/
def Node.resolve (names : List Bytes) (node : Node) : Except Fault Action :=
  let target (field : String) (name : Bytes) : Except Fault Nat :=
    follow names (.undefined node.name field name) name
  match node.say, node.ask with
  | some _, some _ => .error (.both node.name)
  | some text, none => do
    return .say text (← target "next" node.next)
  | none, some prompt => do
    -- Of two names that are undefined, the one for a yes is reported.
    let yes ← target "yes" node.yes
    let no ← target "no" node.no
    return .ask prompt no yes
  | none, none => .error (.neither node.name)

/-- Checks that all names are there and differ, given the names before. -/
def checkNames (before : List Bytes) : List Bytes → Except Fault Unit
  | [] => .ok ()
  | name :: rest =>
    if name.isEmpty then .error (.unnamed (before.length + 1))
    else if before.contains name then .error (.repeated name)
    else checkNames (before ++ [name]) rest

namespace Script

/-- The names of the nodes in order. -/
def names (script : Script) : List Bytes :=
  script.nodes.map (·.name)

/-- The name of the node to start with. -/
def startName (script : Script) : Bytes :=
  if script.start.isEmpty then script.names.headD [] else script.start

/-- The tree of a script. -/
def resolve (script : Script) : Except Fault Tree := do
  if script.nodes.isEmpty then throw .noNodes
  if maxNodes < script.nodes.length then throw (.tooMany script.nodes.length)
  checkNames [] script.names
  -- Targets are looked up only when all names are known to differ.
  let actions ← script.nodes.mapM (Node.resolve script.names)
  let start ← follow script.names (.undefinedStart script.startName) script.startName
  return { names := script.names, actions, start }

end Script

/-- The code of an action. -/
def Action.emit : Action → Gen Fragment
  | .say text next => Generator.say text next
  | .ask prompt no yes => Generator.ask prompt no yes

namespace Tree

/-- The name of the node with a number. -/
def name (tree : Tree) (id : Int) : Bytes :=
  nameOf tree.names id

/-- The number of the node with a name. -/
def id (tree : Tree) (name : Bytes) : Nat :=
  idOf tree.names name

/-- The actions with the numbers of their nodes. -/
def numbered (tree : Tree) : List (Nat × Action) :=
  tree.actions.zipIdx 1 |>.map fun (action, id) => (id, action)

/-- The dispatch table of a dialog. -/
def table (tree : Tree) : Generator.Table :=
  tree.numbered.map fun (id, action) => ((id : Int), action.emit)

/-- The code that runs a dialog. -/
def emit (tree : Tree) : Gen Fragment :=
  Generator.dispatchFrom tree.start tree.table

end Tree

end TapeMachine.Dialog
