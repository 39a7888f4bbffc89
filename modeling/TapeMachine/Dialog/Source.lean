import TapeMachine.Dialog.Basic
import TapeMachine.Folder
import TapeMachine.Toml.Field
import TapeMachine.Toml.Parser

/-!
# Dialog files

A dialog is written down in TOML: the name of the start, and a list of nodes under the key `node`.
If the nodes are given by several keys, which differ in case, then the later lists fill the places
of the earlier ones: a node keeps the fields that are not given again, as long as there are places
enough.
-/

namespace TapeMachine.Dialog

/-- Why a text holds no dialog. -/
inductive SourceFault where
  /-- The text is no TOML. -/
  | malformed (fault : Toml.Fault)
  /-- The text has a field of the wrong kind. -/
  | wrongKind
  /-- The script has no tree. -/
  | script (fault : Fault)
deriving DecidableEq, Repr

/-- The wording of a source fault. -/
def SourceFault.message : SourceFault → Bytes
  | .malformed fault => utf8 "parse error: " ++ fault.message
  | .wrongKind => utf8 "parse error: a field is of the wrong kind"
  | .script fault => fault.message

/-- Why no dialog can be loaded. -/
inductive LoadFault where
  /-- The file cannot be read. -/
  | unreadable (path : Bytes) (fault : FileFault)
  /-- The file at this path holds no dialog. -/
  | source (path : Bytes) (fault : SourceFault)
deriving DecidableEq, Repr

/-- The wording of a load fault. -/
def LoadFault.message : LoadFault → Bytes
  | .unreadable path fault => utf8 "cannot read " ++ path ++ utf8 ": " ++ fault.message
  | .source path fault => path ++ utf8 ": " ++ fault.message

open Toml

/-- A node with the fields that a table gives. -/
def Node.read? (node : Node) (table : Table) : Option Node := do
  let node ← table.readField "name" Value.text? (fun n s => { n with name := s }) node
  let node ← table.readField "say" Value.text? (fun n s => { n with say := some s }) node
  let node ← table.readField "next" Value.text? (fun n s => { n with next := s }) node
  let node ← table.readField "ask" Value.text? (fun n s => { n with ask := some s }) node
  let node ← table.readField "yes" Value.text? (fun n s => { n with yes := s }) node
  table.readField "no" Value.text? (fun n s => { n with no := s }) node

/-- Places for nodes, of which the first ones are taken. -/
structure Places where
  /-- The nodes in the places. -/
  nodes : List Node := []
  /-- How many places are taken. -/
  taken : Nat := 0

/-- Fills places by the tables of a list. There are new places if there are too few. -/
def Places.fill? (places : Places) (value : Value) : Option Places := do
  let tables ← value.tables?
  let nodes :=
    if places.nodes.length < tables.length then List.replicate tables.length {} else places.nodes
  let filled ← (nodes.zip tables).mapM fun (node, table) => node.read? table
  return { nodes := filled ++ nodes.drop tables.length, taken := tables.length }

/-- The script that a table describes. -/
def Script.ofTable? (table : Table) : Option Script := do
  let start ← table.readField "start" Value.text? (fun _ start => start) []
  let places ← table.foldField "node" Places.fill? {}
  return { start, nodes := places.nodes.take places.taken }

/-- The dialog written down in a text. -/
def parse (text : Bytes) : Except SourceFault Tree := do
  let table ← (Toml.parse text).mapError .malformed
  match Script.ofTable? table with
  | none => throw .wrongKind
  | some script => script.resolve.mapError .script

/-- The dialog written down in a file. -/
def load (folder : Folder) (path : Bytes) : Except LoadFault Tree := do
  let text ← (folder.read path).mapError (.unreadable path)
  (parse text).mapError (.source path)

end TapeMachine.Dialog
