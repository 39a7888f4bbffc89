import TapeMachine.Toml.Fault
import TapeMachine.Toml.Syntax

/-!
# Building TOML documents

The statements of a document are carried out one after another on a draft of it. A key may be given
only once, with one exception. A table that was only passed through on the way to something inside
it is implied: it may be opened, or given as a key, once more. It then stays as it is, unless it has
been noted as a list, for a list is replaced.

Both are noted by path, so a note made for one table of a list holds for the later ones too. A note
about the kind of an empty key goes to the table that the key is in.
-/

namespace TapeMachine.Toml

/-- A document that is being built. -/
structure Draft where
  /-- The outermost table. -/
  root : Table := []
  /-- The tables that are implied. -/
  implied : List Path := []
  /-- The keys whose value is a list. -/
  lists : List Path := []
  /-- The table opened last. -/
  current : Path := []

namespace Draft

/-- Notes that a table is implied. -/
def imply (draft : Draft) (path : Path) : Draft :=
  { draft with implied := path :: draft.implied }

/-- Notes that a table is not implied any more. -/
def settle (draft : Draft) (path : Path) : Draft :=
  { draft with implied := draft.implied.filter (· != path) }

/-- The path under which the kind of a key is noted. -/
def kindPath (context : Path) (key : Bytes) : Path :=
  if key.isEmpty ∧ context ≠ [] then context else context ++ [key]

/-- Notes whether the value at a path is a list. -/
def noteKind (draft : Draft) (path : Path) (isList : Bool) : Draft :=
  let others := draft.lists.filter (· != path)
  { draft with lists := if isList then path :: others else others }

/-- The table at a path. -/
def tableAt (draft : Draft) (context : Path) : Except Fault Table :=
  match draft.root.at? context with
  | some table => .ok table
  | none => .error { keys := context }

/-- Sets a key in the table at a path. -/
def set (draft : Draft) (context : Path) (key : Bytes) (value : Value) : Except Fault Draft :=
  match draft.root.changeAt (fun table => some (table.set key value)) context with
  | some root => .ok { draft with root }
  | none => .error { keys := context ++ [key] }

/-- Gives a key in the table at a path its value. -/
def put (draft : Draft) (context : Path) (key : Bytes) (value : Value) : Except Fault Draft := do
  let table ← (draft.tableAt context).mapError (·.alsoAt key)
  let path := context ++ [key]
  if (table.lookup key).isNone then draft.set context key value
  else if !draft.implied.contains path then .error { keys := path }
  else if draft.lists.contains path then (draft.settle path).set context key value
  else .ok (draft.settle path)

/-- Makes sure that there are tables along a path, which starts in the table at `context`. -/
def establish (draft : Draft) (context : Path) : Path → Except Fault Draft
  | [] => .ok draft
  | key :: path => do
    let table ← draft.tableAt context
    match table.lookup key with
    | none =>
      let draft ← (draft.imply (context ++ [key])).set context key (.table [])
      draft.establish (context ++ [key]) path
    | some (.table _) => draft.establish (context ++ [key]) path
    | some (.tables _ _) => draft.establish (context ++ [key]) path
    | some _ => .error { keys := context ++ [key] }

/-- A list of tables with an empty one added. -/
def addEmpty : Option Value → Option Value
  | none => some (.tables [] [])
  | some (.tables last earlier) => some (.tables [] (last :: earlier))
  | some _ => none

/-- Enters the table with a key in the table at a path: a new one in a list of tables, or a single
one. The table that is left for it is at `left`. -/
def enter (draft : Draft) (left context : Path) (key : Bytes) (inList : Bool) :
    Except Fault Draft := do
  let draft ← (draft.establish [] context).mapError (·.inside left)
  if inList then
    match addEmpty ((← draft.tableAt context).lookup key) with
    | some value => draft.set context key value
    | none => .error { keys := context ++ [key] }
  else draft.put context key (.table [])

/-- Passes through the tables of a path, which starts in the table at `context`, on the way to the
key `name`. -/
def descend (draft : Draft) (name : Bytes) (context : Path) : Path → Except Fault Draft
  | [] => .ok draft
  | key :: path => do
    let draft := draft.imply (context ++ [key])
    let draft ← (draft.enter context context key false).mapError (·.alsoAt name)
    draft.descend name (context ++ [key]) path

mutual

/-- The value of an expression that is given to a key in the table at a path. A table between braces
is entered in the document while it is read. -/
def evaluate (context : Path) (key : Bytes) (inList : Bool) :
    Expr → Draft → Except Fault (Value × Draft)
  | .scalar value, draft => .ok (value, draft)
  | .array items, draft => do
    let (values, draft) ←
      evaluateItems context key items (draft.noteKind (kindPath context key) true)
    return (.array values, draft)
  | .inline pairs broken, draft => do
    let inner := context ++ [key]
    let draft ← (draft.imply inner).enter inner context key inList
    let (table, draft) ← evaluatePairs inner pairs [] draft
    match broken with
    | none => return (.table table, draft)
    | some near =>
      .error { keys := inner ++ (pairs.getLast?.map fun pair => pair.1.name).toList, near }
  | .broken near, _ => .error { keys := context ++ [key], near }

/-- The values of the items of a list. -/
def evaluateItems (context : Path) (key : Bytes) :
    List Expr → Draft → Except Fault (List Value × Draft)
  | [], draft => .ok ([], draft)
  | item :: rest, draft => do
    let (value, draft) ← evaluate context key true item draft
    let (values, draft) ← evaluateItems context key rest draft
    return (value :: values, draft)

/-- The table between braces at a path, given what it holds so far. -/
def evaluatePairs (context : Path) :
    List (Key × Expr) → Table → Draft → Except Fault (Table × Draft)
  | [], table, draft => .ok (table, draft)
  | (key, expr) :: rest, table, draft => do
    let draft ← draft.descend key.name context key.parents
    let inner := context ++ key.parents
    let (value, draft) ← evaluate inner key.name false expr draft
    let draft ← draft.put inner key.name value
    match table.assign key.name value key.parents with
    | none => .error { keys := inner ++ [key.name] }
    | some table =>
      evaluatePairs context rest table (draft.noteKind (kindPath inner key.name) expr.isArray)

end

/-- Carries out a statement. -/
def perform (draft : Draft) : Statement → Except Fault Draft
  | .openTable key => do
    let draft ← draft.enter draft.current key.parents key.name false
    return { draft.noteKind key.path false with current := key.path }
  | .addTable key => do
    let draft ← draft.enter draft.current key.parents key.name true
    return { draft.noteKind key.path false with current := key.path }
  | .assign key expr => do
    let draft ← draft.descend key.name draft.current key.parents
    let context := draft.current ++ key.parents
    let (value, draft) ← evaluate context key.name false expr draft
    let draft ← draft.put context key.name value
    return draft.noteKind (kindPath context key.name) expr.isArray
  | .broken near => .error { keys := draft.current, near }

end Draft

/-- The document that some statements make up. -/
def Statement.document (statements : List Statement) : Except Fault Table :=
  (statements.foldlM Draft.perform {}).map (·.root)

end TapeMachine.Toml
