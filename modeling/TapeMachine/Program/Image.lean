import TapeMachine.Cbor.Item
import TapeMachine.Program.Check
import TapeMachine.Text.Utf8
import TapeMachine.Word

/-!
# Program images

A program can be stored as an image and restored without its text. An image is a CBOR map with the
version under key 1 and the program under key 2. A program is an array of nodes, and a node is a map
with the operation under key 1, the amount under key 2 and the body under key 3; amounts of zero and
empty bodies are left out, and the empty program is null. Only an empty program that comes from an
image with an empty array is an empty array again.

Restoring is lenient about the form: keys may come in any order and may be written as text, the
first of several equal keys counts, keys without a meaning are skipped, null stands for a field left
out, and tags around a value are ignored except for those that say how the value is to be read.
-/

namespace TapeMachine

/-- Why bytes are no image. -/
inductive ImageFault where
  /-- The bytes are no CBOR, or not of the right shape. -/
  | malformed
  /-- The image is of another version. -/
  | version (found : Int)
  /-- The program is not well formed. -/
  | program (fault : CheckFault)
deriving DecidableEq, Repr

/-- The wording of an image fault. -/
def ImageFault.message : ImageFault → Bytes
  | .malformed => utf8 "unmarshal image: not an image"
  | .version found => utf8 "unsupported image version " ++ Bytes.ofInt found
  | .program fault => utf8 "bad image: " ++ fault.message

namespace Image

open Cbor

/-- The version of images written, and the only one read. -/
def version : Int :=
  1

mutual

/-- Writes a node. -/
def writeNode : Node → Bytes
  | ⟨op, amount, body⟩ =>
    -- Fields that have their default are left out, and the map counts the others.
    let hasAmount := amount ≠ 0
    let hasBody := !body.isEmpty
    Head.write 5 (1 + (if hasAmount then 1 else 0) + (if hasBody then 1 else 0)) ++
      Head.write 0 1 ++ Head.write 0 op.code.toNat ++
      (if hasAmount then Head.write 0 2 ++ writeInt amount.toInt else []) ++
      (if hasBody then Head.write 0 3 ++ Head.write 4 body.length ++ writeNodes body else [])

/-- Writes nodes one after another. -/
def writeNodes : List Node → Bytes
  | [] => []
  | node :: rest => writeNode node ++ writeNodes rest

end

/-- Writes the nodes of a program, with null for none. -/
def writeProgram (program : Program) : Bytes :=
  if program.isEmpty then [0xf6] else Head.write 4 program.length ++ writeNodes program

/-- Stores a program. -/
def encode (program : Program) : Bytes :=
  Head.write 5 2 ++ Head.write 0 1 ++ writeInt version ++ Head.write 0 2 ++ writeProgram program

/-- Stores a program, as an array even if it is empty when it is `listed`. -/
def encodeAs (listed : Bool) (program : Program) : Bytes :=
  if listed && program.isEmpty then
    Head.write 5 2 ++ Head.write 0 1 ++ writeInt version ++ Head.write 0 2 ++ Head.write 4 0
  else encode program

/-- Whether an item stands for nothing. -/
def isNull : Item → Bool
  | .simple 22 => true
  | .simple 23 => true
  | _ => false

/-- Whether a tag says how its content is to be read: a date, a time, or a large number. -/
def isReadingTag (tag : Nat) : Bool :=
  tag ≤ 3

/-- An item without the tags around it that can be ignored. -/
def untagged : Item → Item
  | .tagged tag content => if isReadingTag tag then .tagged tag content else untagged content
  | item => item

/-- An integer. Simple values count as numbers, null as zero, and a large number is given by its
bytes. -/
def integer? (item : Item) : Option Int :=
  match untagged item with
  | .unsigned n => some n
  | .negative n => some (-1 - (n : Int))
  -- The codes 20 and 21 are truth values, 22 is null and 23 is undefined.
  | .simple code =>
    if code = 22 ∨ code = 23 then some 0 else if code = 20 ∨ code = 21 then none else some code
  -- A time in seconds, and numbers too large for a head.
  | .tagged 1 (.unsigned n) => some n
  | .tagged 1 (.negative n) => some (-1 - (n : Int))
  | .tagged 2 (.bytes content) => some (bigEndian content)
  | .tagged 3 (.bytes content) => some (-1 - (bigEndian content : Int))
  | _ => none

/-- An integer of 64 bits. -/
def int64? (item : Item) : Option Int64 :=
  match integer? item with
  | some n => if Word.isSigned n then some (Int64.ofInt n) else none
  | none => none

/-- An operation code. -/
def op? (item : Item) : Option Op :=
  match integer? item with
  | some n => if 0 ≤ n ∧ n < 256 then some ⟨n.toNat.toUInt8⟩ else none
  | none => none

/-- The elements of an array, null being an empty one. -/
def elements? (item : Item) : Option (List Item) :=
  match untagged item with
  | .array elements => some elements
  | item => if isNull item then some [] else none

/-- The keys and values of a map, null being an empty one. -/
def entries? (item : Item) : Option (List Item) :=
  match untagged item with
  | .map entries => some entries
  | item => if isNull item then some [] else none

/-- Whether an item can be a key. -/
def isKey : Item → Bool
  | .unsigned _ => true
  | .negative n => n < Word.signBound
  | .text chunks => chunks.all Utf8.isValid
  | _ => false

/-- Whether a key selects the field with the given number, as a number or as a text. -/
def selects (field : Nat) : Item → Bool
  | .unsigned n => n = field
  | .text chunks => chunks.flatten = Bytes.ofNat field
  | _ => false

/-- Whether all keys of a map can be keys. -/
def keysAreValid : List Item → Bool
  | key :: _ :: rest => isKey key && keysAreValid rest
  | _ => true

/-- The value of the first key that selects a field. -/
def field? (field : Nat) : List Item → Option Item
  -- Later keys for the same field are not looked at.
  | key :: value :: rest => if selects field key then some value else field? field rest
  | _ => none

/-- The entries of a map with valid keys. -/
def record? (item : Item) : Option (List Item) :=
  match entries? item with
  | some entries => if keysAreValid entries then some entries else none
  | none => none

/-- Reads a field that may be missing. -/
def readField {α : Type} (entries : List Item) (field : Nat) (missing : α)
    (read : Item → Option α) : Option α :=
  match field? field entries with
  | some item => read item
  | none => some missing

/-- Reads a node that has at most `levels` levels of nodes. -/
def node? : Nat → Item → Option Node
  | 0, _ => none
  | levels + 1, item => do
    let entries ← record? item
    let op ← readField entries 1 ⟨0⟩ op?
    let amount ← readField entries 2 0 int64?
    let body ← readField entries 3 [] fun body => do (← elements? body).mapM (node? levels)
    return { op, amount, body }

/-- Reads a program. Items are nested so little that the bound on levels is never reached. -/
def program? (item : Item) : Option Program := do
  (← elements? item).mapM (node? Item.maxDepth)

/-- Reads the version and the program of an image. -/
def read? (bytes : Bytes) : Option (Int64 × Program) := do
  let entries ← record? (← Item.ofBytes bytes)
  let version ← readField entries 1 0 int64?
  let program ← readField entries 2 [] program?
  return (version, program)

/-- Whether an item is an array. -/
def isArray : Item → Bool
  | .array _ => true
  | _ => false

/-- Whether the program of an image is an array, and neither null nor left out. -/
def isListed (bytes : Bytes) : Bool :=
  let program : Option Item := do field? 2 (← record? (← Item.ofBytes bytes))
  program.any fun item => isArray (untagged item)

/-- Restores a program. -/
def decode (bytes : Bytes) : Except ImageFault Program :=
  match read? bytes with
  | none => .error .malformed
  | some (found, program) =>
    -- The version comes first: a program of another one is not checked.
    if found.toInt = version then
      match program.check with
      | .error fault => .error (.program fault)
      | .ok _ => .ok program
    else .error (.version found.toInt)

end Image

end TapeMachine
