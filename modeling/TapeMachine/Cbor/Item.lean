import TapeMachine.Cbor.Head
import TapeMachine.Word

/-!
# CBOR items

Reading checks that a text is one well-formed item: at most 32 arrays and maps inside one another,
at most 131072 elements of an array or pairs of a map, and no length beyond 63 bits.
-/

namespace TapeMachine.Cbor

/-- A CBOR item. -/
inductive Item where
  /-- A number that is not negative. -/
  | unsigned (n : Nat)
  /-- The negative number `-1 - n`. -/
  | negative (n : Nat)
  /-- A byte string. -/
  | bytes (content : Bytes)
  /-- A text string, in the chunks it was given in. -/
  | text (chunks : List Bytes)
  /-- An array. -/
  | array (elements : List Item)
  /-- A map, as its keys and values in turn. -/
  | map (entries : List Item)
  /-- An item with a tag. -/
  | tagged (tag : Nat) (content : Item)
  /-- A simple value that is no number. -/
  | simple (code : Nat)
  /-- A floating point number. -/
  | float
deriving Inhabited

namespace Item

/-- How many arrays and maps may stand inside one another. -/
def maxDepth : Nat :=
  32

/-- How many elements an array and how many pairs a map may have. -/
def maxCount : Nat :=
  131072

/-- The bound of lengths. -/
def lengthBound : Nat :=
  Word.signBound

/-- The byte that ends an item of indefinite length. -/
def breakByte : UInt8 :=
  0xff

/-- Whether a text starts with a tag. -/
def startsTagged : Bytes → Bool
  | [] => false
  | first :: _ => first.toNat / 32 = 6

/-- A string of known length. -/
def readChunk (n : Nat) (rest : Bytes) : Option (Bytes × Bytes) :=
  if n < lengthBound then takeExact n rest else none

/-- The chunks of a string of indefinite length, all of known length and of the same major type.
`done` are the chunks read before, last first. -/
def readChunks (major : Nat) : Nat → List Bytes → Bytes → Option (List Bytes × Bytes)
  | 0, _, _ => none
  | _, _, [] => none
  | fuel + 1, done, first :: rest =>
    if first = breakByte then some (done.reverse, rest)
    else match Head.read (first :: rest) with
      | some (⟨kind, .number n _⟩, rest) =>
        if kind = major then
          match readChunk n rest with
          | some (chunk, rest) => readChunks major fuel (chunk :: done) rest
          | none => none
        else none
      | _ => none

/-- A simple value or a floating point number. -/
def ofSimple (n wide : Nat) : Option Item :=
  match wide with
  | 0 => some (.simple n)
  | 1 => if n < 32 then none else some (.simple n)
  | _ => some .float

mutual

/-- Reads an item inside `depth` arrays and maps. -/
def readItem (fuel depth : Nat) (text : Bytes) : Option (Item × Bytes) :=
  match fuel with
  | 0 => none
  | fuel + 1 =>
    match Head.read text with
    | none => none
    | some (⟨major, argument⟩, rest) =>
      match major, argument with
      | 0, .number n _ => some (.unsigned n, rest)
      | 1, .number n _ => some (.negative n, rest)
      | 2, .number n _ => (readChunk n rest).map fun (chunk, rest) => (.bytes chunk, rest)
      | 2, .indefinite =>
        (readChunks 2 (rest.length + 1) [] rest).map fun (chunks, rest) =>
          (.bytes chunks.flatten, rest)
      | 3, .number n _ => (readChunk n rest).map fun (chunk, rest) => (.text [chunk], rest)
      | 3, .indefinite =>
        (readChunks 3 (rest.length + 1) [] rest).map fun (chunks, rest) => (.text chunks, rest)
      | 4, .number n _ =>
        if depth < maxDepth ∧ n ≤ maxCount then
          (readItems fuel (depth + 1) n [] rest).map fun (items, rest) => (.array items, rest)
        else none
      | 4, .indefinite =>
        if depth < maxDepth then
          (readOpen fuel (depth + 1) maxCount [] rest).map fun (items, rest) => (.array items, rest)
        else none
      | 5, .number n _ =>
        if depth < maxDepth ∧ n ≤ maxCount then
          (readItems fuel (depth + 1) (2 * n) [] rest).map fun (items, rest) => (.map items, rest)
        else none
      | 5, .indefinite =>
        if depth < maxDepth then
          match readOpen fuel (depth + 1) (2 * maxCount + 1) [] rest with
          | some (items, rest) => if items.length % 2 = 0 then some (.map items, rest) else none
          | none => none
        else none
      | 6, .number n _ =>
        -- a tag directly inside a tag counts as a level of nesting
        let depth := if startsTagged rest then depth + 1 else depth
        if depth ≤ maxDepth then
          (readItem fuel depth rest).map fun (content, rest) => (.tagged n content, rest)
        else none
      | 7, .number n wide => (ofSimple n wide).map (·, rest)
      | _, _ => none

/-- Reads `count` items. `done` are the items read before, last first. -/
def readItems (fuel depth count : Nat) (done : List Item) (text : Bytes) :
    Option (List Item × Bytes) :=
  match fuel, count with
  | _, 0 => some (done.reverse, text)
  | 0, _ => none
  | fuel + 1, count + 1 =>
    match readItem fuel depth text with
    | some (item, rest) => readItems fuel depth count (item :: done) rest
    | none => none

/-- Reads at most `count` items up to a break. `done` are the items read before, last first. -/
def readOpen (fuel depth count : Nat) (done : List Item) (text : Bytes) :
    Option (List Item × Bytes) :=
  match fuel with
  | 0 => none
  | fuel + 1 =>
    if text.head? = some breakByte then some (done.reverse, text.tail)
    else match count with
      | 0 => none
      | count + 1 =>
        match readItem fuel depth text with
        | some (item, rest) => readOpen fuel depth count (item :: done) rest
        | none => none

end

/-- Reads a text that is one item. Every item and every level of nesting takes at least one byte,
which bounds the fuel needed. -/
def ofBytes (text : Bytes) : Option Item :=
  match readItem (2 * text.length + 2) 0 text with
  | some (item, []) => some item
  | _ => none

end Item

end TapeMachine.Cbor
