import TapeMachine.Toml.Draft
import TapeMachine.Toml.Number
import TapeMachine.Toml.Text

/-!
# Reading TOML

A document is read statement by statement, and its statements are then carried out. Reading goes as
far as it can: where it cannot go on, the last statement is broken, and carrying it out gives the
fault. Values may be nested, so reading them takes fuel; the length of the text is always enough.

The first character that may not stand in a document at all is read as a zero byte, and nothing
behind it.
-/

namespace TapeMachine.Toml

/-- Whether a byte is a blank. -/
def isBlank (b : UInt8) : Bool :=
  b == byte ' ' || b == byte '\t'

/-- Whether a byte ends a line. -/
def endsLine (b : UInt8) : Bool :=
  b == Bytes.newline || b == byte '\r'

/-- A text without the blanks at its start. -/
def skipBlanks (text : Bytes) : Bytes :=
  text.dropWhile isBlank

/-- A text without the blanks, empty lines and comments at its start. -/
def skipFiller (inComment : Bool) : Bytes → Bytes
  | [] => []
  | b :: rest =>
    if b = 0 then b :: rest
    else if inComment then skipFiller (b != Bytes.newline) rest
    else if isBlank b || endsLine b then skipFiller false rest
    else if b = byte '#' then skipFiller true rest
    else b :: rest

/-- What follows the end of a statement: there may be blanks and a comment on its line. -/
def endStatement (text : Bytes) : Option Bytes :=
  match skipBlanks text with
  | [] => some []
  | b :: rest => if endsLine b || b == byte '#' then some (b :: rest) else none

/-- Whether a byte may stand in a key without quotes. -/
def isBare (b : UInt8) : Bool :=
  let c := Bytes.char b
  b < 0x80 && (c.isAlphanum || c == '_' || c == '-')

/-- Reads one part of a key; if it cannot be read, how far it could be. -/
def readKeyPart (text : Bytes) : Except Bytes (Bytes × Bytes) :=
  match text with
  | [] => .error []
  | b :: rest =>
    if b = byte '"' ∨ b = byte '\'' then
      match Text.readLine b rest with
      | some result => .ok result
      | none => .error (Text.nearInLine b rest)
    else
      let part := text.takeWhile isBare
      if part.isEmpty then .error [] else .ok (part, text.dropWhile isBare)

/-- Reads a key, the parts of which are separated by dots; if it cannot be read, how far it could
be. -/
def readKey : Nat → Bytes → Except Bytes (Key × Bytes)
  | 0, _ => .error []
  | fuel + 1, text => do
    let (part, rest) ← readKeyPart (skipBlanks text)
    match cutByte '.' (skipBlanks rest) with
    | some rest =>
      let (key, rest) ← readKey fuel rest
      return ({ key with parents := part :: key.parents }, rest)
    | none => return (⟨[], part⟩, skipBlanks rest)

/-- Reads a key and a byte behind it. -/
def readKeyAnd (c : Char) (fuel : Nat) (text : Bytes) : Except Bytes (Key × Bytes) := do
  let (key, rest) ← readKey fuel text
  match cutByte c rest with
  | some rest => return (key, rest)
  | none => .error []

/-- Whether a byte may stand in a moment. -/
def isMomentByte (b : UInt8) : Bool :=
  Digits.isDigit 10 b || (utf8 "-:Tt .Zz+").contains b

/-- Whether a text starts like a moment: with digits, and not just a zero, and then a dash or a
colon. -/
def startsMoment (text : Bytes) : Bool :=
  let digits := text.takeWhile (Digits.isDigit 10)
  !digits.isEmpty && digits != utf8 "0" &&
    (text.drop digits.length).head?.any fun b => b == byte '-' || b == byte ':'

/-- A text without the spaces at its end. -/
def dropFinalSpaces (text : Bytes) : Bytes :=
  (text.reverse.dropWhile (· == byte ' ')).reverse

/-- Reads a value that is no text and has no parts. It ends only where the text can be read on,
unless it is a number without digits, the end of which is known. -/
def readWord (text : Bytes) : Option (Value × Bytes) :=
  let isOpen (rest : Bytes) : Bool := rest.head? == some 0
  if startsMoment text then
    let rest := text.dropWhile isMomentByte
    if isOpen rest then none
    else (Moment.parse? (dropFinalSpaces (text.takeWhile isMomentByte))).map fun moment =>
      (.moment moment, rest)
  else
    let (word, rest) := Number.cutWord text
    if isOpen rest && !Number.isSpecial word then none
    else (Number.word? word).map fun value => (value, rest)

/-- Reads a value without parts; nothing remains behind one that is broken. -/
def readScalar (text : Bytes) : Expr × Option Bytes :=
  match text with
  | [] => (.broken [], none)
  | b :: rest =>
    if b = byte '"' ∨ b = byte '\'' then
      match Text.read b rest with
      | some (text, rest) => (.scalar (.text text), some rest)
      | none => (.broken (Text.near b rest), none)
    else
      match readWord text with
      | some (value, rest) => (.scalar value, some rest)
      | none => (.broken [], none)

mutual

/-- Reads a value; nothing remains behind one that is broken. -/
def readValue : Nat → Bytes → Expr × Option Bytes
  | 0, _ => (.broken [], none)
  | _ + 1, [] => (.broken [], none)
  | fuel + 1, b :: rest =>
    if b = byte '[' then readItems fuel [] rest
    else if b = byte '\x7b' then readPairs fuel [] rest
    else readScalar (b :: rest)

/-- Reads the items of a list, given those before in reverse. -/
def readItems : Nat → List Expr → Bytes → Expr × Option Bytes
  | 0, items, _ => (.array (.broken [] :: items).reverse, none)
  | fuel + 1, items, text =>
    let text := skipFiller false text
    match cutByte ']' text with
    | some rest => (.array items.reverse, some rest)
    | none =>
      match readValue fuel text with
      | (value, none) => (.array (value :: items).reverse, none)
      | (value, some rest) =>
        let rest := skipFiller false rest
        match cutByte ',' rest, cutByte ']' rest with
        | some rest, _ => readItems fuel (value :: items) rest
        | none, some rest => (.array (value :: items).reverse, some rest)
        | none, none => (.array (.broken [] :: value :: items).reverse, none)

/-- Reads the keys and values of a table between braces, given those before in reverse. -/
def readPairs : Nat → List (Key × Expr) → Bytes → Expr × Option Bytes
  | 0, pairs, _ => (.inline pairs.reverse (some []), none)
  | fuel + 1, pairs, text =>
    let text := skipFiller false text
    match cutByte '\x7d' text with
    | some rest => (.inline pairs.reverse none, some rest)
    | none =>
      match readKeyAnd '=' fuel text with
      | .error near => (.inline pairs.reverse (some near), none)
      | .ok (key, rest) =>
        match readValue fuel (skipBlanks rest) with
        | (value, none) => (.inline ((key, value) :: pairs).reverse none, none)
        | (value, some rest) =>
          let rest := skipFiller false rest
          match cutByte ',' rest, cutByte '\x7d' rest with
          | some rest, _ => readPairs fuel ((key, value) :: pairs) rest
          | none, some rest => (.inline ((key, value) :: pairs).reverse none, some rest)
          | none, none => (.inline ((key, value) :: pairs).reverse (some []), none)

end

/-- Reads the key of a header behind its brackets, of which there may be two. -/
def readHeader (isDouble : Bool) (fuel : Nat) (text : Bytes) : Except Bytes (Key × Bytes) := do
  let (key, rest) ← readKeyAnd ']' fuel text
  if isDouble then
    match cutByte ']' rest with
    | some rest => return (key, rest)
    | none => .error []
  else return (key, rest)

/-- Reads a statement; nothing remains behind one that is broken. -/
def readStatement (fuel : Nat) (text : Bytes) : Statement × Option Bytes :=
  let header (isDouble : Bool) (statement : Key → Statement) (text : Bytes) :
      Statement × Option Bytes :=
    match readHeader isDouble fuel text with
    | .ok (key, rest) => (statement key, some rest)
    | .error near => (.broken near, none)
  match cutByte '[' text with
  | some rest =>
    match cutByte '[' rest with
    | some rest => header true .addTable rest
    | none => header false .openTable rest
  | none =>
    match readKeyAnd '=' fuel text with
    | .error near => (.broken near, none)
    | .ok (key, rest) =>
      let (value, rest) := readValue fuel (skipBlanks rest)
      (.assign key value, rest)

/-- Reads the statements of a text. -/
def readStatements : Nat → Bytes → List Statement
  | 0, _ => [.broken []]
  | fuel + 1, text =>
    match skipFiller false text with
    | [] => []
    | b :: rest =>
      match readStatement (fuel + 1) (b :: rest) with
      | (statement, none) => [statement]
      | (statement, some rest) =>
        match endStatement rest with
        | some rest => statement :: readStatements fuel rest
        | none => [statement, .broken []]

/-- A text without a byte order mark. -/
def dropMark : Bytes → Bytes
  | a :: b :: rest =>
    if (a = 0xff ∧ b = 0xfe) ∨ (a = 0xfe ∧ b = 0xff) then rest
    else if a = 0xef ∧ b = 0xbb ∧ rest.head? = some 0xbf then rest.drop 1
    else a :: b :: rest
  | text => text

/-- Whether a character may stand before the given ones: all but controls may, and of these the tab
and the ends of lines. -/
def isAllowed (code : Nat) (next : List Utf8.Piece) : Bool :=
  if code = 13 then
    match next with
    | .char 10 _ :: _ => true
    | _ => false
  else code == 9 || code == 10 || (0x20 ≤ code && code != 0x7f)

/-- The bytes of some characters, up to the first that may not stand in a document. -/
def readable : List Utf8.Piece → Bytes
  | [] => []
  | .stray _ :: _ => [0]
  | .char code bytes :: rest => if isAllowed code rest then bytes ++ readable rest else [0]

/-- Reads a document. -/
def parse (text : Bytes) : Except Fault Table :=
  let text := readable (Utf8.pieces (dropMark text))
  Statement.document (readStatements (text.length + 2) text)

end TapeMachine.Toml
