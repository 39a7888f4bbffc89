import TapeMachine.Text.Digits
import TapeMachine.Text.Utf8

/-!
# TOML texts

A text stands between quotes. Double quotes allow for escapes and single ones do not; three of
either kind allow for newlines, and a backslash at the end of a line then swallows all white space
up to the next character. A zero byte never stands in a text.
-/

namespace TapeMachine.Toml.Text

/-- How far an escape has been read. -/
inductive Escape where
  /-- No escape is being read. -/
  | idle
  /-- A backslash has been read. -/
  | opened
  /-- A backslash and white space have been read, with a newline or without. -/
  | blank (newline : Bool)
  /-- So many hexadecimal digits are still to come, after this number. -/
  | code (digits : Nat) (value : Nat)

/-- Whether a byte is white space inside a text. -/
def isSpace (b : UInt8) : Bool :=
  b == byte ' ' || b == byte '\t' || b == byte '\r' || b == Bytes.newline

/-- The byte that a letter behind a backslash stands for. -/
def escaped? (b : UInt8) : Option UInt8 :=
  match Bytes.char b with
  | 'b' => some 8
  | 't' => some 9
  | 'n' => some 10
  | 'f' => some 12
  | 'r' => some 13
  | 'e' => some 27
  | '"' => some (byte '"')
  | '\\' => some (byte '\\')
  | _ => none

/-- The number of digits that follow a letter behind a backslash. -/
def codeDigits? (b : UInt8) : Option Nat :=
  match Bytes.char b with
  | 'x' => some 2
  | 'u' => some 4
  | 'U' => some 8
  | _ => none

/-- The text that an escaped text stands for. -/
def unescape : Escape → Bytes → Option Bytes
  | .idle, [] => some []
  | .blank true, [] => some []
  | _, [] => none
  | .idle, b :: rest =>
    if b = byte '\\' then unescape .opened rest else (unescape .idle rest).map (b :: ·)
  | .opened, b :: rest =>
    match escaped? b, codeDigits? b with
    | some c, _ => (unescape .idle rest).map (c :: ·)
    | none, some digits => unescape (.code digits 0) rest
    | none, none => if isSpace b then unescape (.blank (b == Bytes.newline)) rest else none
  -- A backslash at the end of a line takes the white space behind it away, with at least one
  -- newline.
  | .blank newline, b :: rest =>
    if isSpace b then unescape (.blank (newline || b == Bytes.newline)) rest
    else if newline = false then none
    else if b = byte '\\' then unescape .opened rest
    else (unescape .idle rest).map (b :: ·)
  -- A code of four or eight hexadecimal digits.
  | .code digits value, b :: rest =>
    match (Digits.value? b).filter (· < 16) with
    | none => none
    | some d =>
      let value := value * 16 + d
      if 1 < digits then unescape (.code (digits - 1) value) rest
      else if value.isValidChar then (unescape .idle rest).map (Utf8.encode value ++ ·)
      else none

/-- How far an escaped text can be read, if it has an escape with a wrong digit: up to this digit.
What has been read is given latest first. -/
def beforeWrongDigit (read : Bytes) : Escape → Bytes → Bytes
  | .code _ _, [] => read.reverse
  | _, [] => []
  | .code digits value, b :: rest =>
    if b = 0 then []
    else if Digits.isDigit 16 b then
      beforeWrongDigit (b :: read) (if 1 < digits then .code (digits - 1) value else .idle) rest
    else (b :: read).reverse
  | .opened, b :: rest =>
    match codeDigits? b with
    | some digits => beforeWrongDigit (b :: read) (.code digits 0) rest
    | none =>
      if (escaped? b).isSome || isSpace b then beforeWrongDigit (b :: read) .idle rest else []
  | _, b :: rest =>
    beforeWrongDigit (b :: read) (if b = byte '\\' then .opened else .idle) rest

/-- Cuts a text at its closing quote, which has to come before the end of the line: the text, and
what follows the quote. `skip` says whether the next byte stands behind a backslash. -/
def cutLine (quote : UInt8) (escapes skip : Bool) : Bytes → Bytes × Option Bytes
  | [] => ([], none)
  | b :: rest =>
    if b = Bytes.newline ∨ b = 0 then ([b], none)
    else if b = quote ∧ skip = false then ([], some rest)
    else
      let (text, more) := cutLine quote escapes (escapes && !skip && b == byte '\\') rest
      (b :: text, more)

/-- What stands before a byte of a text. -/
inductive Before where
  /-- Nothing of interest. -/
  | other
  /-- A backslash that the byte belongs to. -/
  | backslash
  /-- Two backslashes that belong together. -/
  | backslashes
deriving DecidableEq

/-- What stands before the next byte. -/
def Before.next (escapes : Bool) (before : Before) (b : UInt8) : Before :=
  if escapes ∧ b = byte '\\' then if before = .backslash then .backslashes else .backslash
  else .other

/-- What a run of quotes means: none if it does not close the text, else the quotes that still
belong to it. At most two quotes may stand before the closing three, and one more behind two
backslashes. -/
def closing? (quote : UInt8) (before : Before) (run : Nat) : Option (Option Bytes) :=
  let most := if before = .backslashes then 6 else 5
  if run < 3 then none
  else if run ≤ most then some (some (List.replicate (run - 3) quote))
  else some none

/-- Cuts a text at its three closing quotes, after a run of so many quotes: the text, and what
follows the quotes. -/
def cutLines (quote : UInt8) (escapes : Bool) (run : Nat) (before : Before) :
    Bytes → Bytes × Option Bytes
  | [] =>
    match closing? quote before run with
    | some (some quotes) => (quotes, some [])
    | _ => (List.replicate run quote, none)
  | b :: rest =>
    if b = 0 then (List.replicate run quote ++ [b], none)
    else if b = quote ∧ before ≠ .backslash then cutLines quote escapes (run + 1) before rest
    else match closing? quote before run with
      | some (some quotes) => (quotes, some (b :: rest))
      | some none => (List.replicate run quote, none)
      | none =>
        let (text, more) := cutLines quote escapes 0 (before.next escapes b) rest
        (List.replicate run quote ++ b :: text, more)

/-- A text without a newline at its start. -/
def dropFirstNewline : Bytes → Bytes
  | a :: b :: rest =>
    if a = Bytes.newline then b :: rest
    else if a = byte '\r' ∧ b = Bytes.newline then rest
    else a :: b :: rest
  | [a] => if a = Bytes.newline then [] else [a]
  | [] => []

/-- Reads a text of one line behind its opening quote. -/
def readLine (quote : UInt8) (rest : Bytes) : Option (Bytes × Bytes) := do
  let escapes := quote == byte '"'
  let (raw, rest) := cutLine quote escapes false rest
  let rest ← rest
  let text ← if escapes then unescape .idle raw else some raw
  return (text, rest)

/-- Reads a text of several lines behind its opening quotes. -/
def readLines (quote : UInt8) (rest : Bytes) : Option (Bytes × Bytes) := do
  let escapes := quote == byte '"'
  let (raw, rest) := cutLines quote escapes 0 .other rest
  let rest ← rest
  let raw := dropFirstNewline raw
  let text ← if escapes then unescape .idle raw else some raw
  return (text, rest)

/-- Reads a text behind its first quote. An empty text is told only by the byte behind it. -/
def read (quote : UInt8) (rest : Bytes) : Option (Bytes × Bytes) :=
  match rest with
  | a :: b :: more =>
    if a = quote ∧ b = 0 then none
    else if a = quote ∧ b = quote then readLines quote more
    else readLine quote rest
  | _ => readLine quote rest

/-- How far a text of one line, which cannot be read, makes sense behind its opening quote. -/
def nearInLine (quote : UInt8) (rest : Bytes) : Bytes :=
  if quote = byte '"' then beforeWrongDigit [] .idle (cutLine quote true false rest).1 else []

/-- How far a text, which cannot be read, makes sense behind its first quote. -/
def near (quote : UInt8) (rest : Bytes) : Bytes :=
  match rest with
  | a :: b :: more =>
    if quote = byte '"' ∧ a = quote ∧ b = quote then
      beforeWrongDigit [] .idle (cutLines quote true 0 .other more).1
    else nearInLine quote rest
  | _ => nearInLine quote rest

end TapeMachine.Toml.Text
