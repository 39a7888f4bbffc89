import TapeMachine.Log.Stamp
import TapeMachine.Text.Quoted

/-!
# Log records

A log record has a level, a message and named values. It is written on one line, either as text
with `key=value` pairs or as a JSON object, and with a time stamp in front if there is one.
-/

namespace TapeMachine.Log

/-- How important a record is. -/
inductive Level where
  | debug
  | info
  | warn
  | error
deriving DecidableEq, Repr

/-- The rank of a level. -/
def Level.rank : Level → Nat
  | .debug => 0
  | .info => 1
  | .warn => 2
  | .error => 3

/-- The name of a level. -/
def Level.name : Level → String
  | .debug => "DEBUG"
  | .info => "INFO"
  | .warn => "WARN"
  | .error => "ERROR"

/-- A named value. -/
inductive Value where
  | text (s : Bytes)
  | number (n : Int)

/-- A record. -/
structure Record where
  /-- How important it is. -/
  level : Level
  /-- What happened. -/
  message : Bytes
  /-- Values that say more. -/
  attributes : List (String × Value) := []

/-- The forms a record can be written in. -/
inductive Format where
  | text
  | json
deriving DecidableEq, Repr

namespace Text

/-- Whether a piece of text has to be quoted: blanks, equals signs, quotes, controls, unprintable
characters, the replacement character and stray bytes do. -/
def forcesQuotes : Utf8.Piece → Bool
  | .char code _ =>
    if code < 0x80 then code ≤ 0x20 || code == '='.toNat || code == '"'.toNat
    else code == 0xfffd || !Printable.isPrintable code
  | .stray _ => true

/-- A text value, quoted where it has to be. -/
def string (s : Bytes) : Bytes :=
  if s.isEmpty || (Utf8.pieces s).any forcesQuotes then Quoted.text s else s

/-- A value. -/
def value : Value → Bytes
  | .text s => string s
  | .number n => Bytes.ofInt n

/-- The time stamp in front of a record in text form. -/
def stamp (s : Stamp) : Bytes :=
  utf8 "time=" ++ s.coarse ++ utf8 " "

/-- A record in text form. -/
def record (s : Option Stamp) (r : Record) : Bytes :=
  s.elim [] stamp ++ utf8 "level=" ++ utf8 r.level.name ++ utf8 " msg=" ++ string r.message ++
    r.attributes.flatMap fun (key, v) => utf8 " " ++ string (utf8 key) ++ utf8 "=" ++ value v

end Text

namespace Json

/-- A piece of text inside a JSON string. -/
def piece : Utf8.Piece → Bytes
  | .char code bytes =>
    if code = '"'.toNat ∨ code = '\\'.toNat then byte '\\' :: bytes
    else if code = 10 then utf8 "\\n"
    else if code = 13 then utf8 "\\r"
    else if code = 9 then utf8 "\\t"
    else if code < 0x20 ∨ code = 0x2028 ∨ code = 0x2029 then utf8 "\\u" ++ Quoted.hexDigits 4 code
    else bytes
  | .stray _ => utf8 "\ufffd"

/-- A JSON string. -/
def string (s : Bytes) : Bytes :=
  utf8 "\"" ++ (Utf8.pieces s).flatMap piece ++ utf8 "\""

/-- A value. -/
def value : Value → Bytes
  | .text s => string s
  | .number n => Bytes.ofInt n

/-- The time stamp in front of a record in JSON form. -/
def stamp (s : Stamp) : Bytes :=
  utf8 "\"time\":" ++ string s.fine ++ utf8 ","

/-- A record in JSON form. -/
def record (s : Option Stamp) (r : Record) : Bytes :=
  utf8 "\x7b" ++ s.elim [] stamp ++ utf8 "\"level\":" ++ string (utf8 r.level.name) ++
    utf8 ",\"msg\":" ++ string r.message ++
    (r.attributes.flatMap fun (key, v) => utf8 "," ++ string (utf8 key) ++ utf8 ":" ++ value v) ++
    utf8 "\x7d"

end Json

/-- A record on a line of its own. -/
def Record.line (r : Record) (stamp : Option Stamp) : Format → Bytes
  | .text => Text.record stamp r ++ [Bytes.newline]
  | .json => Json.record stamp r ++ [Bytes.newline]

end TapeMachine.Log
