/-!
# Byte texts

Program texts, input, output and messages are all plain sequences of bytes: a name or a string may
hold bytes that are no valid UTF-8, and they have to come out again unchanged.
-/

namespace TapeMachine

/-- A text as the bytes it is made of. -/
abbrev Bytes := List UInt8

/-- The UTF-8 bytes of a text. -/
def utf8 (s : String) : Bytes :=
  s.toList.flatMap String.utf8EncodeChar

/-- The bytes of a single ASCII character. -/
def byte (c : Char) : UInt8 :=
  c.toUInt8

namespace Bytes

/-- The character with the same number as a byte, used to compare bytes with ASCII literals. -/
def char (b : UInt8) : Char :=
  Char.ofUInt8 b

/-- A newline. -/
def newline : UInt8 :=
  10

/-- A natural number in decimal. -/
def ofNat (n : Nat) : Bytes :=
  (Nat.toDigits 10 n).map Char.toUInt8

/-- An integer in decimal, with a sign only when negative. -/
def ofInt : Int → Bytes
  | .ofNat n => ofNat n
  | .negSucc n => byte '-' :: ofNat (n + 1)

/-- An integer in decimal, with a sign in any case. -/
def signed : Int → Bytes
  | .ofNat n => byte '+' :: ofNat n
  | .negSucc n => byte '-' :: ofNat (n + 1)

/-- A natural number in lower case hexadecimal. -/
def hex (n : Nat) : Bytes :=
  (Nat.toDigits 16 n).map Char.toUInt8

/-- `text` right-aligned in a field of `width` bytes, filled up with `fill`. -/
def padLeft (fill : UInt8) (width : Nat) (text : Bytes) : Bytes :=
  List.replicate (width - text.length) fill ++ text

/-- The given texts one after another with `separator` between them. -/
def joinWith (separator : Bytes) (texts : List Bytes) : Bytes :=
  (texts.intersperse separator).flatten

/-- The text without a final newline, if it has one. -/
def dropFinalNewline (text : Bytes) : Bytes :=
  if text.getLast? = some newline then text.dropLast else text

/-- Splits a text at its first newline: the line before it and what follows. -/
def cutLine : Bytes → Option (Bytes × Bytes)
  | [] => none
  | b :: rest =>
    if b = newline then some ([], rest)
    else (cutLine rest).map fun (line, more) => (b :: line, more)

/-- The pieces of a text between newlines, at least one. -/
def lines : Bytes → List Bytes
  | [] => [[]]
  | b :: rest =>
    if b = newline then [] :: lines rest
    else match lines rest with
      | [] => [[b]]
      | line :: more => (b :: line) :: more

end Bytes

end TapeMachine
