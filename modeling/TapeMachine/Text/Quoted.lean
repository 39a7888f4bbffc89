import TapeMachine.Text.Printable
import TapeMachine.Text.Utf8

/-!
# Quoted text

A quoted text stands between quotes and shows every byte: printable characters as they are, the
usual controls and the quote itself behind a backslash, and everything else by its number.
-/

namespace TapeMachine.Quoted

/-- The letter that stands for a control character behind a backslash. -/
def controlLetter? : Nat → Option Char
  | 7 => some 'a'
  | 8 => some 'b'
  | 9 => some 't'
  | 10 => some 'n'
  | 11 => some 'v'
  | 12 => some 'f'
  | 13 => some 'r'
  | _ => none

/-- `width` hexadecimal digits of a number. -/
def hexDigits (width n : Nat) : Bytes :=
  Bytes.padLeft (byte '0') width (Bytes.hex n)

/-- A character inside quotes: as it is, behind a backslash, or by its number. -/
def character (quote : Char) (code : Nat) (bytes : Bytes) : Bytes :=
  if code = quote.toNat ∨ code = '\\'.toNat then byte '\\' :: bytes
  else if Printable.isPrintable code then bytes
  else match controlLetter? code with
    | some letter => [byte '\\', byte letter]
    | none =>
      if code < 0x20 ∨ code = 0x7f then utf8 "\\x" ++ hexDigits 2 code
      else if code < 0x10000 then utf8 "\\u" ++ hexDigits 4 code
      else utf8 "\\U" ++ hexDigits 8 code

/-- A piece of text inside quotes. -/
def piece (quote : Char) : Utf8.Piece → Bytes
  | .char code bytes => character quote code bytes
  | .stray b => utf8 "\\x" ++ hexDigits 2 b.toNat

/-- A text in double quotes. -/
def text (s : Bytes) : Bytes :=
  utf8 "\"" ++ (Utf8.pieces s).flatMap (piece '"') ++ utf8 "\""

/-- The character with the given number in single quotes. -/
def char (code : Nat) : Bytes :=
  utf8 "'" ++ character '\'' code (Utf8.encode code) ++ utf8 "'"

end TapeMachine.Quoted
