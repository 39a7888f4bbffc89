import TapeMachine.Text.Quoted

/-!
# Names of bytes

Diagnostics name a byte: controls by their mnemonics, other ASCII characters in quotes, and bytes
outside ASCII by their number.
-/

namespace TapeMachine.ByteName

/-- The mnemonics of the control characters from 0 on. -/
def controls : List String := [
  "NUL", "SOH", "STX", "ETX", "EOT", "ENQ", "ACK", "BEL", "BS", "HT", "NL", "VT", "NP", "CR", "SO",
  "SI", "DLE", "DC1", "DC2", "DC3", "DC4", "NAK", "SYN", "ETB", "CAN", "EM", "SUB", "ESC", "FS",
  "GS", "RS", "US"]

/-- A mnemonic in angle brackets. -/
def mnemonic (name : String) : Bytes :=
  utf8 "<" ++ utf8 name ++ utf8 ">"

/-- The printable name of a byte. -/
def name (b : UInt8) : Bytes :=
  match controls[b.toNat]? with
  | some control => mnemonic control
  | none =>
    if b = 0x20 then mnemonic "SP"
    else if b = 0x7f then mnemonic "DEL"
    else if b < 0x7f then Quoted.char b.toNat
    else utf8 "\\x" ++ Bytes.hex b.toNat

/-- The form of a control character with a caret, such as `^C`; other bytes have none. -/
def caretForm (b : UInt8) : Bytes :=
  if b < 0x20 ∨ b = 0x7f then [byte '^', b ^^^ 0x40] else []

end TapeMachine.ByteName
