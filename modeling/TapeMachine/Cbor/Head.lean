import TapeMachine.Bytes

/-!
# Heads of CBOR items

A CBOR item starts with a head: three bits for its major type and an argument, which stands in the
other five bits or in the one, two, four or eight bytes that follow. Writing always takes the
shortest form; reading accepts any.
-/

namespace TapeMachine.Cbor

/-- The argument of a head. -/
inductive Argument where
  /-- A number; `wide` tells whether it stands in bytes of its own. -/
  | number (n : Nat) (wide : Nat)
  /-- The mark for a length that is not known beforehand, and for the end of such a length. -/
  | indefinite

/-- The head of an item. -/
structure Head where
  /-- The major type, from 0 to 7. -/
  major : Nat
  /-- The argument. -/
  argument : Argument

/-- The number with the given bytes, the most significant first. -/
def bigEndian (bytes : Bytes) : Nat :=
  bytes.foldl (fun n b => n * 256 + b.toNat) 0

/-- Takes exactly `n` bytes off a text. -/
def takeExact (n : Nat) (text : Bytes) : Option (Bytes × Bytes) :=
  let taken := text.take n
  if taken.length = n then some (taken, text.drop n) else none

/-- An argument that stands in `width` bytes of its own. -/
def wideArgument (major width : Nat) (rest : Bytes) : Option (Head × Bytes) :=
  (takeExact width rest).map fun (taken, rest) => (⟨major, .number (bigEndian taken) width⟩, rest)

/-- Reads a head. -/
def Head.read : Bytes → Option (Head × Bytes)
  | [] => none
  | first :: rest =>
    let major := first.toNat / 32
    let info := first.toNat % 32
    if info < 24 then some (⟨major, .number info 0⟩, rest)
    else match info with
      | 24 => wideArgument major 1 rest
      | 25 => wideArgument major 2 rest
      | 26 => wideArgument major 4 rest
      | 27 => wideArgument major 8 rest
      | 31 => some (⟨major, .indefinite⟩, rest)
      | _ => none

/-- So many bytes of a number, the most significant first. -/
def toBigEndian : Nat → Nat → Bytes
  | 0, _ => []
  | width + 1, n => toBigEndian width (n / 256) ++ [n.toUInt8]

/-- The first byte of a head. -/
def initial (major info : Nat) : UInt8 :=
  (major * 32 + info).toUInt8

/-- Writes a head in its shortest form. -/
def Head.write (major n : Nat) : Bytes :=
  if n < 24 then [initial major n]
  else if n < 0x100 then initial major 24 :: toBigEndian 1 n
  else if n < 0x10000 then initial major 25 :: toBigEndian 2 n
  else if n < 0x100000000 then initial major 26 :: toBigEndian 4 n
  else initial major 27 :: toBigEndian 8 n

/-- Writes an integer. -/
def writeInt : Int → Bytes
  | .ofNat n => Head.write 0 n
  | .negSucc n => Head.write 1 n

end TapeMachine.Cbor
