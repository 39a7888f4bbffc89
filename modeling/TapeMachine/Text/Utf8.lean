import TapeMachine.Bytes

/-!
# Reading UTF-8

A byte text is read as a sequence of characters. Bytes that belong to no well-formed character,
among them overlong forms, surrogates and numbers above the last code point, stand for themselves.
-/

namespace TapeMachine.Utf8

/-- What a byte text is made of. -/
inductive Piece where
  /-- A well-formed character with this number, in its byte form. -/
  | char (code : Nat) (bytes : Bytes)
  /-- A byte that is part of no character. -/
  | stray (b : UInt8)

/-- Whether `b` continues a character. -/
def isTail (b : UInt8) : Bool :=
  0x80 ≤ b && b ≤ 0xbf

/-- The six low bits of a byte that continues a character. -/
def tailBits (b : UInt8) : Nat :=
  b.toNat % 0x40

/-- The character at the start of a text, and what follows it. -/
def next (first : UInt8) (rest : Bytes) : Piece × Bytes :=
  if first < 0x80 then (.char first.toNat [first], rest)
  else match rest with
    | b :: rest₁ =>
      -- The leads `c0` and `c1` would give characters of one byte.
      if 0xc2 ≤ first && first ≤ 0xdf && isTail b then
        (.char (first.toNat % 0x20 * 0x40 + tailBits b) [first, b], rest₁)
      else match rest₁ with
        | c :: rest₂ =>
          -- Neither overlong forms nor surrogates are characters.
          if 0xe0 ≤ first && first ≤ 0xef && isTail b && isTail c
              && (first != 0xe0 || 0xa0 ≤ b) && (first != 0xed || b ≤ 0x9f) then
            (.char ((first.toNat % 0x10 * 0x40 + tailBits b) * 0x40 + tailBits c) [first, b, c],
              rest₂)
          else match rest₂ with
            | d :: rest₃ =>
              -- Neither overlong forms nor codes beyond `10ffff` are characters.
              if 0xf0 ≤ first && first ≤ 0xf4 && isTail b && isTail c && isTail d
                  && (first != 0xf0 || 0x90 ≤ b) && (first != 0xf4 || b ≤ 0x8f) then
                (.char
                  (((first.toNat % 8 * 0x40 + tailBits b) * 0x40 + tailBits c) * 0x40 + tailBits d)
                  [first, b, c, d], rest₃)
              else (.stray first, rest)
            | [] => (.stray first, rest)
        | [] => (.stray first, rest)
    | [] => (.stray first, rest)

theorem next_length (first : UInt8) (rest : Bytes) : (next first rest).2.length ≤ rest.length := by
  unfold next
  repeat' split
  all_goals simp <;> omega

/-- The pieces of a text. -/
def pieces : Bytes → List Piece
  | [] => []
  | first :: rest => (next first rest).1 :: pieces (next first rest).2
termination_by text => text.length
decreasing_by
  have := next_length first rest
  simp only [List.length_cons]
  omega

/-- Whether a piece is a well-formed character. -/
def Piece.isChar : Piece → Bool
  | .char .. => true
  | .stray _ => false

/-- Whether a text is UTF-8 throughout. -/
def isValid (text : Bytes) : Bool :=
  (pieces text).all Piece.isChar

/-- The bytes of the character with the given number; numbers of no character give U+FFFD. -/
def encode (code : Nat) : Bytes :=
  if code.isValidChar then String.utf8EncodeChar (Char.ofNat code) else [0xef, 0xbf, 0xbd]

end TapeMachine.Utf8
