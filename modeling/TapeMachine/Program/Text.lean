import TapeMachine.Program.Cancellation

/-!
# Program text

Operations on program text as a text: shortening it without a change of meaning, and breaking it
into lines.
-/

namespace TapeMachine.ProgramText

/-- Symbols without an effect that could be seen when no symbol follows them. -/
def isIdleAtEnd (b : UInt8) : Bool :=
  b == byte '-' || b == byte '+' || b == byte '<' || b == byte '>' || b == byte ','

/-- Drops the idle symbols at the end of a text. -/
def trimIdle (text : Bytes) : Bytes :=
  (text.reverse.dropWhile isIdleAtEnd).reverse

/-- Removes moves that cancel each other and idle symbols at the end. -/
def optimize (text : Bytes) : Bytes :=
  trimIdle (cancelMoves text)

/-- The pieces of `width` bytes that a text falls into, the last one possibly shorter. -/
def pieces (width : Nat) (text : Bytes) : List Bytes :=
  if _h : text = [] ∨ width = 0 then []
  else text.take width :: pieces width (text.drop width)
termination_by text.length
decreasing_by
  have hpos : 0 < text.length := List.length_pos_iff.mpr (fun e => _h (Or.inl e))
  have hwidth : width ≠ 0 := fun e => _h (Or.inr e)
  rw [List.length_drop]
  omega

/-- Breaks a text into lines of at most `width` bytes, each ended by a newline. A width that is
not positive leaves the text as it is. -/
def fold (width : Int) (text : Bytes) : Bytes :=
  if width ≤ 0 then text
  else (pieces width.toNat text).flatMap (· ++ [Bytes.newline])

end TapeMachine.ProgramText
