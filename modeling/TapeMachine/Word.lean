/-!
# Words

Counts and positions are limited by words of 64 bits.
-/

namespace TapeMachine.Word

/-- How many words there are. -/
abbrev count : Nat :=
  0x10000000000000000

/-- One past the largest signed word, and the size of the smallest one. -/
abbrev signBound : Nat :=
  0x8000000000000000

/-- Whether an integer is a signed word. -/
def isSigned (n : Int) : Bool :=
  -(signBound : Int) ≤ n && n < (signBound : Int)

/-- The signed word that an integer wraps around to. -/
def wrap (n : Int) : Int :=
  n.bmod count

/-- The least signed word. It has no positive counterpart. -/
abbrev least : Int :=
  -0x8000000000000000

end TapeMachine.Word
