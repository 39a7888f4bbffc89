import TapeMachine.Bytes
import TapeMachine.Word

/-!
# Memory for a tape

A tape keeps its cells in pages of equal size, and enters the pages in a list that reaches as far as
the last page in use. Where memory is bounded, neither the list nor a page may be larger than what
addresses of 48 bits reach. Counts are words, so the number of places to add to the list wraps
around.
-/

namespace TapeMachine

/-- Why there is no memory for a cell. -/
inductive MemoryFault where
  /-- The list of pages would become too large. -/
  | growth
  /-- The number of new places, or the size of a page, is out of range. -/
  | size
  /-- The list of pages has no place with this index, since counting wrapped around. -/
  | place (index length : Nat)
deriving DecidableEq, Repr

/-- The wording of a memory fault. -/
def MemoryFault.message : MemoryFault → Bytes
  | .growth => utf8 "runtime error: growslice: len out of range"
  | .size => utf8 "runtime error: makeslice: len out of range"
  | .place index length =>
    utf8 "runtime error: index out of range [" ++ Bytes.ofNat index ++ utf8 "] with length " ++
      Bytes.ofNat length

/-- How much memory there is. -/
inductive Memory where
  /-- As much as it takes. -/
  | endless
  /-- As much as addresses of 48 bits reach. -/
  | addressable
deriving DecidableEq, Repr

namespace Memory

/-- How many bytes addresses of 48 bits reach. -/
def reach : Nat :=
  0x1000000000000

/-- How many bytes a place in the list of pages takes. -/
def placeSize : Nat :=
  8

/-- Why a list of pages that has so many places cannot grow up to an index behind them, if so. -/
def growthFault? (places index : Nat) : Option MemoryFault :=
  let wanted := (index + 1 + (Word.count - places)) % Word.count
  if Word.signBound ≤ wanted then some .size
  else if reach / placeSize < places + wanted then some .growth
  else if places + wanted ≤ index then some (.place index (places + wanted))
  else none

/-- Why a page cannot be set up, if so, given how many places the list of pages has. A page that has
a place already is no larger than those before it. -/
def fault? (pageSize places index : Nat) : Memory → Option MemoryFault
  | .endless => none
  | .addressable =>
    if index < places then none
    else (growthFault? places index).orElse fun _ => if reach < pageSize then some .size else none

end Memory

end TapeMachine
