import TapeMachine.Register

/-!
# What is known of the cells

While code is generated, it is tracked what the cells will hold when the code so far has run on a
fresh tape. In straight-line code a cell that was never touched is known to be zero. Inside a loop
nothing that was known before it is trusted, as the body may run any number of times; only what the
body itself establishes is. A pad is known to be zero everywhere, until it is used for anything else
than building a constant: then it is dirty and treated like any other cell.
-/

namespace TapeMachine.Generator

/-- What is known of some cells: the value, or that nothing is known. -/
abbrev Facts := List (Int × Option Int)

/-- Replaces what is known of a cell. -/
def Facts.set (pos : Int) (value : Option Int) : Facts → Facts
  | [] => [(pos, value)]
  | (p, v) :: rest => if p = pos then (pos, value) :: rest else (p, v) :: Facts.set pos value rest

/-- The body of a loop that is being generated. -/
structure Frame where
  /-- The cell the loop tests. -/
  control : Int
  /-- What the body has established. -/
  facts : Facts := []

/-- What is known of the cells. -/
structure Knowledge where
  /-- What is known outside all loops. -/
  base : Facts := []
  /-- The open loops, innermost first. -/
  loops : List Frame := []
  /-- The dirty pads. -/
  dirty : List Int := []

namespace Knowledge

/-- Whether a cell is a pad that is zero everywhere. -/
def isCleanPad (k : Knowledge) (pos : Int) : Bool :=
  Register.isPad pos && !k.dirty.contains pos

/-- What is known of a cell at the current point of the code. -/
def known (k : Knowledge) (pos : Int) : Option Int :=
  if k.isCleanPad pos then some 0
  else match k.loops with
    -- Outside of loops all cells that were not touched are still zero.
    | [] => (k.base.lookup pos).getD (some 0)
    -- In a loop, what was known before need not hold in later passes.
    | frame :: _ => (frame.facts.lookup pos).getD none

/-- Whether a cell is known to be zero. -/
def isZero (k : Knowledge) (pos : Int) : Bool :=
  k.known pos == some 0

/-- Sets what is known of a cell, without regard to pads. -/
def assume (k : Knowledge) (pos : Int) (value : Option Int) : Knowledge :=
  match k.loops with
  | [] => { k with base := k.base.set pos value }
  | frame :: outer => { k with loops := { frame with facts := frame.facts.set pos value } :: outer }

/-- Takes account of a cell being written. -/
def learn (k : Knowledge) (pos : Int) (value : Option Int) : Knowledge :=
  -- A pad that is written once is dirty for good.
  let k := if Register.isPad pos then { k with dirty := k.dirty.insert pos } else k
  k.assume pos value

/-- Opens a loop. -/
def enter (k : Knowledge) (control : Int) : Knowledge :=
  { k with loops := { control } :: k.loops }

/-- What is known of a cell after a loop, given what its body established: what held before and
after alike. -/
def merge (k : Knowledge) (pos : Int) (after : Option Int) : Knowledge :=
  let before := k.known pos
  k.assume pos (if before = after then before else none)

/-- Closes the innermost loop. Its control cell is zero then. -/
def leave (k : Knowledge) : Option Knowledge :=
  match k.loops with
  | [] => none
  | body :: outer =>
    -- The body may have run any number of times, also never.
    let k := body.facts.foldl (fun k (pos, after) => k.merge pos after) { k with loops := outer }
    some (k.assume body.control (some 0))

end Knowledge

end TapeMachine.Generator
