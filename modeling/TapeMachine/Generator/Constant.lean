import TapeMachine.Generator.Session
import TapeMachine.Rounding

/-!
# Constants

A constant is added either as a plain run of symbols or, where that is shorter, by a loop that
counts one factor down on the next cell and adds the other one in each pass, plus a remainder. The
loop is only used if the next cell is known to be zero, and it leaves it at zero. Constants are
words.
-/

namespace TapeMachine.Generator

/-- A number as a product and a remainder: `counter * step + rest`. -/
structure Factors where
  /-- How often the loop runs. -/
  counter : Int
  /-- What each pass adds. -/
  step : Int
  /-- What is added once. -/
  rest : Int

/-- The factors of a positive number: the counter is its square root, as far as the precision of
roots goes, and the quotient is rounded to the nearest. -/
def Factors.of (n : Nat) : Factors :=
  let root := Rounding.squareRoot n
  let rest := n % root
  let step := (n - rest) / root
  -- With one more pass the rest gets negative, but smaller.
  if root / 2 < rest then ⟨root, step + 1, (rest : Int) - root⟩ else ⟨root, step, rest⟩

/-- The number of symbols that adding by factors takes. -/
def Factors.cost (factors : Factors) : Int :=
  factors.counter + factors.step + factors.rest.natAbs + 7

/-- The code that adds the product and the remainder, both with the given sign. -/
def Factors.code (factors : Factors) (sign : Int) : Fragment :=
  Fragment.moving 1 ++ Fragment.adding factors.counter ++
    [.loop (Fragment.moving (-1) ++ Fragment.adding (sign * factors.step) ++
      Fragment.moving 1 ++ Fragment.adding (-1))] ++
    Fragment.moving (-1) ++ Fragment.adding (sign * factors.rest)

/-- The code that adds a constant, given whether the next cell is known to be zero. -/
def addingCode (amount : Int) (nextIsZero : Bool) : Fragment :=
  let factors := Factors.of amount.natAbs
  -- The least word has no magnitude that is a word.
  if amount ≠ Word.least ∧ factors.cost < amount.natAbs ∧ nextIsZero then
    factors.code (if amount < 0 then -1 else 1)
  else Fragment.adding amount

/-- Adds a constant to the cell under the cursor. -/
def add (amount : Int) : Gen Fragment := do
  let amount := Word.wrap amount
  if amount = 0 then return []
  modify (·.bump amount)
  -- The next cell is looked up after the addition has been noted.
  let s ← get
  return [.constant amount (addingCode amount (s.knowledge.isZero (s.cursor + 1)))]

/-- Subtracts a constant from the cell under the cursor. -/
def sub (amount : Int) : Gen Fragment :=
  add (-amount)

/-- Sets the cell under the cursor to a constant. -/
def set (value : Int) : Gen Fragment :=
  sequence [clear, add value]

/-- Adds a constant to a cell. -/
def addAt (pos amount : Int) : Gen Fragment :=
  sequence [moveTo pos, add amount]

/-- Sets a cell to a constant. -/
def setAt (pos value : Int) : Gen Fragment :=
  sequence [moveTo pos, set value]

end TapeMachine.Generator
