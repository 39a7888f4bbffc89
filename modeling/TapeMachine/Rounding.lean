/-!
# Roots of limited precision

Roots are computed with numbers of 53 binary digits. A number that has more digits is rounded to the
nearest one that has not, and where two are equally near to the one that ends in a zero. A root is
rounded in the same way, before its fraction is dropped. So the root of a large number can be one
more than the integer below its square root.

The module introduces:

* `Rounding.floorRoot`, `Rounding.nearestRoot`: the integers below and nearest to a square root;
* `Rounding.nearestMultiple`, `Rounding.round`: numbers rounded to the precision;
* `Rounding.squareRoot`: the root of a rounded number, rounded and without its fraction.
-/

namespace TapeMachine.Rounding

/-- How many binary digits there are. -/
def precision : Nat :=
  53

/-- The largest integer whose square is not above `n`. -/
def floorRoot (n : Nat) : Nat :=
  if n = 0 then 0
  else
    let root := 2 * floorRoot (n / 4)
    if (root + 1) * (root + 1) ≤ n then root + 1 else root
termination_by n

/-- The integer nearest to the square root of `n`, which is never halfway between two integers. -/
def nearestRoot (n : Nat) : Nat :=
  let root := floorRoot n
  if root * root + root < n then root + 1 else root

/-- The multiple of `unit` nearest to `n`; of two that are equally near the even one. -/
def nearestMultiple (n unit : Nat) : Nat :=
  let quotient := n / unit
  let rest := n % unit
  if unit < 2 * rest ∨ unit = 2 * rest ∧ quotient % 2 = 1 then (quotient + 1) * unit
  else quotient * unit

/-- The number of limited precision nearest to `n`. -/
def round (n : Nat) : Nat :=
  nearestMultiple n (1 <<< (n.log2 + 1 - precision))

/-- The square root of a word, both rounded, without its fraction. -/
def squareRoot (n : Nat) : Nat :=
  let radicand := round n
  -- A root has half as many digits in front of the point, and the others stand behind it.
  let unit := 1 <<< (precision - (radicand.log2 / 2 + 1))
  nearestRoot (radicand * (unit * unit)) / unit

end TapeMachine.Rounding
