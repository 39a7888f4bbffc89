import Mathlib.Data.Nat.Sqrt
import Mathlib.Tactic.Linarith
import Mathlib.Tactic.Ring
import TapeMachine.Rounding

/-!
# Rounded roots

A rounded root is the integer below the square root as long as the digits behind the point suffice
to tell the two apart. A number below `2 ^ 52` has a root of at most 26 binary digits in front of
the point, so that there are 27 digits behind it, and the root is further from the next integer than
rounding can take it. Beyond that a root may be rounded up to the next integer.

The module introduces:

* `Rounding.floorRoot_eq_sqrt`: the root found bit by bit is `Nat.sqrt`;
* `Rounding.nearestRoot_bounds`: the nearest root is at most one half away;
* `Rounding.squareRoot_eq_sqrt`: the root of a number below `2 ^ 52` is exact;
* `Rounding.squareRoot_pos`: the root of no other number than zero is zero.
-/

namespace TapeMachine.Rounding

variable {n m : Nat}

/-! ### Roots of integers -/

/-- Twice the root of a quarter of `n` is the root of `n`, up to one. -/
private theorem bounds_of_quarter {root : Nat} (h : root = Nat.sqrt (n / 4)) :
    2 * root * (2 * root) ≤ n ∧ n < (2 * root + 2) * (2 * root + 2) := by
  obtain ⟨hle, hlt⟩ := Nat.eq_sqrt.mp h
  have hlow : 2 * root * (2 * root) = 4 * (root * root) := Nat.mul_mul_mul_comm 2 root 2 root
  have hhigh : (2 * root + 2) * (2 * root + 2) = 4 * ((root + 1) * (root + 1)) :=
    Nat.mul_mul_mul_comm 2 (root + 1) 2 (root + 1)
  omega

/-- The root found bit by bit is the largest integer whose square is not above `n`. -/
theorem floorRoot_eq_sqrt (n : Nat) : floorRoot n = Nat.sqrt n := by
  fun_induction floorRoot n with
  | case1 => rfl
  | case2 n _ root hodd ih => exact Nat.eq_sqrt.mpr ⟨hodd, (bounds_of_quarter ih).2⟩
  | case3 n _ root heven ih =>
    exact Nat.eq_sqrt.mpr ⟨(bounds_of_quarter ih).1, Nat.lt_of_not_ge heven⟩

/-- The nearest root `r` is less than one half away from the square root of `n`, which lies between
`r - 1 / 2` and `r + 1 / 2`. -/
theorem nearestRoot_bounds (hn : n ≠ 0) :
    nearestRoot n * nearestRoot n < n + nearestRoot n ∧
      n ≤ nearestRoot n * nearestRoot n + nearestRoot n := by
  obtain ⟨hle, hlt⟩ := Nat.eq_sqrt.mp (floorRoot_eq_sqrt n)
  have hsquare : (floorRoot n + 1) * (floorRoot n + 1) =
      floorRoot n * floorRoot n + 2 * floorRoot n + 1 := by ring
  rw [nearestRoot]
  split
  · omega
  · -- The root is not zero, as `n` is not.
    have hroot : floorRoot n ≠ 0 := by
      intro hzero
      rw [hzero] at hlt
      omega
    omega

/-- The nearest root is not below an integer `m` whose square is not above `n`. -/
theorem le_nearestRoot (h : m * m ≤ n) : m ≤ nearestRoot n := by
  by_contra hlt
  have hnext : (nearestRoot n + 1) * (nearestRoot n + 1) ≤ m * m :=
    Nat.mul_self_le_mul_self (by omega)
  have hsquare : (nearestRoot n + 1) * (nearestRoot n + 1) =
      nearestRoot n * nearestRoot n + 2 * nearestRoot n + 1 := by ring
  have hbound := (nearestRoot_bounds (n := n) (by omega)).2
  omega

/-- The nearest root is below an integer `m` if the square root of `n` is not above `m - 1 / 2`. -/
theorem nearestRoot_lt (hm : m ≠ 0) (h : n + m ≤ m * m) : nearestRoot n < m := by
  by_cases hn : n = 0
  · subst hn
    have hzero : nearestRoot 0 = 0 := by
      rw [nearestRoot, floorRoot_eq_sqrt]
      rfl
    omega
  · by_contra hge
    -- Beyond `m` the squares are even further from `n`.
    obtain ⟨k, hk⟩ := Nat.exists_eq_add_of_le (Nat.le_of_not_lt hge)
    have hbound := (nearestRoot_bounds hn).1
    have hsquare : nearestRoot n * nearestRoot n = m * m + (2 * m * k + k * k) := by
      rw [hk]
      ring
    have hfar : k ≤ 2 * m * k := Nat.le_mul_of_pos_left k (by omega)
    omega

/-! ### Roots of limited precision -/

/-- Numbers of no more digits than the precision are left as they are. -/
theorem round_eq_self (h : n < 2 ^ precision) : round n = n := by
  have hdigits : n.log2 + 1 - precision = 0 := by
    by_cases hn : n = 0
    · subst hn
      rfl
    · have hlog : n.log2 < precision := (Nat.log2_lt hn).mpr h
      omega
  rw [round, hdigits, Nat.shiftLeft_zero, nearestMultiple, Nat.mod_one, if_neg (by omega),
    Nat.div_one, Nat.mul_one]

/-- Numbers are not rounded down to zero. -/
theorem round_ne_zero (hn : n ≠ 0) : round n ≠ 0 := by
  have hunit : 2 ^ (n.log2 + 1 - precision) ≤ n := by
    refine (Nat.pow_le_pow_right (by decide) ?_).trans (Nat.log2_self_le hn)
    have hprecision : precision = 53 := rfl
    omega
  have hquotient : 0 < n / 2 ^ (n.log2 + 1 - precision) := Nat.div_pos hunit (by positivity)
  rw [round, Nat.one_shiftLeft, nearestMultiple]
  split
  · positivity
  · positivity

/-- The root of no other number than zero is zero. -/
theorem squareRoot_pos (hn : n ≠ 0) : 0 < squareRoot n := by
  rw [squareRoot, Nat.one_shiftLeft]
  refine Nat.div_pos (le_nearestRoot ?_) (by positivity)
  exact Nat.le_mul_of_pos_left _ (Nat.pos_of_ne_zero (round_ne_zero hn))

/-- A root of `n`, with digits that count `unit` to an integer, is that of the integer below it if
`unit` exceeds the root: so far is the root from the next integer. -/
theorem nearestRoot_div_eq_sqrt {unit : Nat} (h : Nat.sqrt n < unit) :
    nearestRoot (n * (unit * unit)) / unit = Nat.sqrt n := by
  obtain ⟨hle, hlt⟩ := Nat.eq_sqrt.mp (rfl : Nat.sqrt n = Nat.sqrt n)
  generalize Nat.sqrt n = root at h hle hlt
  have hunit : 0 < unit := by omega
  refine Nat.div_eq_of_lt_le (le_nearestRoot ?_) (nearestRoot_lt ?_ ?_)
  · calc root * unit * (root * unit) = root * root * (unit * unit) := by ring
      _ ≤ n * (unit * unit) := Nat.mul_le_mul_right _ hle
  · positivity
  · -- What `n` is short of the next square is at least one, and `unit` times the next root is less
    -- than `unit` times `unit`.
    calc n * (unit * unit) + (root + 1) * unit ≤ n * (unit * unit) + unit * unit :=
          Nat.add_le_add_left (Nat.mul_le_mul_right unit h) _
      _ = (n + 1) * (unit * unit) := by ring
      _ ≤ (root + 1) * (root + 1) * (unit * unit) := Nat.mul_le_mul_right _ hlt
      _ = (root + 1) * unit * ((root + 1) * unit) := by ring

/-- The root of a number below `2 ^ 52` is the integer below its square root. -/
theorem squareRoot_eq_sqrt (h : n < 2 ^ 52) : squareRoot n = Nat.sqrt n := by
  have hround : round n = n := round_eq_self (h.trans (by decide))
  rw [squareRoot, hround, Nat.one_shiftLeft]
  apply nearestRoot_div_eq_sqrt
  by_cases hn : n = 0
  · subst hn
    decide
  · have hlog : n.log2 < 52 := (Nat.log2_lt hn).mpr h
    -- The root has no more digits than half of those of `n`, which are no more than stand behind
    -- the point.
    have hroot : Nat.sqrt n < 2 ^ (n.log2 / 2 + 1) := by
      rw [Nat.sqrt_lt, ← Nat.pow_add]
      refine Nat.lt_log2_self.trans_le (Nat.pow_le_pow_right (by decide) (by omega))
    refine hroot.trans_le (Nat.pow_le_pow_right (by decide) ?_)
    have hprecision : precision = 53 := rfl
    omega

/-- The root of `67108865 ^ 2 - 1` is rounded up. -/
example : squareRoot (2 ^ 52 + 2 ^ 27) = 67108865 ∧ Nat.sqrt (2 ^ 52 + 2 ^ 27) = 67108864 := by
  decide +kernel

end TapeMachine.Rounding
