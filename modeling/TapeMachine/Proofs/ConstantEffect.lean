import TapeMachine.Generator.Constant
import TapeMachine.Generator.Printing
import TapeMachine.Proofs.FragmentEffect
import TapeMachine.Proofs.RoundedRoot

/-!
# What the code of constants does

A constant may be added by a loop that counts on the next cell, and blanks are set up by a loop that
counts on a pad. Both loops pass through states in which the counting cell is not zero, and both
leave it at zero.

The module introduces:

* `Generator.Factors.effect_code`: what adding by factors does, whatever the counting cell holds;
* `Generator.effect_addingCode_iff`: when the code of a constant adds it;
* `Generator.cases_of_effect_addingCode`: how a constant that is added changes the cells;
* `Generator.effect_blanksCode`: counting blanks adds a blank to two cells.
-/

namespace TapeMachine

/-! ### Constants by factors -/

namespace Generator

open Rounding (squareRoot)

namespace Factors

/-- The factors of a number and its remainder give the number again. -/
theorem sum_of (n : Nat) :
    (Factors.of n).counter * (Factors.of n).step + (Factors.of n).rest = n := by
  have hdvd : squareRoot n ∣ n - n % squareRoot n := Nat.dvd_sub_mod n
  have hproduct :
      squareRoot n * ((n - n % squareRoot n) / squareRoot n) + n % squareRoot n = n := by
    rw [Nat.mul_div_cancel' hdvd]
    exact Nat.sub_add_cancel (Nat.mod_le n _)
  have hcast : (squareRoot n : Int) * ((n - n % squareRoot n) / squareRoot n : Nat) +
      (n % squareRoot n : Nat) = n := by
    exact_mod_cast hproduct
  simp only [Factors.of]
  split
  -- A large remainder is rounded up, so that what is left is negative.
  · simp only [Int.mul_add, Int.mul_one]
    omega
  · exact hcast

/-- A cell and its right neighbour, with the cursor on the neighbour. -/
private def pair (s : Snapshot) (value count : UInt8) : Snapshot :=
  ((s.set s.cursor value).set (s.cursor + 1) count).goTo (s.cursor + 1)

/-- One pass of the loop: the cell gets a step, and the neighbour is counted down. -/
private theorem pass_pair (step : Int) {s : Snapshot} (hs : OnTape s.cursor)
    (hnext : OnTape (s.cursor + 1)) (value count : UInt8) :
    Fragment.effect (Fragment.moving (-1) ++ Fragment.adding step ++ Fragment.moving 1 ++
      Fragment.adding (-1)) (pair s value count)
        (.done (pair s (value + UInt8.ofInt step) (count - 1))) := by
  have hne : s.cursor ≠ s.cursor + 1 := by omega
  simp only [Fragment.effect_append, Effect.seq_assoc, Fragment.effect_moving_right,
    Fragment.effect_moving_left, Fragment.effect_adding]
  rw [Effect.move_seq_iff (Int.add_neg_cancel_right s.cursor 1) hs, Effect.add_seq_iff,
    Effect.move_seq_iff (by rfl) hnext, Effect.of_iff, Snapshot.add]
  simp only [pair, Snapshot.goTo_goTo, Snapshot.put_goTo, Snapshot.here_goTo,
    Snapshot.cells_set_of_ne hne, Snapshot.cells_set_self, add_ofInt_neg_one,
    Snapshot.set_comm hne.symm, Snapshot.set_set]

/-- Adding by factors adds the product and the remainder, and one more step for each unit that the
right neighbour holds; it leaves the neighbour at zero. -/
theorem effect_code (factors : Factors) (sign : Int) {s : Snapshot} (hs : OnTape s.cursor)
    (hnext : OnTape (s.cursor + 1)) :
    Fragment.effect (factors.code sign) s (.done ((s.put
      (s.here + UInt8.ofInt (sign * (factors.counter * factors.step + factors.rest)) +
        s.cells (s.cursor + 1) * UInt8.ofInt (sign * factors.step))).set (s.cursor + 1) 0)) := by
  have hne : s.cursor ≠ s.cursor + 1 := by omega
  -- The neighbour is counted down from `count`; while it holds `v`, the cell has got a step for
  -- each of the passes before.
  let count := s.cells (s.cursor + 1) + UInt8.ofInt factors.counter
  have hloop := Effect.loop_countdown
    (fun v => pair s (s.here + (count - v) * UInt8.ofInt (sign * factors.step)) v)
    (fun v => by simp [pair])
    (fun v _ => by
      have hpass := pass_pair (sign * factors.step) hs hnext
        (s.here + (count - v) * UInt8.ofInt (sign * factors.step)) v
      have hstep : s.here + (count - v) * UInt8.ofInt (sign * factors.step) +
          UInt8.ofInt (sign * factors.step) =
            s.here + (count - (v - 1)) * UInt8.ofInt (sign * factors.step) := by
        grind
      rwa [hstep] at hpass) count
  rw [← Fragment.effect_loop] at hloop
  have hstart : pair s (s.here + (count - count) * UInt8.ofInt (sign * factors.step)) count =
      (s.goTo (s.cursor + 1)).put count := by
    have hsame : s.here + (count - count) * UInt8.ofInt (sign * factors.step) = s.here := by grind
    rw [hsame, pair, Snapshot.set_here_self, Snapshot.put_goTo]
  simp only [code, Fragment.effect_append, Effect.seq_assoc, Fragment.effect_moving_right,
    Fragment.effect_moving_left, Fragment.effect_adding]
  rw [Effect.move_seq_iff rfl hnext, Effect.add_seq_iff]
  simp only [Snapshot.here_goTo]
  rw [← hstart]
  refine Effect.seq_of_done hloop ?_
  rw [Effect.move_seq_iff (Int.add_neg_cancel_right s.cursor 1) hs, Effect.of_iff, Snapshot.add]
  -- Behind the loop the cell has got a step for each pass; the remainder is added at last.
  have hsum : s.here + (count - 0) * UInt8.ofInt (sign * factors.step) +
      UInt8.ofInt (sign * factors.rest) =
        s.here + UInt8.ofInt (sign * (factors.counter * factors.step + factors.rest)) +
          s.cells (s.cursor + 1) * UInt8.ofInt (sign * factors.step) := by
    simp only [count, UInt8.ofInt_mul, UInt8.ofInt_add]
    grind
  simp only [pair, Snapshot.goTo_goTo, Snapshot.put_goTo, Snapshot.here_goTo,
    Snapshot.cells_set_of_ne hne, Snapshot.cells_set_self, hsum, Snapshot.set_comm hne.symm,
    Snapshot.set_set]
  rfl

/-- Adding by factors takes the symbols of both factors and the rest, and seven for the loop and the
ways to the counter and back. -/
theorem length_text_code (factors : Factors) (sign : Int) :
    (Fragment.text (factors.code sign)).length =
      (Fragment.text (Fragment.adding factors.counter)).length +
        (Fragment.text (Fragment.adding (sign * factors.step))).length +
        (Fragment.text (Fragment.adding (sign * factors.rest))).length + 7 := by
  have hright : (Fragment.text (Fragment.moving 1)).length = 1 := rfl
  have hleft : (Fragment.text (Fragment.moving (-1))).length = 1 := rfl
  have hdown : (Fragment.text (Fragment.adding (-1))).length = 1 := rfl
  simp only [code, Fragment.text_append, List.length_append, Fragment.length_text_loop, hright,
    hleft, hdown]
  omega

/-- The step to the next cell is part of the text of the factors, so there is such a cell. -/
theorem onTape_next {factors : Factors} {sign pos : Int} (hpos : OnTape pos)
    (hlength : pos + (Fragment.text (factors.code sign)).length ≤ Register.lastPosition) :
    OnTape (pos + 1) := by
  rw [length_text_code] at hlength
  obtain ⟨hzero, -⟩ := hpos
  exact ⟨by omega, by omega⟩

end Factors

section Constants

variable (amount : Int) {nextIsZero : Bool} {s t : Snapshot}

/-- A constant is added as a run of symbols or by its factors, the latter only if the next cell is
known to be zero. -/
theorem addingCode_cases (nextIsZero : Bool) :
    addingCode amount nextIsZero = Fragment.adding amount ∨ (nextIsZero = true ∧
      addingCode amount nextIsZero =
        (Factors.of amount.natAbs).code (if amount < 0 then -1 else 1)) := by
  simp only [addingCode]
  by_cases hfactored : amount ≠ Word.least ∧
      (Factors.of amount.natAbs).cost < amount.natAbs ∧ nextIsZero = true
  · exact Or.inr ⟨hfactored.2.2, if_pos hfactored⟩
  · exact Or.inl (if_neg hfactored)

/-- The factors of a constant and their sign add the constant, and one more step for each unit that
the next cell holds. -/
theorem effect_factors (hs : OnTape s.cursor) (hnext : OnTape (s.cursor + 1)) :
    Fragment.effect ((Factors.of amount.natAbs).code (if amount < 0 then -1 else 1)) s
      (.done ((s.put (s.here + UInt8.ofInt amount + s.cells (s.cursor + 1) *
        UInt8.ofInt ((if amount < 0 then -1 else 1) * (Factors.of amount.natAbs).step))).set
          (s.cursor + 1) 0)) := by
  have heffect := (Factors.of amount.natAbs).effect_code (if amount < 0 then -1 else 1) hs hnext
  have hamount : (if amount < 0 then -1 else 1) * (amount.natAbs : Int) = amount := by
    split <;> omega
  rwa [Factors.sum_of, hamount] at heffect

/-- Where the next cell is zero if it is said to be, the code of a constant adds it. -/
theorem effect_addingCode (hs : OnTape s.cursor) (hnext : OnTape (s.cursor + 1))
    (hzero : nextIsZero = true → s.cells (s.cursor + 1) = 0) :
    Fragment.effect (addingCode amount nextIsZero) s
      (.done (s.put (s.here + UInt8.ofInt amount))) := by
  obtain hcode | ⟨hknown, hcode⟩ := addingCode_cases amount nextIsZero
  · rw [hcode, Fragment.effect_adding]
    rfl
  · have hne : s.cursor + 1 ≠ s.cursor := by omega
    have heffect := effect_factors amount hs hnext
    rw [hzero hknown, UInt8.zero_mul, UInt8.add_zero, Snapshot.set_eq_self
      (by rw [Snapshot.put, Snapshot.cells_set_of_ne hne, hzero hknown]), ← hcode] at heffect
    exact heffect

/-- The code of a constant adds it exactly if it is a run of symbols or the next cell is zero. -/
theorem effect_addingCode_iff (hs : OnTape s.cursor)
    (hlength : s.cursor + (Fragment.text (addingCode amount nextIsZero)).length ≤
      Register.lastPosition) :
    Fragment.effect (addingCode amount nextIsZero) s (.done (s.put (s.here + UInt8.ofInt amount))) ↔
      addingCode amount nextIsZero = Fragment.adding amount ∨ s.cells (s.cursor + 1) = 0 := by
  constructor
  · intro heffect
    refine (addingCode_cases amount nextIsZero).imp_right fun ⟨_, hcode⟩ => ?_
    -- Adding by factors leaves the next cell at zero, so that is what it must have been.
    rw [hcode] at heffect hlength
    have hend := Ending.done.inj (Fragment.effect_isFunctional _ heffect
      (effect_factors amount hs (Factors.onTape_next hs hlength)))
    have hne : s.cursor + 1 ≠ s.cursor := by omega
    have hcell := congrArg (fun t : Snapshot => t.cells (s.cursor + 1)) hend
    rwa [Snapshot.put, Snapshot.cells_set_of_ne hne, Snapshot.cells_set_self] at hcell
  · intro h
    obtain hplain | ⟨-, hcode⟩ := addingCode_cases amount nextIsZero
    · rw [hplain, Fragment.effect_adding]
      rfl
    · rw [hcode] at hlength
      have hnext := Factors.onTape_next hs hlength
      obtain hplain | hzero := h
      · rw [hplain, Fragment.effect_adding]
        rfl
      · exact effect_addingCode amount hs hnext fun _ => hzero

/-- If the code of a constant reaches its end, the constant has been added, or it has been counted
on the next cell, which is zero then. -/
theorem cases_of_effect_addingCode (hs : OnTape s.cursor)
    (h : Fragment.effect (addingCode amount nextIsZero) s (.done t)) :
    t = s.put (s.here + UInt8.ofInt amount) ∨ (nextIsZero = true ∧ ∃ step : UInt8,
      t = (s.put (s.here + UInt8.ofInt amount + s.cells (s.cursor + 1) * step)).set
        (s.cursor + 1) 0) := by
  obtain hcode | ⟨hknown, hcode⟩ := addingCode_cases amount nextIsZero
  · rw [hcode, Fragment.effect_adding] at h
    exact Or.inl (Ending.done.inj h).symm
  rw [hcode] at h
  by_cases hnext : OnTape (s.cursor + 1)
  · have hcounted := effect_factors amount hs hnext
    exact Or.inr ⟨hknown, _, Ending.done.inj (Fragment.effect_isFunctional _ h hcounted)⟩
  · -- On the last cell of the tape, adding by factors would leave the tape at once.
    have hoff : Effect.of (Snapshot.move 1) s .offTape := if_neg hnext
    simp only [Factors.code, Fragment.effect_append, Effect.seq_assoc,
      Fragment.effect_moving_right] at h
    rw [(Effect.isFunctional_of _).seq_of_stop_iff hoff trivial] at h
    cases h

/-- If the code of a constant reaches its end and the next cell is zero if it is said to be, the
constant has been added. -/
theorem eq_of_effect_addingCode (hs : OnTape s.cursor)
    (hzero : nextIsZero = true → s.cells (s.cursor + 1) = 0)
    (h : Fragment.effect (addingCode amount nextIsZero) s (.done t)) :
    t = s.put (s.here + UInt8.ofInt amount) := by
  obtain hadded | ⟨hknown, step, rfl⟩ := cases_of_effect_addingCode amount hs h
  · exact hadded
  · have hne : s.cursor + 1 ≠ s.cursor := by omega
    rw [hzero hknown, UInt8.zero_mul, UInt8.add_zero]
    exact Snapshot.set_eq_self (by rw [Snapshot.put, Snapshot.cells_set_of_ne hne, hzero hknown])

/-- Constants that are small enough are never counted. -/
theorem addingCode_of_small (hsmall : amount.natAbs ≤ 7) (nextIsZero : Bool) :
    addingCode amount nextIsZero = Fragment.adding amount := by
  refine if_neg fun hfactored => ?_
  have hcost := hfactored.2.1
  -- Whatever the factors are, moving to and fro and counting take seven symbols.
  simp only [Factors.of, Factors.cost] at hcost
  generalize (amount.natAbs - amount.natAbs % squareRoot amount.natAbs) /
    squareRoot amount.natAbs = step at hcost
  split at hcost <;> dsimp only at hcost <;> omega

end Constants

/-- Nor is ten: its factors are three and three, and counting them takes fourteen symbols. -/
theorem addingCode_ten (nextIsZero : Bool) : addingCode 10 nextIsZero = Fragment.adding 10 := by
  have hfactors : Factors.of 10 = ⟨3, 3, 1⟩ := by
    have hroot : squareRoot 10 = 3 :=
      (Rounding.squareRoot_eq_sqrt (by decide)).trans (Nat.eq_sqrt.mpr (by decide)).symm
    simp [Factors.of, hroot]
  have hcost : (14 : Int) ≤ (Factors.of (Int.natAbs 10)).cost := by
    rw [show Int.natAbs 10 = 10 from rfl, hfactors]
    decide
  refine if_neg fun hfactored => ?_
  have hless := hfactored.2.1
  omega

/-! ### Blanks -/

/-- The code that counts eight times four on the pad of `put`. -/
def blanksCode : Fragment :=
  Fragment.adding 8 ++
    [.loop (Fragment.moving (Register.put - Register.putPad) ++ Fragment.adding 4 ++
      Fragment.moving (Register.putSpace - Register.put) ++ Fragment.adding 4 ++
      Fragment.moving (Register.putPad - Register.putSpace) ++ Fragment.adding (-1))]

/-- The cells of `putSpace`, `put` and its pad, with the cursor on the pad. -/
private def triple (s : Snapshot) (space value count : UInt8) : Snapshot :=
  (((s.set Register.putSpace space).set Register.put value).set Register.putPad count).goTo
    Register.putPad

/-- One pass of the loop: both cells get four, and the pad is counted down. -/
private theorem pass_triple (s : Snapshot) (space value count : UInt8) :
    Fragment.effect (Fragment.moving (Register.put - Register.putPad) ++ Fragment.adding 4 ++
      Fragment.moving (Register.putSpace - Register.put) ++ Fragment.adding 4 ++
      Fragment.moving (Register.putPad - Register.putSpace) ++ Fragment.adding (-1))
        (triple s space value count) (.done (triple s (space + 4) (value + 4) (count - 1))) := by
  have hcount := add_ofInt_neg_one count
  have hfour : UInt8.ofInt 4 = 4 := by decide
  simp only [Fragment.effect_append, Effect.seq_assoc, Fragment.effect_adding]
  -- The cursor goes round the three cells, and adds where it stops.
  rw [Fragment.moving_seq_iff (by exact (by decide : OnTape 4)) (by rfl)
      (by decide : OnTape Register.put), Effect.add_seq_iff,
    Fragment.moving_seq_iff (by exact (by decide : OnTape 3)) (by rfl)
      (by decide : OnTape Register.putSpace), Effect.add_seq_iff,
    Fragment.moving_seq_iff (by exact (by decide : OnTape 2)) (by rfl)
      (by decide : OnTape Register.putPad), Effect.of_iff, Snapshot.add]
  refine congrArg Ending.done (Snapshot.ext rfl ?_ rfl rfl)
  funext pos
  simp only [triple, Snapshot.goTo_goTo, Snapshot.put_goTo, Snapshot.here_goTo, hfour,
    Snapshot.goTo_cells, Snapshot.set_cells, Function.update_apply]
  grind

/-- Counting blanks on a pad that is not zero adds as many fours more, and leaves the pad at zero.
-/
theorem effect_blanksCode_of_pad {s : Snapshot} (hs : s.cursor = Register.putPad) :
    blanksCode.effect s (.done (((s.set Register.putSpace
      (s.cells Register.putSpace + (s.cells Register.putPad + 8) * 4)).set Register.put
        (s.cells Register.put + (s.cells Register.putPad + 8) * 4)).set Register.putPad 0)) := by
  -- While the pad holds `v`, both cells have got four for each of the passes before.
  let count := s.cells Register.putPad + 8
  have hloop := Effect.loop_countdown
    (fun v => triple s (s.cells Register.putSpace + (count - v) * 4)
      (s.cells Register.put + (count - v) * 4) v)
    (fun v => by simp [triple])
    (fun v _ => by
      have hpass := pass_triple s (s.cells Register.putSpace + (count - v) * 4)
        (s.cells Register.put + (count - v) * 4) v
      have hstep : ∀ x : UInt8, x + (count - v) * 4 + 4 = x + (count - (v - 1)) * 4 := by
        intro x
        grind
      rwa [hstep, hstep] at hpass) count
  rw [← Fragment.effect_loop] at hloop
  have hstart : triple s (s.cells Register.putSpace + (count - count) * 4)
      (s.cells Register.put + (count - count) * 4) count = s.put (s.here + UInt8.ofInt 8) := by
    have hsame : ∀ x : UInt8, x + (count - count) * 4 = x := by
      intro x
      grind
    have hcount : s.here + UInt8.ofInt 8 = count := by
      rw [Snapshot.here, hs]
      rfl
    rw [hsame, hsame, hcount, triple, Snapshot.set_cells_self, Snapshot.set_cells_self,
      Snapshot.put, hs]
    exact Snapshot.ext hs.symm rfl rfl rfl
  have hend : triple s (s.cells Register.putSpace + (count - 0) * 4)
      (s.cells Register.put + (count - 0) * 4) 0 = ((s.set Register.putSpace
        (s.cells Register.putSpace + count * 4)).set Register.put
          (s.cells Register.put + count * 4)).set Register.putPad 0 := by
    rw [UInt8.sub_zero, triple]
    exact Snapshot.ext hs.symm rfl rfl rfl
  rw [blanksCode, Fragment.effect_append, Fragment.effect_adding, Effect.add_seq_iff, ← hstart,
    ← hend]
  exact hloop

/-- Counting blanks adds a blank to `putSpace` and `put`, and leaves the pad at zero. -/
theorem effect_blanksCode {s : Snapshot} (hs : s.cursor = Register.putPad)
    (hpad : s.cells Register.putPad = 0) :
    blanksCode.effect s (.done ((s.set Register.putSpace (s.cells Register.putSpace + 32)).set
      Register.put (s.cells Register.put + 32))) := by
  have hblank : ((0 : UInt8) + 8) * 4 = 32 := by decide
  have hzero : ((s.set Register.putSpace (s.cells Register.putSpace + 32)).set Register.put
      (s.cells Register.put + 32)).cells Register.putPad = 0 := by
    rwa [Snapshot.cells_set_of_ne (by decide), Snapshot.cells_set_of_ne (by decide)]
  have hcounted := effect_blanksCode_of_pad hs
  rwa [hpad, hblank, Snapshot.set_eq_self hzero] at hcounted

end Generator

end TapeMachine
