import TapeMachine.Generator.Arithmetic
import TapeMachine.Proofs.ConditionEffect

/-!
# What cell arithmetic does

One cell is added to or subtracted from another by counting a copy of it down. A subtraction tests
the minuend for zero before each of its steps, and notes it if there is one step too many. A
division subtracts until that happens, and takes the last subtraction back.

Only ones are added on the way, so nothing is relied on: the code is right on every tape, whatever
the registers hold before.

The module introduces:

* `Generator.Operand`, `Generator.Divisible`: the cells that are no registers of an addition or
  subtraction, or of a division;
* `Generator.Realizes.addCell`, `Generator.Realizes.subCell`: what is on the tape after a sum and a
  difference;
* `Generator.RealizesOn.divide`: a division ends unless the divisor is zero, with the quotient and
  the remainder in two registers;
* `Generator.RealizesOn.divCell`, `Generator.RealizesOn.modCell`: one of the two takes the place of
  the dividend;
* `Generator.Realizes.div`: dividing by a constant.
-/

namespace TapeMachine.Generator

variable {T : Trust} {pos cell source target : Int} {s : Snapshot}

/-- Whether a cell is none of the registers that additions and subtractions use. -/
structure Operand (cell : Int) : Prop extends Testable cell where
  ne_addSub : cell ≠ Register.addSub
  ne_borrow : cell ≠ Register.borrow

instance (cell : Int) : Decidable (Operand cell) :=
  decidable_of_iff (Testable cell ∧ cell ≠ Register.addSub ∧ cell ≠ Register.borrow)
    ⟨fun h => ⟨h.1, h.2.1, h.2.2⟩, fun h => ⟨h.1, h.2, h.3⟩⟩

/-- The register of additions is open to all steps. -/
private theorem isOpen_addSub : T.Open Register.addSub :=
  T.isOpen_of_not_isPad (by decide) (by decide)

/-- The borrow is open to all steps. -/
private theorem isOpen_borrow : T.Open Register.borrow :=
  T.isOpen_of_not_isPad (by decide) (by decide)

/-! ### Addition -/

/-- The sum of two cells is in the first one. -/
def summed (target source : Int) (s : Snapshot) : Snapshot :=
  ((s.set target (s.cells target + s.cells source)).set Register.copy 0).set Register.addSub 0

/-- `addCell target source` leaves `summed target source`. -/
theorem Realizes.addCell (htape : OnTape pos) (hopen : T.Open target) (htarget : Operand target)
    (hopen' : T.Open source) (hsource : Operand source) :
    Realizes T pos (Generator.addCell target source) pos fun s =>
      .done (summed target source s) := by
  refine noted _ ((saveCursor htape ((Realizes.copy htape isOpen_addSub hopen'
    hsource.ne_addSub.symm (by decide) hsource.ne_copy).cons ((Realizes.pour _ hopen
      isOpen_addSub htarget.ne_addSub).cons (.nil _)))).congr fun s hs => ?_)
  have htarget₁ := htarget.ne_addSub
  have htarget₂ := htarget.ne_copy
  refine congrArg Ending.done (Snapshot.ext hs.cursor.symm (funext fun p => ?_) rfl rfl)
  simp only [summed, Snapshot.goTo_cells, Snapshot.set_cells, Function.update_apply]
  grind

/-! ### Subtraction -/

/-- The difference of two cells is in the first one, and `borrow` tells whether it is below zero.
There is a test for each step, so without any the registers of the tests are not touched. -/
def subtracted (target source : Int) (s : Snapshot) : Snapshot :=
  let tests (cell : Int) := if s.cells source = 0 then s.cells cell else 0
  (((((s.set target (s.cells target - s.cells source)).set Register.borrow
    (if s.cells target < s.cells source then 1 else 0)).set Register.copy 0).set
      Register.addSub 0).set Register.zeroTest (tests Register.zeroTest)).set
        Register.flag (tests Register.flag)

/-- A step of a subtraction tests for zero, and takes one. -/
private theorem takeOne (hopen : T.Open target) (htarget : Operand target) :
    Realizes T Register.addSub (sequence [Generator.ifZero target
      (Generator.setAt Register.borrow 1), Generator.decAt target]) target fun s =>
        .done (((tested (if s.cells target = 0 then s.set Register.borrow 1 else s) 0).set target
          (s.cells target - 1)).goTo target) := by
  have hborrow : Testable Register.borrow := by decide
  have htest := Realizes.ifZero_done (show OnTape Register.addSub by decide) hopen
    htarget.toTestable (Realizes.setAt Register.flag isOpen_borrow (T.adds_one _))
    (·.set Register.borrow 1) fun s => by
      simp only [Snapshot.set_goTo, Snapshot.goTo_goTo, tested_set hborrow, tested_set_flag,
        UInt8.ofInt_one]
  refine (htest.cons ((Realizes.decAt _ hopen).cons (.nil _))).congr fun s _ => ?_
  -- The test leaves the target alone, so that what is decremented is what it held before.
  have hsame : (tested (if s.cells target = 0 then s.set Register.borrow 1 else s) 0).cells target =
      s.cells target := by
    rw [tested_cells htarget.toTestable]
    split
    · rw [Snapshot.cells_set_of_ne htarget.ne_borrow]
    · rfl
  simp only [Ending.andThen_done, Snapshot.goTo_cells, hsame, Snapshot.set_goTo, Snapshot.goTo_goTo]

/-- What is there when `v` steps of a subtraction are left. -/
private def subtracting (target : Int) (s : Snapshot) (v : UInt8) : Snapshot :=
  let taken := s.cells Register.addSub - v
  let tests (cell : Int) := if taken = 0 then s.cells cell else 0
  ((((((s.set target (s.cells target - taken)).set Register.borrow
    (if s.cells target < taken then 1 else s.cells Register.borrow)).set Register.addSub v).set
      Register.zeroTest (tests Register.zeroTest)).set Register.copy (tests Register.copy)).set
        Register.flag (tests Register.flag)).goTo Register.addSub

/-- The step that borrows is the one that finds zero, as there are no more than 255 steps. -/
private theorem lt_taken_iff {x y v : UInt8} (hv : v ≠ 0) (hle : v ≤ y) :
    y - (v - 1) ≠ 0 ∧ (x < y - (v - 1) ↔ x < y - v ∨ x - (y - v) = 0) := by
  have hzero : v.toNat ≠ 0 := fun h => hv (UInt8.toNat_inj.mp h)
  have hle' : v.toNat ≤ y.toNat := UInt8.le_iff_toNat_le.mp hle
  have htaken : (y - v).toNat = y.toNat - v.toNat := UInt8.toNat_sub_of_le _ _ hle
  have hlt := y.toNat_lt
  have hnext : (y - (v - 1)).toNat = y.toNat - v.toNat + 1 := by
    have hstep : y - (v - 1) = y - v + 1 := by grind
    rw [hstep, UInt8.toNat_add, htaken]
    simp
    omega
  have hsub : x - (y - v) = 0 ↔ x = y - v := by grind
  refine ⟨fun h => ?_, ?_⟩
  · rw [h] at hnext
    simp at hnext
  · rw [hsub, UInt8.lt_iff_toNat_lt, UInt8.lt_iff_toNat_lt, ← UInt8.toNat_inj, hnext, htaken]
    omega

/-- The loop of a subtraction takes one from the `target` in each pass, and borrows where that is
zero. -/
private theorem takeAll (pos : Int) (hopen : T.Open target) (htarget : Operand target) :
    Realizes T pos (Generator.repeatBy Register.addSub (sequence [Generator.ifZero target
      (Generator.setAt Register.borrow 1), Generator.decAt target])) Register.addSub fun s =>
        .done (subtracting target (s.goTo Register.addSub) 0) := by
  refine Realizes.repeatBy pos isOpen_addSub (takeOne hopen htarget) (subtracting target)
    (fun s v => rfl) (fun s v => ?_) (fun s hs => ?_) (fun s v hv hle => ?_)
  all_goals obtain ⟨⟨hne₁, hne₂, hne₃⟩, hne₄, hne₅⟩ := htarget
  · -- The register counts the steps that are left.
    simp only [subtracting, Snapshot.goTo_cells, Snapshot.set_cells, Function.update_apply]
    grind
  · -- Before the first step nothing has been taken, and nothing tested.
    refine Snapshot.ext hs.symm (funext fun p => ?_) rfl rfl
    simp only [subtracting, Snapshot.goTo_cells, Snapshot.set_cells, Function.update_apply]
    grind
  · -- A step borrows if the steps before it have used up the minuend, or one of them has borrowed.
    obtain ⟨hsome, hlt⟩ := lt_taken_iff (x := s.cells target) hv hle
    have hminuend : (subtracting target s v).cells target =
        s.cells target - (s.cells Register.addSub - v) := by
      simp only [subtracting, Snapshot.goTo_cells, Snapshot.set_cells, Function.update_apply]
      grind
    have hstep : ∀ x : UInt8, x - (s.cells Register.addSub - v) - 1 =
        x - (s.cells Register.addSub - (v - 1)) := by grind
    rw [hminuend]
    by_cases hzero : s.cells target - (s.cells Register.addSub - v) = 0
    · rw [if_pos hzero]
      refine Snapshot.ext rfl (funext fun p => ?_) rfl rfl
      simp only [subtracting, tested, Snapshot.goTo_cells, Snapshot.set_cells,
        Function.update_apply, hlt, hsome, if_false, hstep]
      grind
    · rw [if_neg hzero]
      refine Snapshot.ext rfl (funext fun p => ?_) rfl rfl
      simp only [subtracting, tested, Snapshot.goTo_cells, Snapshot.set_cells,
        Function.update_apply, hlt, hsome, if_false, hstep]
      grind

/-- `subCell target source` leaves `subtracted target source`. -/
theorem Realizes.subCell (htape : OnTape pos) (hopen : T.Open target) (htarget : Operand target)
    (hopen' : T.Open source) (hsource : Operand source) :
    Realizes T pos (Generator.subCell target source) pos fun s =>
      .done (subtracted target source s) := by
  refine noted _ ((saveCursor htape ((Realizes.clearAt pos isOpen_borrow).cons ((Realizes.copy
    (by decide) isOpen_addSub hopen' hsource.ne_addSub.symm (by decide) hsource.ne_copy).cons
      ((takeAll _ hopen htarget).cons (.nil _))))).congr fun s hs => ?_)
  obtain ⟨⟨hne₁, hne₂, hne₃⟩, hne₄, hne₅⟩ := htarget
  -- `borrow` is cleared before the copy is made, so it could not be the subtrahend.
  have hkept := hsource.ne_borrow
  refine congrArg Ending.done (Snapshot.ext hs.cursor.symm (funext fun p => ?_) rfl rfl)
  simp only [subtracted, subtracting, Snapshot.goTo_cells, Snapshot.set_cells,
    Function.update_apply]
  grind

/-- A subtraction borrows if more is taken than is there. -/
theorem subtracted_borrow : (subtracted target source s).cells Register.borrow =
    if s.cells target < s.cells source then 1 else 0 := by
  simp [subtracted]

/-! ### Division -/

/-- Whether a cell is none of the registers that divisions use. -/
structure Divisible (cell : Int) : Prop extends Operand cell where
  ne_quotient : cell ≠ Register.divQuotient
  ne_remainder : cell ≠ Register.divRemainder
  ne_loop : cell ≠ Register.divLoop

instance (cell : Int) : Decidable (Divisible cell) :=
  decidable_of_iff (Operand cell ∧ cell ≠ Register.divQuotient ∧ cell ≠ Register.divRemainder ∧
      cell ≠ Register.divLoop)
    ⟨fun h => ⟨h.1, h.2.1, h.2.2.1, h.2.2.2⟩, fun h => ⟨h.1, h.2, h.3, h.4⟩⟩

/-- The quotient is open to all steps. -/
private theorem isOpen_quotient : T.Open Register.divQuotient :=
  T.isOpen_of_not_isPad (by decide) (by decide)

/-- The remainder is open to all steps. -/
private theorem isOpen_remainder : T.Open Register.divRemainder :=
  T.isOpen_of_not_isPad (by decide) (by decide)

/-- The register that keeps a division going is open to all steps. -/
private theorem isOpen_divLoop : T.Open Register.divLoop :=
  T.isOpen_of_not_isPad (by decide) (by decide)

/-- What a pass of a division does: it takes the divisor from the remainder, or finds that the
remainder is less and ends the loop. -/
private def divisionPass (divisor : Int) (s : Snapshot) : Snapshot :=
  let t := (tested s 0).set Register.addSub 0
  (if s.cells Register.divRemainder < s.cells divisor then
      (t.set Register.borrow 1).set Register.divLoop 0
    else ((t.set Register.borrow 0).set Register.divRemainder
      (s.cells Register.divRemainder - s.cells divisor)).set Register.divQuotient
        (s.cells Register.divQuotient + 1)).goTo Register.divLoop

variable {divisor : Int}

/-- A pass of a division leaves `divisionPass divisor`. -/
private theorem realizes_divisionPass (hopen : T.Open divisor) (hdivisor : Divisible divisor) :
    Realizes T Register.divLoop (sequence [sequence [
        Generator.subCell Register.divRemainder divisor,
        Generator.incAt Register.divQuotient,
        Generator.ifNonzero Register.borrow (sequence [
          Generator.addCell Register.divRemainder divisor,
          Generator.decAt Register.divQuotient,
          Generator.clearAt Register.divLoop])],
      Generator.moveTo Register.divLoop]) Register.divLoop
      fun s => .done (divisionPass divisor s) := by
  have hremainder : Operand Register.divRemainder := by decide
  have hback := (Realizes.addCell (show OnTape Register.flag by decide) isOpen_remainder
    hremainder hopen hdivisor.toOperand).cons ((Realizes.decAt _ isOpen_quotient).cons
      ((Realizes.clearAt _ isOpen_divLoop).cons (.nil _)))
  have hborrowed := Realizes.ifNonzero (show OnTape Register.divQuotient by decide) isOpen_borrow
    (by decide) hback
  refine (((Realizes.subCell (by decide) isOpen_remainder hremainder hopen
    hdivisor.toOperand).cons ((Realizes.incAt _ isOpen_quotient).cons (hborrowed.cons
      (.nil _)))).cons ((Realizes.moveTo _ (by decide)).cons (.nil _))).congr fun s hs => ?_
  have hborrow : ∀ v, (((subtracted Register.divRemainder divisor s).set Register.divQuotient
      v).goTo Register.divQuotient).cells Register.borrow =
        if s.cells Register.divRemainder < s.cells divisor then 1 else 0 := by
    intro v
    rw [Snapshot.goTo_cells, Snapshot.cells_set_of_ne (by decide), subtracted_borrow]
  simp only [Ending.andThen_done, hborrow]
  obtain ⟨⟨⟨hne₁, hne₂, hne₃⟩, hne₄, hne₅⟩, hne₆, hne₇, hne₈⟩ := hdivisor
  by_cases hless : s.cells Register.divRemainder < s.cells divisor
  · -- There has been one subtraction too many: the sum of its result and the divisor is the
    -- remainder again, whichever way the difference has wrapped around.
    have hzero : s.cells divisor ≠ 0 := by
      rintro h
      rw [h] at hless
      exact UInt8.not_lt_zero hless
    rw [if_pos hless, if_neg (by decide), divisionPass, if_pos hless]
    refine congrArg Ending.done (Snapshot.ext rfl (funext fun p => ?_) rfl rfl)
    simp only [subtracted, summed, tested, Snapshot.goTo_cells, Snapshot.set_cells,
      Function.update_apply]
    grind
  · -- The subtraction stands, and so does the quotient.
    rw [if_neg hless, if_pos rfl, divisionPass, if_neg hless]
    refine congrArg Ending.done (Snapshot.ext rfl (funext fun p => ?_) rfl rfl)
    simp only [subtracted, tested, Snapshot.goTo_cells, Snapshot.set_cells, Function.update_apply]
    grind

/-- What a division leaves in the registers. -/
def dividedInto (quotient remainder : UInt8) (s : Snapshot) : Snapshot :=
  (((((tested s 0).set Register.addSub 0).set Register.borrow 1).set Register.divLoop 0).set
    Register.divRemainder remainder).set Register.divQuotient quotient

/-- A division takes no input. -/
@[simp] theorem dividedInto_input (quotient remainder : UInt8) :
    (dividedInto quotient remainder s).input = s.input := rfl

/-- A division writes nothing. -/
@[simp] theorem dividedInto_output (quotient remainder : UInt8) :
    (dividedInto quotient remainder s).output = s.output := rfl

/-- The last pass finds that the remainder is less than the divisor, and leaves it. -/
private theorem divisionPass_of_lt (hless : s.cells Register.divRemainder < s.cells divisor) :
    divisionPass divisor s = (dividedInto (s.cells Register.divQuotient)
      (s.cells Register.divRemainder) s).goTo Register.divLoop := by
  rw [divisionPass, if_pos hless]
  refine Snapshot.ext rfl (funext fun p => ?_) rfl rfl
  simp only [dividedInto, tested, Snapshot.goTo_cells, Snapshot.set_cells, Function.update_apply]
  grind

/-- A pass changes only cells that the whole division overwrites. -/
private theorem dividedInto_divisionPass (hle : ¬ s.cells Register.divRemainder < s.cells divisor)
    (quotient remainder : UInt8) :
    (dividedInto quotient remainder (divisionPass divisor s)).goTo Register.divLoop =
      (dividedInto quotient remainder s).goTo Register.divLoop := by
  rw [divisionPass, if_neg hle]
  refine Snapshot.ext (by simp) (funext fun p => ?_) (by simp [tested]) (by simp [tested])
  simp only [dividedInto, tested, Snapshot.goTo_cells, Snapshot.set_cells, Function.update_apply]
  grind

/-- Taking the divisor away once more leaves the same remainder, and one less to come. -/
private theorem div_mod_of_le {r k : UInt8} (hk : k ≠ 0) (hle : k ≤ r) :
    (r - k) % k = r % k ∧ (r - k) / k + 1 = r / k ∧ (r - k).toNat < r.toNat := by
  have hpos : 0 < k.toNat := Nat.pos_of_ne_zero fun h => hk (UInt8.toNat_inj.mp h)
  have hle' : k.toNat ≤ r.toNat := UInt8.le_iff_toNat_le.mp hle
  have hsub : (r - k).toNat = r.toNat - k.toNat := UInt8.toNat_sub_of_le _ _ hle
  have hdiv : r.toNat / k.toNat = (r.toNat - k.toNat) / k.toNat + 1 :=
    Nat.div_eq_sub_div hpos hle'
  refine ⟨UInt8.toNat_inj.mp ?_, UInt8.toNat_inj.mp ?_, by omega⟩
  · rw [UInt8.toNat_mod, UInt8.toNat_mod, hsub, Nat.mod_eq_sub_mod hle']
  · have hlt : r.toNat / k.toNat < 256 :=
      Nat.lt_of_le_of_lt (Nat.div_le_self _ _) r.toNat_lt
    rw [UInt8.toNat_add, UInt8.toNat_div, UInt8.toNat_div, hsub, hdiv]
    simp
    omega

/-- What is less than the divisor is its own remainder. -/
private theorem div_mod_of_lt {r k : UInt8} (hlt : r < k) : r % k = r ∧ r / k = 0 := by
  refine ⟨UInt8.mod_eq_of_lt hlt, UInt8.toNat_inj.mp ?_⟩
  rw [UInt8.toNat_div, Nat.div_eq_of_lt (UInt8.lt_iff_toNat_lt.mp hlt)]
  rfl

/-- The loop of a division ends with the quotient and the remainder. -/
private theorem loop_divisionPass (hdivisor : Divisible divisor)
    (hcursor : s.cursor = Register.divLoop) (hopen : s.cells Register.divLoop ≠ 0)
    (hk : s.cells divisor ≠ 0) :
    Effect.loop (Effect.of fun s => .done (divisionPass divisor s)) s
      (.done ((dividedInto (s.cells Register.divQuotient + s.cells Register.divRemainder /
        s.cells divisor) (s.cells Register.divRemainder % s.cells divisor) s).goTo
          Register.divLoop)) := by
  -- The remainder gets less with each pass, but for the last one.
  induction hn : (s.cells Register.divRemainder).toNat using Nat.strong_induction_on
    generalizing s with
  | _ n ih =>
    have hhere : s.here ≠ 0 := by rwa [Snapshot.here, hcursor]
    refine .pass hhere rfl ?_
    by_cases hless : s.cells Register.divRemainder < s.cells divisor
    · obtain ⟨hmod, hdiv⟩ := div_mod_of_lt hless
      rw [divisionPass_of_lt hless, hmod, hdiv, UInt8.add_zero]
      refine .exit ?_
      simp [dividedInto]
    · obtain ⟨hmod, hdiv, hdecrease⟩ := div_mod_of_le hk (UInt8.not_lt.mp hless)
      -- The next pass starts with the divisor taken from the remainder, and one more counted.
      have hpass : divisionPass divisor s = (((((tested s 0).set Register.addSub 0).set
          Register.borrow 0).set Register.divRemainder (s.cells Register.divRemainder -
            s.cells divisor)).set Register.divQuotient (s.cells Register.divQuotient + 1)).goTo
              Register.divLoop := by
        rw [divisionPass, if_neg hless]
      have hquotient : (divisionPass divisor s).cells Register.divQuotient =
          s.cells Register.divQuotient + 1 := by simp [hpass]
      have hremainder : (divisionPass divisor s).cells Register.divRemainder =
          s.cells Register.divRemainder - s.cells divisor := by simp [hpass]
      have hloop : (divisionPass divisor s).cells Register.divLoop = s.cells Register.divLoop := by
        simp [hpass, tested]
      have hsame : (divisionPass divisor s).cells divisor = s.cells divisor := by
        rw [hpass, Snapshot.goTo_cells, Snapshot.cells_set_of_ne hdivisor.ne_quotient,
          Snapshot.cells_set_of_ne hdivisor.ne_remainder,
          Snapshot.cells_set_of_ne hdivisor.ne_borrow, Snapshot.cells_set_of_ne hdivisor.ne_addSub,
          tested_cells hdivisor.toTestable]
      have hrest := ih _ (by rwa [hremainder, ← hn]) (s := divisionPass divisor s)
        (by rw [hpass]; rfl) (by rwa [hloop]) (by rwa [hsame]) rfl
      rw [dividedInto_divisionPass hless, hquotient, hremainder, hsame, hmod, UInt8.add_assoc,
        UInt8.add_comm 1, hdiv] at hrest
      exact hrest

/-- What a division of a cell by another one leaves in the registers. -/
def divided (dividend divisor : Int) (s : Snapshot) : Snapshot :=
  dividedInto (s.cells dividend / s.cells divisor) (s.cells dividend % s.cells divisor) s

/-- The code of a division ends if the divisor is not zero. -/
theorem RealizesOn.divide {dividend : Int} (pos : Int) (hopen : T.Open dividend)
    (hdividend : Divisible dividend) (hopen' : T.Open divisor) (hdivisor : Divisible divisor) :
    RealizesOn T (fun s => s.cells divisor ≠ 0) pos (Generator.divide dividend divisor)
      Register.divLoop fun s => .done ((divided dividend divisor s).goTo Register.divLoop) := by
  have hloop := RealizesOn.loopOn Register.divLoop
    (p := fun s => s.cells Register.divLoop ≠ 0 ∧ s.cells divisor ≠ 0) (by decide)
    (realizes_divisionPass hopen' hdivisor) fun s hs hp =>
      loop_divisionPass hdivisor hs.cursor hp.1 hp.2
  -- None of the steps before the loop changes the divisor.
  have hkept : ∀ {cell : Int} {v : UInt8} {s : Snapshot}, divisor ≠ cell → s.cells divisor ≠ 0 →
      (s.set cell v).cells divisor ≠ 0 := fun hne hk => by rwa [Snapshot.cells_set_of_ne hne]
  have hset := RealizesOn.cons_on (p := fun s => s.cells divisor ≠ 0)
    (Realizes.setAt Register.divQuotient isOpen_divLoop (T.adds_one _)) (hloop.cons (.nil _)) (by
      rintro s _ hk ⟨⟩
      refine ⟨?_, hkept hdivisor.ne_loop hk⟩
      simp)
  have hcopy := RealizesOn.cons_on (p := fun s => s.cells divisor ≠ 0)
    (Realizes.copy (by decide) isOpen_remainder hopen hdividend.ne_remainder.symm (by decide)
      hdividend.ne_copy) hset (by
        rintro s _ hk ⟨⟩
        exact hkept hdivisor.ne_copy (hkept hdivisor.ne_remainder hk))
  have hsteps := RealizesOn.cons_on (p := fun s => s.cells divisor ≠ 0)
    (Realizes.clearAt pos isOpen_quotient) hcopy (by
      rintro s _ hk ⟨⟩
      exact hkept hdivisor.ne_quotient hk)
  refine hsteps.congr fun s _ hk => ⟨hk, ?_⟩
  obtain ⟨⟨⟨hne₁, hne₂, hne₃⟩, hne₄, hne₅⟩, hne₆, hne₇, hne₈⟩ := hdivisor
  have hne := hdividend.ne_quotient
  simp only [Ending.andThen_done]
  refine congrArg Ending.done (Snapshot.ext (by simp) (funext fun p => ?_) (by simp [divided])
    (by simp [divided]))
  simp only [divided, dividedInto, tested, Snapshot.goTo_cells, Snapshot.set_cells,
    Function.update_apply]
  grind

/-- A division in the place of its dividend, of which one register is the result. -/
private theorem dividing (note : Bytes) (hopen : T.Open pos) (hpos : Divisible pos)
    (hopen' : T.Open divisor) (hdivisor : Divisible divisor) {result : Int}
    (hresult : T.Open result) (hne : pos ≠ result) (hcopy : result ≠ Register.copy) :
    RealizesOn T (fun s => s.cells divisor ≠ 0) pos (Generator.noted note (Generator.saveCursor
        (sequence [Generator.divide pos divisor, Generator.copy pos result]))) pos
      fun s => .done (((divided pos divisor s).set pos ((divided pos divisor s).cells result)).goTo
        pos) := by
  refine RealizesOn.noted note ((RealizesOn.saveCursor hopen.onTape ((RealizesOn.divide pos hopen
    hpos hopen' hdivisor).cons ((Realizes.copy (by decide) hopen hresult hne hpos.ne_copy
      hcopy).cons (.nil _)))).congr fun s _ hk => ⟨hk, ?_⟩)
  have hne' := hpos.ne_copy
  refine congrArg Ending.done (Snapshot.ext rfl (funext fun p => ?_) (by simp) (by simp))
  simp only [divided, dividedInto, tested, Snapshot.goTo_cells, Snapshot.set_cells,
    Function.update_apply]
  grind

section Cell

variable (hopen : T.Open pos) (hpos : Divisible pos) (hopen' : T.Open divisor)
  (hdivisor : Divisible divisor)
include hopen hpos hopen' hdivisor

/-- `divCell divisor` leaves the quotient, where the `divisor` is not zero. -/
theorem RealizesOn.divCell : RealizesOn T (fun s => s.cells divisor ≠ 0) pos
    (Generator.divCell divisor) pos fun s =>
      .done (((divided pos divisor s).set pos (s.cells pos / s.cells divisor)).goTo pos) :=
  RealizesOn.cursor_bind ((dividing _ hopen hpos hopen' hdivisor isOpen_quotient hpos.ne_quotient
    (by decide)).congr fun s _ hk => ⟨hk, by simp [divided, dividedInto]⟩)

/-- `modCell divisor` leaves the remainder, where the `divisor` is not zero. -/
theorem RealizesOn.modCell : RealizesOn T (fun s => s.cells divisor ≠ 0) pos
    (Generator.modCell divisor) pos fun s =>
      .done (((divided pos divisor s).set pos (s.cells pos % s.cells divisor)).goTo pos) :=
  RealizesOn.cursor_bind ((dividing _ hopen hpos hopen' hdivisor isOpen_remainder hpos.ne_remainder
    (by decide)).congr fun s _ hk => ⟨hk, by simp [divided, dividedInto]⟩)

end Cell

/-- A constant that can be added to the register of divisors can be divided by. -/
theorem Realizes.div (hopen : T.Open pos) (hpos : Divisible pos) (hne : pos ≠ Register.divDivisor)
    {v : Int} (hadds : T.Adds Register.divDivisor v) (hv : v % 256 ≠ 0) :
    Realizes T pos (Generator.div v) pos fun s =>
      .done (((divided pos Register.divDivisor (s.set Register.divDivisor (UInt8.ofInt v))).set pos
        (s.cells pos / UInt8.ofInt v)).goTo pos) := by
  have hdivisor : Register.Usable Register.divDivisor := by decide
  have hk : UInt8.ofInt v ≠ 0 := fun hzero => hv (ofInt_eq_zero_iff.mp hzero)
  -- The divisor is set first, so that what `divCell` asks for holds when it begins.
  have hdivide := RealizesOn.cons_on (p := fun s => s.cells Register.divDivisor ≠ 0)
    (Realizes.moveTo Register.divDivisor hopen.onTape) ((RealizesOn.divCell hopen hpos
      (hdivisor.isOpen T) (by decide)).cons (.nil _)) (by
        rintro s _ hk ⟨⟩
        exact hk)
  have hsteps := RealizesOn.cons_on (p := fun _ => True)
    (Realizes.setAt pos (hdivisor.isOpen T) hadds) hdivide (by
      rintro s _ - ⟨⟩
      rwa [Snapshot.goTo_cells, Snapshot.cells_set_self])
  rw [Generator.div, warnZeroDivisor, if_neg hv, pure_bind]
  refine Realizes.cursor_bind (Realizes.congr hsteps fun s hs => ?_)
  have hback : ((s.set Register.divDivisor (UInt8.ofInt v)).goTo Register.divDivisor).goTo pos =
      s.set Register.divDivisor (UInt8.ofInt v) := by
    rw [Snapshot.goTo_goTo, ← hs.cursor]
    rfl
  simp only [Ending.andThen_done, hback, Snapshot.cells_set_self, Snapshot.cells_set_of_ne hne]

end TapeMachine.Generator
