import Mathlib.Logic.Function.Basic
import TapeMachine.Generator.Condition
import TapeMachine.Proofs.Realization

/-!
# What copies, tests and conditions do

A copy drains a cell into its target and a register, and refills it from the register. A test counts
on such a copy, so it keeps the cell tested, and a condition does its body once if the outcome says
so.

The module introduces:

* `Generator.Realizes.pour`: counting a cell down into another one;
* `Generator.Realizes.copy`: a copy sets its target and clears the register;
* `Generator.Realizes.checkZero`, `Generator.Realizes.checkNonzero`: what tests leave in `flag`;
* `Generator.RealizesOn.ifZero`, `Generator.RealizesOn.ifNonzero`: what conditions do, if their body
  finds what it asks for whenever it is done.
-/

namespace TapeMachine.Generator

variable {T : Trust} {pos mid cell source target : Int} {body : Gen Fragment}
  {f : Snapshot → Ending} {p : Snapshot → Prop}

/-! ### Copies -/

/-- The register of copies is open to all steps. -/
private theorem isOpen_copy : T.Open Register.copy :=
  T.isOpen_of_not_isPad (by decide) (by decide)

/-- The source has been drained down to `v`, into the target and the register. -/
private def draining (target source : Int) (s : Snapshot) (v : UInt8) : Snapshot :=
  (((s.set target (s.cells target + (s.cells source - v))).set Register.copy
    (s.cells Register.copy + (s.cells source - v))).set source v).goTo source

/-- The first loop of a copy counts the `source` into the `target` and the register. -/
private theorem drain (pos : Int) (htarget : T.Open target)
    (hsource : T.Open source) (hne : target ≠ source) (htarget' : target ≠ Register.copy)
    (hsource' : source ≠ Register.copy) :
    Realizes T pos (repeatBy source (sequence [incAt target, incAt Register.copy])) source
      fun s => .done (draining target source (s.goTo source) 0) := by
  have hpass : Realizes T source (sequence [incAt target, incAt Register.copy]) Register.copy
      fun s => .done (((s.set target (s.cells target + 1)).set Register.copy
        (s.cells Register.copy + 1)).goTo Register.copy) :=
    ((Realizes.incAt source htarget).cons ((Realizes.incAt target isOpen_copy).cons (.nil _))).congr
      fun s _ => by simp [Function.update_of_ne htarget'.symm]
  refine Realizes.repeatBy pos hsource hpass (draining target source) (fun s v => rfl)
    (fun s v => ?_) (fun s hs => ?_) (fun s v hv _ => ?_)
  -- The source holds what is left to be drained; nothing is drained at first; a pass drains one.
  · simp [draining]
  · refine Snapshot.ext hs.symm (funext fun p => ?_) rfl rfl
    simp only [draining, Snapshot.goTo_cells, Snapshot.set_cells, Function.update_apply]
    grind
  · refine Snapshot.ext rfl (funext fun p => ?_) rfl rfl
    simp only [draining, Snapshot.goTo_cells, Snapshot.set_cells, Function.update_apply]
    grind

/-- The source has been poured into the target until `v` is left. -/
private def pouring (target source : Int) (s : Snapshot) (v : UInt8) : Snapshot :=
  ((s.set target (s.cells target + (s.cells source - v))).set source v).goTo source

/-- Counting a cell down while another one is counted up adds the one to the other. -/
theorem Realizes.pour (pos : Int) (htarget : T.Open target) (hsource : T.Open source)
    (hne : target ≠ source) :
    Realizes T pos (Generator.repeatBy source (Generator.incAt target)) source fun s =>
      .done (((s.set target (s.cells target + s.cells source)).set source 0).goTo source) := by
  refine (Realizes.repeatBy pos hsource (Realizes.incAt _ htarget) (pouring target source)
    (fun s v => rfl) (fun s v => ?_) (fun s hs => ?_) (fun s v hv _ => ?_)).congr fun s _ => ?_
  · simp [pouring]
  · refine Snapshot.ext hs.symm (funext fun p => ?_) rfl rfl
    simp only [pouring, Snapshot.goTo_cells, Snapshot.set_cells, Function.update_apply]
    grind
  · refine Snapshot.ext rfl (funext fun p => ?_) rfl rfl
    simp only [pouring, Snapshot.goTo_cells, Snapshot.set_cells, Function.update_apply]
    grind
  · rw [pouring, UInt8.sub_zero]
    rfl

/-- A copy sets its target to the value of its source, and leaves zero in the register. -/
theorem Realizes.copy (htape : OnTape pos) (htarget : T.Open target)
    (hsource : T.Open source) (hne : target ≠ source) (htarget' : target ≠ Register.copy)
    (hsource' : source ≠ Register.copy) :
    Realizes T pos (Generator.copy target source) pos
      fun s => .done ((s.set target (s.cells source)).set Register.copy 0) := by
  unfold Generator.copy
  rw [if_neg hne]
  refine Realizes.noted _ ((Realizes.saveCursor htape ((Realizes.clearAt pos htarget).cons
    ((Realizes.clearAt target isOpen_copy).cons ((drain _ htarget hsource hne htarget'
      hsource').cons ((Realizes.pour _ hsource isOpen_copy hsource').cons
        (.nil _)))))).congr fun s hs => ?_)
  -- What was drained from the source into the register is what it is refilled with.
  simp only [Ending.andThen_done]
  refine congrArg Ending.done (Snapshot.ext hs.cursor.symm (funext fun p => ?_) rfl rfl)
  simp only [draining, Snapshot.goTo_cells, Snapshot.set_cells, Function.update_apply]
  grind

/-! ### Tests -/

/-- Whether a cell is none of the registers that tests use. -/
structure Testable (cell : Int) : Prop where
  ne_copy : cell ≠ Register.copy
  ne_zeroTest : cell ≠ Register.zeroTest
  ne_flag : cell ≠ Register.flag

instance (cell : Int) : Decidable (Testable cell) :=
  decidable_of_iff (cell ≠ Register.copy ∧ cell ≠ Register.zeroTest ∧ cell ≠ Register.flag)
    ⟨fun h => ⟨h.1, h.2.1, h.2.2⟩, fun h => ⟨h.1, h.2, h.3⟩⟩

/-- What a test leaves: its registers are zero, and the cursor is on the outcome. -/
def tested (s : Snapshot) (outcome : UInt8) : Snapshot :=
  (((s.set Register.zeroTest 0).set Register.copy 0).set Register.flag outcome).goTo Register.flag

section Tested

variable (s : Snapshot) (outcome value : UInt8)

@[simp] theorem tested_cursor : (tested s outcome).cursor = Register.flag := rfl
@[simp] theorem tested_input : (tested s outcome).input = s.input := rfl
@[simp] theorem tested_output : (tested s outcome).output = s.output := rfl

/-- Setting the flag behind a test is another outcome. -/
@[simp] theorem tested_set_flag : (tested s outcome).set Register.flag value = tested s value := by
  rw [tested, Snapshot.set_goTo, Snapshot.set_set]
  rfl

/-- It does not matter to a test where the cursor was. -/
@[simp] theorem tested_goTo (pos : Int) : tested (s.goTo pos) outcome = tested s outcome := rfl

/-- Only the last of two tests can be seen. -/
@[simp] theorem tested_tested : tested (tested s outcome) value = tested s value := by
  refine Snapshot.ext rfl (funext fun p => ?_) rfl rfl
  simp only [tested, Snapshot.goTo_cells, Snapshot.set_cells, Function.update_apply]
  grind

variable {s outcome value}

/-- A test leaves the cells alone that may be tested. -/
@[simp] theorem tested_cells (hcell : Testable cell) :
    (tested s outcome).cells cell = s.cells cell := by
  rw [tested, Snapshot.goTo_cells, Snapshot.cells_set_of_ne hcell.ne_flag,
    Snapshot.cells_set_of_ne hcell.ne_copy, Snapshot.cells_set_of_ne hcell.ne_zeroTest]

/-- A cell that is none of the registers may be set before a test or behind it. -/
theorem tested_set (hcell : Testable cell) :
    (tested s outcome).set cell value = tested (s.set cell value) outcome := by
  rw [tested, Snapshot.set_goTo, Snapshot.set_comm hcell.ne_flag.symm,
    Snapshot.set_comm hcell.ne_copy.symm, Snapshot.set_comm hcell.ne_zeroTest.symm]
  rfl

end Tested

/-- The flag is open to all steps. -/
theorem isOpen_flag : T.Open Register.flag :=
  T.isOpen_of_not_isPad (by decide) (by decide)

/-- The register of tests is open to all steps. -/
private theorem isOpen_zeroTest : T.Open Register.zeroTest :=
  T.isOpen_of_not_isPad (by decide) (by decide)

/-- A test sets the outcome for a zero and changes it if the copy is not zero. -/
private theorem test (hopen : T.Open cell) (hcell : Testable cell) {setup change : Gen Fragment}
    (outcome : UInt8) (h : UInt8 → UInt8) (hsetup : Realizes T cell setup Register.flag
      fun s => .done ((s.set Register.flag outcome).goTo Register.flag))
    (hchange : Realizes T Register.zeroTest change Register.flag
      fun s => .done ((s.set Register.flag (h (s.cells Register.flag))).goTo Register.flag)) :
    Realizes T cell (sequence [copy Register.zeroTest cell, setup,
      doOnceIf Register.zeroTest change, moveTo Register.flag]) Register.flag
        fun s => .done (tested s (if s.cells cell = 0 then outcome else h outcome)) := by
  refine ((Realizes.copy hopen.onTape isOpen_zeroTest hopen hcell.ne_zeroTest.symm
    (by decide) hcell.ne_copy).cons (hsetup.cons ((Realizes.doOnceIf _ isOpen_zeroTest hchange).cons
      ((Realizes.moveTo _ (by decide)).cons (.nil _))))).congr fun s _ => ?_
  -- The copy of the cell is not among the cells that the setup changes.
  have hcopied : (((s.set Register.zeroTest (s.cells cell)).set Register.copy 0).set Register.flag
      outcome).cells Register.zeroTest = s.cells cell := by
    rw [Snapshot.cells_set_of_ne (by decide), Snapshot.cells_set_of_ne (by decide),
      Snapshot.cells_set_self]
  simp only [Ending.andThen_done, Snapshot.goTo_cells, hcopied]
  split
  · next hzero =>
    refine congrArg Ending.done (Snapshot.ext rfl (funext fun p => ?_) rfl rfl)
    simp only [tested, Snapshot.goTo_cells, Snapshot.set_cells, Function.update_apply]
    grind
  · next hcell' =>
    refine congrArg Ending.done (Snapshot.ext rfl (funext fun p => ?_) rfl rfl)
    simp only [tested, Snapshot.goTo_cells, Snapshot.set_cells, Function.update_apply]
    grind

/-- `checkZero` leaves the outcome of the test in the flag. -/
theorem Realizes.checkZero (hopen : T.Open cell) (hcell : Testable cell) :
    Realizes T cell Generator.checkZero Register.flag
    fun s => .done (tested s (if s.cells cell = 0 then 1 else 0)) := by
  unfold Generator.checkZero
  exact cursor_bind (noted _ (test hopen hcell 1 (· - 1)
    (Realizes.setAt cell isOpen_flag (T.adds_one _)) (Realizes.decAt _ isOpen_flag)))

/-- `checkNonzero` leaves the opposite outcome in the flag. -/
theorem Realizes.checkNonzero (hopen : T.Open cell) (hcell : Testable cell) :
    Realizes T cell Generator.checkNonzero Register.flag
      fun s => .done (tested s (if s.cells cell = 0 then 0 else 1)) := by
  unfold Generator.checkNonzero
  exact cursor_bind (noted _ (test hopen hcell 0 (· + 1) (Realizes.clearAt cell isOpen_flag)
    (Realizes.incAt _ isOpen_flag)))

/-! ### Conditions -/

/-- Doing something once after a test, if its outcome is not zero. -/
private theorem conditional (htape : OnTape pos) (hopen : T.Open cell) {check : Gen Fragment}
    {outcome : Snapshot → UInt8} (hcheck : Realizes T cell check Register.flag
      fun s => .done (tested s (outcome s))) (hsame : ∀ s, outcome (s.goTo cell) = outcome s)
    (hbody : RealizesOn T p Register.flag body mid f) :
    RealizesOn T (fun s => outcome s ≠ 0 → p (tested s (outcome s))) pos
      (saveCursor (sequence [moveTo cell, check, doOnceIf Register.flag body])) pos
      fun s => if outcome s = 0 then .done ((tested s 0).goTo pos)
        else (f (tested s (outcome s))).andThen fun t =>
          .done ((t.set Register.flag 0).goTo pos) := by
  have houtcome : ∀ s : Snapshot, (tested (s.goTo cell) (outcome s)).cells Register.flag =
      outcome s := fun s => by simp [tested]
  have htested : ∀ (s : Snapshot) v, (tested (s.goTo cell) v).goTo Register.flag = tested s v :=
    fun _ _ => rfl
  -- The body runs in the state after the check, so what it asks for is asked of that state.
  have hchecked := RealizesOn.cons_on (p := fun s => outcome s ≠ 0 → p (tested s (outcome s)))
    hcheck ((RealizesOn.doOnceIf _ isOpen_flag hbody).cons (.nil _)) (by
      rintro s _ hp ⟨⟩ hne
      have hcell : (tested s (outcome s)).cells Register.flag = outcome s := houtcome s
      exact hp (hcell ▸ hne))
  refine (RealizesOn.saveCursor htape (RealizesOn.cons_on
    (p := fun s => outcome s ≠ 0 → p (tested s (outcome s))) (Realizes.moveTo pos hopen.onTape)
      hchecked ?_)).congr fun s _ hp => ⟨hp, ?_⟩
  · rintro s _ hp ⟨⟩
    rw [hsame]
    exact hp
  simp only [Ending.andThen_done, hsame, houtcome, htested]
  split
  · next hzero => simp only [hzero, Ending.andThen_done]
  · cases f (tested s (outcome s)) <;> rfl

/-- A condition does its body, after the test, if the cell is not zero. -/
theorem RealizesOn.ifNonzero (htape : OnTape pos) (hopen : T.Open cell) (hcell : Testable cell)
    (hbody : RealizesOn T p Register.flag body mid f) :
    RealizesOn T (fun s => s.cells cell ≠ 0 → p (tested s 1)) pos (Generator.ifNonzero cell body)
      pos fun s => if s.cells cell = 0 then .done ((tested s 0).goTo pos)
        else (f (tested s 1)).andThen fun t => .done ((t.set Register.flag 0).goTo pos) :=
  (noted _ (conditional htape hopen (Realizes.checkNonzero hopen hcell) (fun _ => rfl) hbody)).congr
    fun s _ hp => by by_cases hzero : s.cells cell = 0 <;> simp_all

/-- A condition does its body, after the test, if the cell is zero. -/
theorem RealizesOn.ifZero (htape : OnTape pos) (hopen : T.Open cell) (hcell : Testable cell)
    (hbody : RealizesOn T p Register.flag body mid f) :
    RealizesOn T (fun s => s.cells cell = 0 → p (tested s 1)) pos (Generator.ifZero cell body) pos
      fun s => if s.cells cell = 0 then
          (f (tested s 1)).andThen fun t => .done ((t.set Register.flag 0).goTo pos)
        else .done ((tested s 0).goTo pos) :=
  (noted _ (conditional htape hopen (Realizes.checkZero hopen hcell) (fun _ => rfl) hbody)).congr
    fun s _ hp => by by_cases hzero : s.cells cell = 0 <;> simp_all

/-- `ifNonzero cell` does its `body` behind the test if the `cell` is not zero. -/
theorem Realizes.ifNonzero (htape : OnTape pos) (hopen : T.Open cell) (hcell : Testable cell)
    (hbody : Realizes T Register.flag body mid f) :
    Realizes T pos (Generator.ifNonzero cell body) pos
      fun s => if s.cells cell = 0 then .done ((tested s 0).goTo pos)
        else (f (tested s 1)).andThen fun t => .done ((t.set Register.flag 0).goTo pos) :=
  (RealizesOn.ifNonzero htape hopen hcell hbody).congr fun _ _ _ => ⟨fun _ => trivial, rfl⟩

/-- `ifZero cell` does its `body` behind the test if the `cell` is zero. -/
theorem Realizes.ifZero (htape : OnTape pos) (hopen : T.Open cell) (hcell : Testable cell)
    (hbody : Realizes T Register.flag body mid f) :
    Realizes T pos (Generator.ifZero cell body) pos
      fun s => if s.cells cell = 0 then
          (f (tested s 1)).andThen fun t => .done ((t.set Register.flag 0).goTo pos)
        else .done ((tested s 0).goTo pos) :=
  (RealizesOn.ifZero htape hopen hcell hbody).congr fun _ _ _ => ⟨fun _ => trivial, rfl⟩

/-- A condition whose body always reaches its end, and of whose change to the cells the test's
registers are no part. -/
theorem Realizes.ifZero_done (htape : OnTape pos) (hopen : T.Open cell) (hcell : Testable cell)
    {h : Snapshot → Snapshot} (hbody : Realizes T Register.flag body mid fun s => .done (h s))
    (change : Snapshot → Snapshot) (hchange : ∀ s, ((h (tested s 1)).set Register.flag 0).goTo pos =
      (tested (change s) 0).goTo pos) :
    Realizes T pos (Generator.ifZero cell body) pos
      fun s => .done ((tested (if s.cells cell = 0 then change s else s) 0).goTo pos) :=
  (Realizes.ifZero htape hopen hcell hbody).congr fun s _ => by
    split
    · rw [Ending.andThen_done, hchange]
    · rfl

/-- As `Realizes.ifZero_done`. -/
theorem Realizes.ifNonzero_done (htape : OnTape pos) (hopen : T.Open cell) (hcell : Testable cell)
    {h : Snapshot → Snapshot}
    (hbody : Realizes T Register.flag body mid fun s => .done (h s)) (change : Snapshot → Snapshot)
    (hchange : ∀ s, ((h (tested s 1)).set Register.flag 0).goTo pos =
      (tested (change s) 0).goTo pos) :
    Realizes T pos (Generator.ifNonzero cell body) pos
      fun s => .done ((tested (if s.cells cell = 0 then s else change s) 0).goTo pos) :=
  (Realizes.ifNonzero htape hopen hcell hbody).congr fun s _ => by
    split
    · rfl
    · rw [Ending.andThen_done, hchange]

end TapeMachine.Generator
