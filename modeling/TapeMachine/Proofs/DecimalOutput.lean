import Mathlib.Logic.Function.Iterate
import TapeMachine.Proofs.CellArithmetic

/-!
# Decimal output

A number is printed by counting it down, while three registers count its digits: each holds ten less
a digit, so that it is zero when a digit has come to its end and one goes over to the next. The
digits are then restored one after another and printed, without the zeros in front of the first one.

The module introduces:

* `Generator.Writes`: some bytes were written, and nothing else changed but some cells;
* `Generator.Digits`: the registers hold the digits of a number; kept by `Generator.counted`, the
  pass of the loop that counts;
* `Generator.Digits.writes`: what is printed of the digits in the registers;
* `Generator.Session.runs_writeDecimal_writeNumber`: cells and constants are printed as numerals.
-/

namespace TapeMachine

/-- A loop whose passes count the cell under the cursor down by one repeats them as often as the
cell says. -/
theorem Effect.loop_iterate {h : Snapshot → Snapshot} {control : Int}
    (hcursor : ∀ s, (h s).cursor = control)
    (hcount : ∀ s, (h s).cells control = s.cells control - 1) {s : Snapshot}
    (hs : s.cursor = control) :
    loop (of fun s => .done (h s)) s (.done (h^[(s.cells control).toNat] s)) := by
  have htimes : ∀ n s, (of fun s => .done (h s)).times n s (.done (h^[n] s)) := by
    intro n
    induction n with
    | zero => exact fun s => rfl
    | succ n ih => exact fun s => seq_of_done rfl (ih (h s))
  have hhere : ∀ s : Snapshot, s.cursor = control → s.here = s.cells control := by
    intro s hs
    rw [Snapshot.here, hs]
  -- As each pass takes one from the counter, there are as many passes as it says.
  rw [loop_iff_times (fun s => s.cursor = control) ?_ hs, hhere s hs]
  · exact htimes _ s
  · rintro s _ hs ⟨⟩
    refine ⟨hcursor s, ?_⟩
    rw [hhere s hs, hhere _ (hcursor s), hcount]

namespace Generator

variable {T : Trust} {pos cell : Int} {s t u : Snapshot} {a b text : Bytes} {cells : List Int}

/-! ### What is written, and what is left alone -/

/-- Whether bytes have been written, and nothing else has changed but some cells and the cursor. -/
structure Writes (cells : List Int) (text : Bytes) (s t : Snapshot) : Prop where
  output_eq : t.output = s.output ++ text
  input_eq : t.input = s.input
  cells_eq : ∀ cell ∉ cells, t.cells cell = s.cells cell

namespace Writes

/-- Nothing is written in nothing. -/
theorem refl (cells : List Int) (s : Snapshot) : Writes cells [] s s :=
  ⟨(List.append_nil _).symm, rfl, fun _ _ => rfl⟩

/-- What is written first stands in front of what is written later. -/
theorem trans (h : Writes cells a s t) (h' : Writes cells b t u) : Writes cells (a ++ b) s u where
  output_eq := by rw [h'.output_eq, h.output_eq, List.append_assoc]
  input_eq := h'.input_eq.trans h.input_eq
  cells_eq cell hcell := (h'.cells_eq cell hcell).trans (h.cells_eq cell hcell)

/-- More cells may be used. -/
theorem mono {more : List Int} (h : Writes cells text s t) (hsub : cells ⊆ more) :
    Writes more text s t :=
  ⟨h.output_eq, h.input_eq, fun cell hcell => h.cells_eq cell fun hmem => hcell (hsub hmem)⟩

/-- The cursor may be anywhere. -/
theorem goTo (h : Writes cells text s t) (pos : Int) : Writes cells text s (t.goTo pos) :=
  ⟨h.output_eq, h.input_eq, h.cells_eq⟩

/-- A cell that may be used may be set. -/
theorem set (h : Writes cells text s t) (hcell : cell ∈ cells) (v : UInt8) :
    Writes cells text s (t.set cell v) where
  output_eq := h.output_eq
  input_eq := h.input_eq
  cells_eq other hother := by
    rw [Snapshot.cells_set_of_ne (by rintro rfl; exact hother hcell)]
    exact h.cells_eq other hother

/-- More may be written. -/
theorem emit (h : Writes cells a s t) (b : Bytes) : Writes cells (a ++ b) s (t.emit b) :=
  h.trans ⟨rfl, rfl, fun _ _ => rfl⟩

/-- A test changes its registers only. -/
theorem tested (h : Writes cells text s t) (hcells : [Register.zeroTest, Register.copy,
    Register.flag] ⊆ cells) (outcome : UInt8) : Writes cells text s (tested t outcome) :=
  (((h.set (hcells (by simp)) 0).set (hcells (by simp)) 0).set (hcells (by simp)) outcome).goTo _

end Writes

/-- What spares all but some cells writes nothing and uses these. -/
theorem Spares.writes (h : Spares cells s t) : Writes cells [] s t :=
  ⟨h.output_eq.trans (List.append_nil _).symm, h.input_eq, h.cells_eq⟩

/-! ### Splitting a number into digits -/

private theorem usable_digitWork : Register.Usable Register.digitWork := by decide
private theorem usable_ones : Register.Usable Register.ones := by decide
private theorem usable_tens : Register.Usable Register.tens := by decide
private theorem usable_hundreds : Register.Usable Register.hundreds := by decide
private theorem usable_bump : Register.Usable Register.bump := by decide
private theorem testable_ones : Testable Register.ones := by decide
private theorem testable_tens : Testable Register.tens := by decide
private theorem testable_hundreds : Testable Register.hundreds := by decide

/-- Ten tens go over to the hundreds. -/
def carryTen (s : Snapshot) : Snapshot :=
  (s.set Register.tens (s.cells Register.tens + 10)).set Register.hundreds
    (s.cells Register.hundreds - 1)

/-- Ten ones go over to the tens, and on to the hundreds if these have come to their end. -/
def carryOne (s : Snapshot) : Snapshot :=
  let s := (s.set Register.ones (s.cells Register.ones + 10)).set Register.tens
    (s.cells Register.tens - 1)
  if s.cells Register.tens = 0 then carryTen s else s

/-- One is counted, with what goes over. -/
def counted (s : Snapshot) : Snapshot :=
  let s := (s.set Register.digitWork (s.cells Register.digitWork - 1)).set Register.ones
    (s.cells Register.ones - 1)
  (tested (if s.cells Register.ones = 0 then carryOne s else s) 0).goTo Register.digitWork

/-- The registers of a test do not matter to the carry from the tens. -/
theorem carryTen_tested (s : Snapshot) (v : UInt8) :
    carryTen (tested s v) = tested (carryTen s) v := by
  simp only [carryTen, tested_cells testable_tens, tested_cells testable_hundreds,
    tested_set testable_tens, tested_set testable_hundreds]

/-- The registers of a test do not matter to the carry from the ones. -/
theorem carryOne_tested (s : Snapshot) (v : UInt8) :
    carryOne (tested s v) = tested (carryOne s) v := by
  simp only [carryOne, tested_cells testable_tens, tested_cells testable_ones,
    tested_set testable_tens, tested_set testable_ones, carryTen_tested]
  split <;> rfl

/-- The cursor does not matter to the carry from the ones. -/
theorem carryOne_goTo (s : Snapshot) (pos : Int) :
    carryOne (s.goTo pos) = (carryOne s).goTo pos := by
  simp only [carryOne, Snapshot.set_goTo, Snapshot.goTo_cells]
  rw [apply_ite (Snapshot.goTo · pos)]
  rfl

/-- A pass of the loop counts one. -/
private theorem realizes_counted : Realizes T Register.digitWork (sequence [sequence [
      decAt Register.digitWork,
      decAt Register.ones,
      ifZero Register.ones (sequence [
        addAt Register.ones 10,
        decAt Register.tens,
        ifZero Register.tens (sequence [
          addAt Register.tens 10,
          decAt Register.hundreds])])],
      moveTo Register.digitWork]) Register.digitWork fun s => .done (counted s) := by
  have hten : UInt8.ofInt 10 = 10 := by decide
  -- From the inside out: the hundreds, then the tens with a carry to them, then the ones.
  have hhundreds : Realizes T Register.flag (sequence [addAt Register.tens 10,
      decAt Register.hundreds]) Register.hundreds
      fun s => .done ((carryTen s).goTo Register.hundreds) :=
    ((Realizes.addAt _ (usable_tens.isOpen T) (T.adds_ten _)).cons
      ((Realizes.decAt _ (usable_hundreds.isOpen T)).cons (.nil _))).congr fun s _ => by
        simp (disch := decide) [carryTen, hten, Function.update_of_ne]
  have htens := Realizes.ifZero_done usable_tens.onTape (usable_tens.isOpen T) testable_tens
    hhundreds carryTen fun s => by
      simp only [Snapshot.set_goTo, Snapshot.goTo_goTo, carryTen_tested, tested_set_flag]
  have htens' : Realizes T Register.flag (sequence [addAt Register.ones 10, decAt Register.tens,
      ifZero Register.tens (sequence [addAt Register.tens 10, decAt Register.hundreds])])
      Register.tens fun s => .done ((tested (carryOne s) 0).goTo Register.tens) :=
    ((Realizes.addAt _ (usable_ones.isOpen T) (T.adds_ten _)).cons
      ((Realizes.decAt _ (usable_tens.isOpen T)).cons (htens.cons (.nil _)))).congr fun s _ => by
        simp (disch := decide) only [Ending.andThen_done, carryOne, hten, Snapshot.set_goTo,
          Snapshot.goTo_goTo, Snapshot.goTo_cells, Snapshot.cells_set_of_ne]
        split <;> rfl
  have hones := Realizes.ifZero_done usable_ones.onTape (usable_ones.isOpen T) testable_ones
    htens' carryOne fun s => by
      simp only [Snapshot.set_goTo, Snapshot.goTo_goTo, carryOne_tested, tested_tested,
        tested_set_flag]
  refine (((Realizes.decAt _ (usable_digitWork.isOpen T)).cons ((Realizes.decAt _
    (usable_ones.isOpen T)).cons (hones.cons (.nil _)))).cons ((Realizes.moveTo _
      usable_digitWork.onTape).cons (.nil _))).congr fun s _ => ?_
  simp (disch := decide) only [Ending.andThen_done, counted, Snapshot.set_goTo, Snapshot.goTo_goTo,
    Snapshot.goTo_cells, Snapshot.cells_set_of_ne, carryOne_goTo]
  split <;> rfl

/-- Whether the registers hold the digits of a number, each as ten less it. -/
structure Digits (n : Nat) (s : Snapshot) : Prop where
  ones_eq : (s.cells Register.ones).toNat = 10 - n % 10
  tens_eq : (s.cells Register.tens).toNat = 10 - n / 10 % 10
  hundreds_eq : (s.cells Register.hundreds).toNat = 10 - n / 100

/-- What counting one leaves in the cells. -/
private theorem counted_cells (s : Snapshot) (p : Int) : (counted s).cells p =
    if p = Register.zeroTest ∨ p = Register.copy ∨ p = Register.flag then 0 else
    if p = Register.digitWork then s.cells p - 1 else
    if p = Register.ones then if s.cells p - 1 = 0 then 10 else s.cells p - 1 else
    if p = Register.tens then if s.cells Register.ones - 1 = 0 then
      if s.cells p - 1 = 0 then 10 else s.cells p - 1 else s.cells p else
    if p = Register.hundreds then if s.cells Register.ones - 1 = 0 ∧ s.cells Register.tens - 1 = 0
      then s.cells p - 1 else s.cells p else s.cells p := by
  simp (disch := decide) only [counted, carryOne, carryTen, Snapshot.cells_set_of_ne,
    Snapshot.cells_set_self]
  -- The three cases are those of the carry: none, to the tens, to the hundreds.
  by_cases hones : s.cells Register.ones - 1 = 0
  · by_cases htens : s.cells Register.tens - 1 = 0
    · simp only [hones, htens, if_true, tested, Snapshot.goTo_cells, Snapshot.set_cells,
        Function.update_apply]
      grind
    · simp only [hones, htens, if_true, if_false, tested, Snapshot.goTo_cells, Snapshot.set_cells,
        Function.update_apply]
      grind
  · simp only [hones, if_false, tested, Snapshot.goTo_cells, Snapshot.set_cells,
      Function.update_apply]
    grind

/-- Counting one takes the digits of a number to those of the next one. -/
theorem Digits.counted {n : Nat} (h : Digits n s) (hn : n < 999) : Digits (n + 1) (counted s) := by
  obtain ⟨hones, htens, hhundreds⟩ := h
  have hsub : ∀ v : UInt8, v.toNat ≠ 0 → (v - 1).toNat = v.toNat - 1 := fun v hv =>
    UInt8.toNat_sub_of_le _ _ (UInt8.le_iff_toNat_le.mpr (Nat.one_le_iff_ne_zero.mpr hv))
  have hones' := hsub (s.cells Register.ones) (by omega)
  have htens' := hsub (s.cells Register.tens) (by omega)
  have hhundreds' := hsub (s.cells Register.hundreds) (by omega)
  have hten : (10 : UInt8).toNat = 10 := rfl
  -- A digit has come to its end when it was nine, and then the next one is counted, too.
  have hzero : ∀ v : UInt8, v - 1 = 0 ↔ (v - 1).toNat = 0 := fun v => UInt8.toNat_inj.symm
  have honesCell : (Generator.counted s).cells Register.ones =
      if s.cells Register.ones - 1 = 0 then 10 else s.cells Register.ones - 1 := by
    simp [counted_cells]
  have htensCell : (Generator.counted s).cells Register.tens =
      if s.cells Register.ones - 1 = 0 then
        if s.cells Register.tens - 1 = 0 then 10 else s.cells Register.tens - 1
      else s.cells Register.tens := by
    simp [counted_cells]
  have hhundredsCell : (Generator.counted s).cells Register.hundreds =
      if s.cells Register.ones - 1 = 0 ∧ s.cells Register.tens - 1 = 0 then
        s.cells Register.hundreds - 1 else s.cells Register.hundreds := by
    simp [counted_cells]
  simp only [hzero] at honesCell htensCell hhundredsCell
  refine ⟨?_, ?_, ?_⟩
  · rw [honesCell]
    split <;> omega
  · rw [htensCell]
    split
    · split <;> omega
    · omega
  · rw [hhundredsCell]
    split <;> omega

/-- The cells in which a number is split. -/
abbrev splitCells : List Int :=
  [Register.digitWork, Register.ones, Register.tens, Register.hundreds, Register.zeroTest,
    Register.copy, Register.flag]

/-- Counting uses the registers of the digits and of a test. -/
theorem writes_counted (s : Snapshot) : Writes splitCells [] s (counted s) := by
  have htaken := ((Writes.refl splitCells s).set (show Register.digitWork ∈ _ by decide)
    (s.cells Register.digitWork - 1)).set (show Register.ones ∈ _ by decide)
      (s.cells Register.ones - 1)
  have hcarryTen : ∀ {t}, Writes splitCells [] s t → Writes splitCells [] s (carryTen t) :=
    fun h => (h.set (by decide) _).set (by decide) _
  have hcarryOne : ∀ {t}, Writes splitCells [] s t → Writes splitCells [] s (carryOne t) := by
    intro t h
    have hones := (h.set (show Register.ones ∈ _ by decide) (t.cells Register.ones + 10)).set
      (show Register.tens ∈ _ by decide) (t.cells Register.tens - 1)
    simp only [carryOne]
    split
    · exact hcarryTen hones
    · exact hones
  refine (Writes.tested ?_ (by decide) 0).goTo _
  split
  · exact hcarryOne htaken
  · exact htaken

/-- The loop counts a number from nothing. -/
theorem digits_iterate {n : Nat} (h : Digits 0 s) (hn : n < 1000) :
    Digits n (counted^[n] s) ∧ Writes splitCells [] s (counted^[n] s) := by
  induction n with
  | zero => exact ⟨h, Writes.refl _ _⟩
  | succ n ih =>
    obtain ⟨hdigits, hwrites⟩ := ih (by omega)
    rw [Function.iterate_succ_apply']
    exact ⟨hdigits.counted (by omega), hwrites.trans (writes_counted _)⟩

/-- The number has been copied to where it is counted down, and nothing is counted yet. -/
def uncounted (pos : Int) (s : Snapshot) : Snapshot :=
  (((((s.set Register.digitWork (s.cells pos)).set Register.copy 0).set Register.ones 10).set
    Register.tens 10).set Register.hundreds 10).goTo Register.digitWork

/-- The digits are zero before anything is counted. -/
theorem digits_uncounted (pos : Int) (s : Snapshot) : Digits 0 (uncounted pos s) := by
  refine ⟨?_, ?_, ?_⟩ <;> simp [uncounted]

/-- Setting up the digits uses their registers and that of copies. -/
theorem writes_uncounted (pos : Int) (s : Snapshot) : Writes splitCells [] s (uncounted pos s) := by
  have hcopied := ((Writes.refl splitCells s).set (show Register.digitWork ∈ _ by decide)
    (s.cells pos)).set (show Register.copy ∈ _ by decide) 0
  exact (((hcopied.set (show Register.ones ∈ _ by decide) 10).set
    (show Register.tens ∈ _ by decide) 10).set (show Register.hundreds ∈ _ by decide) 10).goTo _

/-- The snapshot after `splitDigits pos`: what the cell `pos` holds has been counted up in the
registers of the digits. -/
def afterSplitDigits (pos : Int) (s : Snapshot) : Snapshot :=
  counted^[(s.cells pos).toNat] (uncounted pos s)

/-- Splitting leaves the digits of the number, and the number itself. -/
theorem digits_afterSplitDigits (pos : Int) (s : Snapshot) :
    Digits (s.cells pos).toNat (afterSplitDigits pos s) ∧
      Writes splitCells [] s (afterSplitDigits pos s) := by
  have hlt := (s.cells pos).toNat_lt
  obtain ⟨hdigits, hwrites⟩ :=
    digits_iterate (digits_uncounted pos s) (show (s.cells pos).toNat < 1000 by omega)
  exact ⟨hdigits, (writes_uncounted pos s).trans hwrites⟩

/-- `splitDigits pos` leaves `afterSplitDigits pos`, where the `pos` is open. -/
theorem Realizes.splitDigits {start : Int} (hstart : OnTape start) (hopen : T.Open pos)
    (hne : pos ≠ Register.copy) (hne' : pos ≠ Register.digitWork) :
    Realizes T start (Generator.splitDigits pos) Register.digitWork
      fun s => .done (afterSplitDigits pos s) := by
  have hten : UInt8.ofInt 10 = 10 := by decide
  have hcount : ∀ s, (Generator.counted s).cells Register.digitWork =
      s.cells Register.digitWork - 1 := fun s => by simp [counted_cells]
  have hloop : Realizes T Register.hundreds (loopAt Register.digitWork _) Register.digitWork _ :=
    Realizes.loopOn _ usable_digitWork.onTape realizes_counted
      (g := fun s => .done (Generator.counted^[(s.cells Register.digitWork).toNat] s))
      fun s hs => @Effect.loop_iterate Generator.counted _ (fun _ => rfl) hcount s hs.cursor
  refine ((Realizes.copy hstart (usable_digitWork.isOpen T) hopen hne'.symm (by decide) hne).cons
    ((Realizes.setAt _ (usable_ones.isOpen T) (T.adds_ten _)).cons ((Realizes.setAt _
      (usable_tens.isOpen T) (T.adds_ten _)).cons ((Realizes.setAt _ (usable_hundreds.isOpen T)
        (T.adds_ten _)).cons (hloop.cons (.nil _)))))).congr fun s _ => ?_
  simp (disch := decide) [afterSplitDigits, uncounted, hten, Function.update_of_ne]

/-! ### Printing the digits -/

/-- The digit that a register holds ten less of is in `digitWork`. -/
def restored (register : Int) (s : Snapshot) : Snapshot :=
  subtracted Register.digitWork register ((s.set Register.digitWork 10).goTo Register.digitWork)

/-- The digit in `digitWork` has been written. -/
def typedDigit (s : Snapshot) : Snapshot :=
  ((s.set Register.digitWork (s.cells Register.digitWork + 48)).goTo Register.digitWork).emit
    [s.cells Register.digitWork + 48]

/-- Something was done once if a cell is not zero, after the test of the cell. -/
def guarded (cell pos : Int) (body : Snapshot → Snapshot) (s : Snapshot) : Snapshot :=
  if s.cells cell = 0 then (tested s 0).goTo pos
  else ((body (tested s 1)).set Register.flag 0).goTo pos

/-- A zero was written if `digitWork` is zero, after the test for that. -/
def typedZero (s : Snapshot) : Snapshot :=
  if s.cells Register.digitWork = 0 then
    ((((tested s 1).set Register.put 48).emit [48]).set Register.flag 0).goTo Register.flag
  else (tested s 0).goTo Register.flag

/-- The hundreds have been written if there are any, which is noted in `bump`. -/
def printedHundreds (s : Snapshot) : Snapshot :=
  guarded Register.digitWork Register.digitWork
    (fun s => ((typedDigit s).set Register.bump 1).goTo Register.bump)
    (restored Register.hundreds ((s.set Register.bump 0).goTo Register.bump))

/-- The tens have been written if there are any, or hundreds before them. -/
def printedTens (s : Snapshot) : Snapshot :=
  guarded Register.digitWork Register.digitWork typedDigit
    (guarded Register.bump Register.digitWork typedZero (restored Register.tens s))

/-- The ones have been written. -/
def printedOnes (s : Snapshot) : Snapshot :=
  (((typedDigit (restored Register.ones s)).set Register.digitWork 0).set Register.bump 0).goTo
    Register.bump

/-- A condition on a `cell` does `guarded`, if its body does `h` after a test and `p` holds there.
-/
theorem RealizesOn.ifNonzero_guarded {body : Gen Fragment} {mid : Int} {p : Snapshot → Prop}
    {h : Snapshot → Snapshot} (htape : OnTape pos) (hopen : T.Open cell) (hcell : Testable cell)
    (hbody : RealizesOn T p Register.flag body mid fun s => .done (h s)) :
    RealizesOn T (fun s => s.cells cell ≠ 0 → p (tested s 1)) pos (Generator.ifNonzero cell body)
      pos fun s => .done (guarded cell pos h s) :=
  (RealizesOn.ifNonzero htape hopen hcell hbody).congr fun s _ hp => ⟨hp, by
    rw [guarded, apply_ite Ending.done]
    rfl⟩

/-- The same where nothing is asked of the snapshot. -/
theorem Realizes.ifNonzero_guarded {body : Gen Fragment} {mid : Int} {h : Snapshot → Snapshot}
    (htape : OnTape pos) (hopen : T.Open cell) (hcell : Testable cell)
    (hbody : Realizes T Register.flag body mid fun s => .done (h s)) :
    Realizes T pos (Generator.ifNonzero cell body) pos fun s => .done (guarded cell pos h s) :=
  (RealizesOn.ifNonzero_guarded htape hopen hcell hbody).congr fun _ _ _ => ⟨fun _ => trivial, rfl⟩

private theorem operand_digitWork : Operand Register.digitWork := by decide

/-- `restoreDigit register` leaves `restored register`. -/
theorem Realizes.restoreDigit (pos : Int) {register : Int} (hopen : T.Open register)
    (hregister : Operand register) :
    Realizes T pos (Generator.restoreDigit register) Register.digitWork
      fun s => .done (restored register s) :=
  (Realizes.setAt pos (usable_digitWork.isOpen T) (T.adds_ten _)).cons ((Realizes.subCell
    usable_digitWork.onTape (usable_digitWork.isOpen T) operand_digitWork hopen hregister).cons
      (.nil _))

/-- `printDigit` leaves `typedDigit`, where the code of zero can be added. -/
theorem Realizes.printDigit (pos : Int) (hadds : T.Adds Register.digitWork 48) :
    Realizes T pos Generator.printDigit Register.digitWork fun s => .done (typedDigit s) :=
  ((Realizes.addAt pos (usable_digitWork.isOpen T) hadds).cons ((Realizes.write _).cons
    (.nil _))).congr fun s _ => by
      have hzero : UInt8.ofInt 48 = 48 := by decide
      simp [typedDigit, Snapshot.write, hzero]

/-- A byte is written where the cell behind `put` is zero. -/
theorem RealizesOn.writeChar (htape : OnTape pos) (c : UInt8) :
    RealizesOn T (fun s => s.cells Register.putPad = 0) pos (Generator.writeChar c) pos
      fun s => .done ((s.set Register.put c).emit [c]) := by
  have hput : Register.Usable Register.put := by decide
  refine (noted _ (saveCursor htape ((RealizesOn.setAt pos (hput.isOpen T) hput.next_onTape
    c.toNat).cons ((Realizes.write _).cons (.nil _))))).congr fun s hs hpad => ⟨hpad, ?_⟩
  simp only [Ending.andThen_done, Snapshot.write, ofInt_toNat, Snapshot.here_goTo,
    Snapshot.cells_set_self, Snapshot.goTo_emit, Snapshot.goTo_goTo, ← hs.cursor]
  rfl

/-! ### What is printed -/

/-- The cells in which digits are restored and printed. -/
abbrev workCells : List Int :=
  [Register.digitWork, Register.borrow, Register.copy, Register.addSub, Register.zeroTest,
    Register.flag]

/-- Restoring a digit writes nothing. -/
theorem writes_restored {register : Int} (hregister : Operand register) (s : Snapshot) :
    Writes workCells [] s (restored register s) :=
  (((Writes.refl workCells s).set (show Register.digitWork ∈ _ by decide) 10).goTo _).trans
    (subtracts_subtracted operand_digitWork hregister).spares.writes

/-- The digit that is restored is what the `register` lacks to ten. -/
theorem restored_digitWork {register : Int} (hne : register ≠ Register.digitWork) (s : Snapshot) :
    (restored register s).cells Register.digitWork = 10 - s.cells register := by
  have hkept : (s.set Register.digitWork 10).cells register = s.cells register :=
    Snapshot.cells_set_of_ne hne
  simp (disch := decide) only [restored, subtracted, Snapshot.cells_set_of_ne,
    Snapshot.cells_set_self, Snapshot.goTo_cells, hkept]

/-- Typing a digit writes its code. -/
theorem writes_typedDigit (s : Snapshot) :
    Writes workCells [s.cells Register.digitWork + 48] s (typedDigit s) :=
  (((Writes.refl workCells s).set (by decide) _).goTo _).emit _

/-- What is written under a condition is written or not. -/
theorem writes_guarded (cell pos : Int) (body : Snapshot → Snapshot)
    (hcells : [Register.zeroTest, Register.copy, Register.flag] ⊆ cells)
    (hbody : Writes cells text (tested s 1) (body (tested s 1))) :
    Writes cells (if s.cells cell = 0 then [] else text) s (guarded cell pos body s) := by
  unfold guarded
  split
  · exact ((Writes.refl cells s).tested hcells 0).goTo pos
  · exact ((((Writes.refl cells s).tested hcells 1).trans hbody).set (hcells (by simp)) 0).goTo pos

/-- Typing a zero writes it only if the tens are zero. -/
theorem writes_typedZero (s : Snapshot) :
    Writes [Register.put, Register.zeroTest, Register.copy, Register.flag]
      (if s.cells Register.digitWork = 0 then [48] else []) s (typedZero s) := by
  have htested := fun v => (Writes.refl [Register.put, Register.zeroTest, Register.copy,
    Register.flag] s).tested (by decide) v
  unfold typedZero
  split
  · exact ((((htested 1).set (by decide) 48).emit [48]).set (by decide) 0).goTo _
  · exact (htested 0).goTo _

/-- The cells that are changed when digits are printed. -/
abbrev printCells : List Int :=
  Register.put :: Register.bump :: workCells

/-- The registers of tests are among those that printing uses. -/
private theorem tests_subset_printCells :
    [Register.zeroTest, Register.copy, Register.flag] ⊆ printCells := by
  decide

/-- The hundreds are written unless they are zero, and `bump` tells whether they were. -/
theorem writes_printedHundreds (s : Snapshot) :
    Writes printCells (if 10 - s.cells Register.hundreds = 0 then [] else
      [10 - s.cells Register.hundreds + 48]) s (printedHundreds s) ∧
    (printedHundreds s).cells Register.bump =
      if 10 - s.cells Register.hundreds = 0 then 0 else 1 := by
  have hregister : Operand Register.hundreds := by decide
  have hcleared := ((Writes.refl printCells s).set (show Register.bump ∈ _ by decide) 0).goTo
    Register.bump
  have hrestored := writes_restored hregister ((s.set Register.bump 0).goTo Register.bump)
  have hdigit := restored_digitWork (by decide : Register.hundreds ≠ Register.digitWork)
    ((s.set Register.bump 0).goTo Register.bump)
  rw [Snapshot.goTo_cells, Snapshot.cells_set_of_ne (by decide)] at hdigit
  have hbump := hrestored.cells_eq Register.bump (by decide)
  rw [Snapshot.goTo_cells, Snapshot.cells_set_self] at hbump
  rw [printedHundreds]
  -- From here on only three facts about the restored digit matter.
  generalize restored Register.hundreds ((s.set Register.bump 0).goTo Register.bump) = u at *
  have htyped : Writes printCells [10 - s.cells Register.hundreds + 48] (tested u 1)
      (((typedDigit (tested u 1)).set Register.bump 1).goTo Register.bump) := by
    have h := (writes_typedDigit (tested u 1)).mono (show workCells ⊆ printCells by decide)
    rw [tested_cells operand_digitWork.toTestable, hdigit] at h
    exact (h.set (by decide) 1).goTo _
  have hguarded := writes_guarded Register.digitWork Register.digitWork
    (fun s => ((typedDigit s).set Register.bump 1).goTo Register.bump) tests_subset_printCells
    htyped
  rw [hdigit] at hguarded
  refine ⟨(hcleared.trans (hrestored.mono (by decide))).trans hguarded, ?_⟩
  rw [guarded, hdigit]
  split
  · rw [Snapshot.goTo_cells, tested_cells (by decide), hbump]
  · simp (disch := decide) only [Snapshot.set_goTo, Snapshot.goTo_cells, Snapshot.cells_set_of_ne,
      Snapshot.cells_set_self]

/-- The tens are written unless they are zero and nothing was written before. -/
theorem writes_printedTens (s : Snapshot) :
    Writes printCells ((if s.cells Register.bump = 0 then [] else
      if 10 - s.cells Register.tens = 0 then [48] else []) ++
        if 10 - s.cells Register.tens = 0 then [] else [10 - s.cells Register.tens + 48])
      s (printedTens s) := by
  have hrestored := writes_restored (by decide : Operand Register.tens) s
  have hdigit := restored_digitWork (by decide : Register.tens ≠ Register.digitWork) s
  have hbump := hrestored.cells_eq Register.bump (by decide)
  rw [printedTens]
  generalize restored Register.tens s = u at *
  -- A zero behind the hundreds is written without a change to the digit.
  have hzero := writes_guarded Register.bump Register.digitWork typedZero (by decide)
    (writes_typedZero (tested u 1))
  rw [tested_cells operand_digitWork.toTestable, hdigit, hbump] at hzero
  have hdigit' := (hzero.cells_eq Register.digitWork (by decide)).trans hdigit
  generalize guarded Register.bump Register.digitWork typedZero u = w at *
  have htyped := (writes_typedDigit (tested w 1)).mono (show workCells ⊆ printCells by decide)
  rw [tested_cells operand_digitWork.toTestable, hdigit'] at htyped
  have hguarded := writes_guarded Register.digitWork Register.digitWork typedDigit
    tests_subset_printCells htyped
  rw [hdigit'] at hguarded
  exact ((hrestored.mono (by decide)).trans (hzero.mono (by decide))).trans hguarded

/-- The ones are always written. -/
theorem writes_printedOnes (s : Snapshot) :
    Writes printCells [10 - s.cells Register.ones + 48] s (printedOnes s) := by
  have hrestored := (writes_restored (by decide : Operand Register.ones) s).mono
    (show workCells ⊆ printCells by decide)
  have htyped := (writes_typedDigit (restored Register.ones s)).mono
    (show workCells ⊆ printCells by decide)
  rw [restored_digitWork (by decide)] at htyped
  exact (((hrestored.trans htyped).set (by decide) 0).set (by decide) 0).goTo _

section Printing

variable (hadds : T.Adds Register.digitWork 48)
include hadds

/-- The steps that print the hundreds. -/
private theorem realizes_hundreds (pos : Int) : Realizes T pos (sequence [
      clearAt Register.bump,
      restoreDigit Register.hundreds,
      ifNonzero Register.digitWork (sequence [printDigit, setAt Register.bump 1])])
    Register.digitWork fun s => .done (printedHundreds s) := by
  have hnoted : Realizes T Register.flag (sequence [printDigit, setAt Register.bump 1])
      Register.bump fun s => .done (((typedDigit s).set Register.bump 1).goTo Register.bump) :=
    (Realizes.printDigit _ hadds).cons ((Realizes.setAt _ (usable_bump.isOpen T)
      (T.adds_one _)).cons (.nil _))
  exact (Realizes.clearAt pos (usable_bump.isOpen T)).cons ((Realizes.restoreDigit _
    (usable_hundreds.isOpen T) (by decide)).cons ((Realizes.ifNonzero_guarded
      usable_digitWork.onTape (usable_digitWork.isOpen T) operand_digitWork.toTestable
        hnoted).cons (.nil _)))

/-- Only the zero behind the hundreds depends on the cell behind `put`. -/
private theorem realizes_tens : RealizesOn T (fun s => s.cells Register.putPad = 0)
    Register.digitWork (sequence [
      restoreDigit Register.tens,
      ifNonzero Register.bump (ifZero Register.digitWork (writeChar 48)),
      ifNonzero Register.digitWork printDigit])
    Register.digitWork fun s => .done (printedTens s) := by
  have htape := usable_digitWork.onTape
  have hopen := usable_digitWork.isOpen T
  have hdigit := operand_digitWork.toTestable
  have hpad : Testable Register.putPad := by decide
  -- A zero is typed only behind a digit that is not; the pad of the printing is no cell of a test.
  have htyped : RealizesOn T (fun s => s.cells Register.putPad = 0) Register.flag
      (ifZero Register.digitWork (writeChar 48)) Register.flag fun s => .done (typedZero s) := by
    have hflag : OnTape Register.flag := by decide
    refine (RealizesOn.ifZero hflag hopen hdigit (RealizesOn.writeChar hflag 48)).congr
      fun s _ hs => ⟨fun _ => by rwa [tested_cells hpad], ?_⟩
    rw [typedZero, apply_ite Ending.done]
    rfl
  have hzero : RealizesOn T (fun s => s.cells Register.putPad = 0) Register.digitWork
      (ifNonzero Register.bump (ifZero Register.digitWork (writeChar 48))) Register.digitWork
        fun s => .done (guarded Register.bump Register.digitWork typedZero s) :=
    (RealizesOn.ifNonzero_guarded htape (usable_bump.isOpen T) (by decide) htyped).congr
      fun s _ hs => ⟨fun _ => by rwa [tested_cells hpad], rfl⟩
  refine RealizesOn.cons_on (Realizes.restoreDigit _ (usable_tens.isOpen T) (by decide))
    (hzero.cons ((Realizes.ifNonzero_guarded htape hopen hdigit
      (Realizes.printDigit _ hadds)).cons (.nil _))) ?_
  rintro s _ hs ⟨⟩
  rwa [(writes_restored (by decide) s).cells_eq _ (by decide)]

/-- The steps that print the ones, and clear the registers. -/
private theorem realizes_ones : Realizes T Register.digitWork (sequence [
      restoreDigit Register.ones,
      printDigit,
      clearAt Register.digitWork,
      clearAt Register.bump]) Register.bump fun s => .done (printedOnes s) :=
  (Realizes.restoreDigit _ (usable_ones.isOpen T) (by decide)).cons ((Realizes.printDigit _
    hadds).cons ((Realizes.clearAt _ (usable_digitWork.isOpen T)).cons ((Realizes.clearAt _
      (usable_bump.isOpen T)).cons (.nil _))))

/-- `printDigits` prints all digits, where the pad of `put` is zero. -/
theorem RealizesOn.printDigits (pos : Int) :
    RealizesOn T (fun s => s.cells Register.putPad = 0) pos Generator.printDigits Register.bump
      fun s => .done (printedOnes (printedTens (printedHundreds s))) := by
  refine sequence_append ((realizes_hundreds hadds pos).on _) (sequence_append
    (realizes_tens hadds) (realizes_ones hadds) fun _ _ _ _ => trivial) ?_
  rintro s _ hs ⟨⟩
  rwa [(writes_printedHundreds s).1.cells_eq _ (by decide)]

end Printing

/-! ### Numerals -/

/-- What is printed of three digits. -/
def numeral (hundreds tens ones : UInt8) : Bytes :=
  (if hundreds = 0 then [] else [hundreds + 48]) ++
    ((if (if hundreds = 0 then 0 else 1 : UInt8) = 0 then [] else if tens = 0 then [48] else []) ++
      if tens = 0 then [] else [tens + 48]) ++ [ones + 48]

/-- The digits of a number make up its numeral, without zeros in front. -/
theorem numeral_eq_ofNat {n : Nat} (hn : n < 1000) :
    numeral (UInt8.ofNat (n / 100)) (UInt8.ofNat (n / 10 % 10)) (UInt8.ofNat (n % 10)) =
      Bytes.ofNat n := by
  have hdigit : ∀ d < 10, d.digitChar.toUInt8 = UInt8.ofNat d + 48 := by decide
  have hzero : ∀ d < 10, UInt8.ofNat d = 0 ↔ d = 0 := by decide
  have hones := hdigit (n % 10) (by omega)
  have htens := hdigit (n / 10 % 10) (by omega)
  have hhundreds := hdigit (n / 100) (by omega)
  simp only [numeral, hzero (n / 100) (by omega), hzero (n / 10 % 10) (by omega), Bytes.ofNat]
  by_cases hten : n < 10
  · have hfirst : n / 100 = 0 := by omega
    have hsecond : n / 10 % 10 = 0 := by omega
    have hthird : n % 10 = n := by omega
    rw [hthird] at hones ⊢
    simp [Nat.toDigits_of_lt_base hten, hfirst, hsecond, hones]
  rw [Nat.toDigits_of_base_le (by decide) (by omega)]
  by_cases hhundred : n < 100
  · have hfirst : n / 100 = 0 := by omega
    have hsecond : n / 10 % 10 = n / 10 := by omega
    have hsome : n / 10 ≠ 0 := by omega
    rw [hsecond] at htens ⊢
    rw [Nat.toDigits_of_lt_base (show n / 10 < 10 by omega)]
    simp [hfirst, hsome, htens, hones]
  · have hfirst : n / 10 / 10 = n / 100 := by omega
    have hsome : n / 100 ≠ 0 := by omega
    rw [Nat.toDigits_of_base_le (by decide) (by omega), hfirst,
      Nat.toDigits_of_lt_base (show n / 100 < 10 by omega)]
    -- A zero in the middle is written as such.
    by_cases hsecond : n / 10 % 10 = 0
    · simp [hsome, hsecond, hhundreds, hones, hdigit 0]
    · simp [hsome, hsecond, hhundreds, htens, hones]

/-- The digit that is restored. -/
private theorem sub_eq_ofNat {v : UInt8} {d : Nat} (hv : v.toNat = 10 - d) (hd : d < 10) :
    10 - v = UInt8.ofNat d := by
  have hten : (10 : UInt8).toNat = 10 := rfl
  have hle : v ≤ 10 := UInt8.le_iff_toNat_le.mpr (by omega)
  refine UInt8.toNat_inj.mp ?_
  rw [UInt8.toNat_sub_of_le _ _ hle, UInt8.toNat_ofNat']
  omega

/-- What is printed of the registers is the numeral of the number whose digits they hold. -/
theorem Digits.writes {n : Nat} (h : Digits n s) (hn : n < 1000) :
    Writes printCells (Bytes.ofNat n) s (printedOnes (printedTens (printedHundreds s))) := by
  obtain ⟨hhundreds, hbump⟩ := writes_printedHundreds s
  have htens := writes_printedTens (printedHundreds s)
  have hones := writes_printedOnes (printedTens (printedHundreds s))
  -- Printing a digit leaves the registers of the others alone.
  rw [hbump, hhundreds.cells_eq Register.tens (by decide)] at htens
  rw [htens.cells_eq Register.ones (by decide),
    hhundreds.cells_eq Register.ones (by decide)] at hones
  have hall := (hhundreds.trans htens).trans hones
  rw [sub_eq_ofNat h.hundreds_eq (by omega), sub_eq_ofNat h.tens_eq (by omega),
    sub_eq_ofNat h.ones_eq (by omega)] at hall
  rw [← numeral_eq_ofNat hn]
  exact hall

/-! ### Decimal output on machines -/

/-- The cells that are changed when a number is printed. -/
abbrev decimalCells : List Int :=
  [Register.put, Register.copy, Register.zeroTest, Register.addSub, Register.flag, Register.borrow,
    Register.bump, Register.digitWork, Register.digitPad, Register.hundreds, Register.tens,
    Register.ones]

/-- A number has been split and printed. -/
def printedDecimal (pos : Int) (s : Snapshot) : Snapshot :=
  printedOnes (printedTens (printedHundreds (afterSplitDigits pos s)))

/-- What a cell holds is written as a numeral. -/
theorem writes_printedDecimal (pos : Int) (s : Snapshot) :
    Writes decimalCells (Bytes.ofNat (s.cells pos).toNat) s (printedDecimal pos s) := by
  obtain ⟨hdigits, hsplit⟩ := digits_afterSplitDigits pos s
  have hlt := (s.cells pos).toNat_lt
  exact (hsplit.mono (by decide)).trans ((hdigits.writes (by omega)).mono (by decide))

/-- Splitting a number and printing its digits, where the cell behind `put` is zero. -/
private theorem realizes_decimal {start : Int} (hstart : OnTape start) (hopen : T.Open pos)
    (hne : pos ≠ Register.copy) (hne' : pos ≠ Register.digitWork)
    (hadds : T.Adds Register.digitWork 48) :
    RealizesOn T (fun s => s.cells Register.putPad = 0) start
      (sequence [splitDigits pos, printDigits]) Register.bump
      fun s => .done (printedDecimal pos s) := by
  refine RealizesOn.cons_on (Realizes.splitDigits hstart hopen hne hne')
    ((RealizesOn.printDigits hadds _).cons (.nil _)) ?_
  rintro s _ hs ⟨⟩
  rwa [(digits_afterSplitDigits pos s).2.cells_eq _ (by decide)]

/-- `writeDecimal pos` leaves `printedDecimal pos`, with the cursor where it was. -/
theorem RealizesOn.writeDecimal {start : Int} (hstart : OnTape start) (hopen : T.Open pos)
    (hne : pos ≠ Register.copy) (hne' : pos ≠ Register.digitWork)
    (hadds : T.Adds Register.digitWork 48) :
    RealizesOn T (fun s => s.cells Register.putPad = 0) start (Generator.writeDecimal pos) start
      fun s => .done ((printedDecimal pos s).goTo start) :=
  noted _ (saveCursor hstart (realizes_decimal hstart hopen hne hne' hadds))

/-- The value of every cell `pos` outside `decimalCells`, and every constant `v` modulo 256, is
printed as a decimal numeral, from every session `σ` in which `Register.putPad` and
`Register.digitPad` are clean, and on every tape on which `σ` `AgreesOnZeros`. -/
theorem Session.runs_writeDecimal_writeNumber {σ : Session} (htape : OnTape σ.cursor)
    (hputPad : σ.knowledge.isCleanPad Register.putPad = true)
    (hdigitPad : σ.knowledge.isCleanPad Register.digitPad = true) :
    (∀ pos, OnTape pos → pos ∉ decimalCells → σ.Runs (writeDecimal pos) σ.AgreesOnZeros fun s t =>
      Writes decimalCells (Bytes.ofNat (s.cells pos).toNat) s t ∧ t.cells pos = s.cells pos ∧
        t.cursor = s.cursor) ∧
    ∀ v : Int, σ.Runs (writeNumber v) σ.AgreesOnZeros fun s t =>
      Writes decimalCells (Bytes.ofNat (v % 256).toNat) s t ∧ t.cursor = s.cursor := by
  have hclean : ∀ pad, pad = Register.digitPad → σ.knowledge.isCleanPad pad = true := by
    rintro _ rfl
    exact hdigitPad
  have hzero : ∀ s, σ.AgreesOnZeros s → s.cells Register.putPad = 0 :=
    fun s hzeros => hzeros _ (if_pos hputPad)
  have hadds : ∀ amount, (Trust.inPads (· = Register.digitPad)).Adds Register.digitWork amount :=
    Trust.adds_inPads rfl (by decide)
  refine ⟨fun pos hpos hregister => ?_, fun v => ?_⟩
  · have hne : ∀ register ∈ decimalCells, pos ≠ register := by
      rintro register hmem rfl
      exact hregister hmem
    have hopen : (Trust.inPads (· = Register.digitPad)).Open pos :=
      Trust.isOpen_inPads hpos (hne _ (by decide))
    have hdecimal := realizes_decimal htape hopen (hne _ (by decide)) (hne _ (by decide)) (hadds 48)
    refine RealizesOn.runs_inPads hclean htape (f := fun s => (printedDecimal pos s).goTo σ.cursor)
      (RealizesOn.noted _ (RealizesOn.saveCursor htape hdecimal)) fun s hs hzeros => ?_
    have hwrites := (writes_printedDecimal pos s).goTo σ.cursor
    exact ⟨hzero s hzeros, rfl, hwrites, hwrites.cells_eq pos hregister, hs.symm⟩
  · -- The constant is put into a register, from where it is printed as any other number.
    have hput : Register.Usable Register.put := by decide
    have hdecimal := realizes_decimal hput.onTape (hput.isOpen (.inPads (· = Register.digitPad)))
      (by decide) (by decide) (hadds 48)
    have hset := (RealizesOn.setAt σ.cursor (hput.isOpen (.inPads (· = Register.digitPad)))
      hput.next_onTape v).append hdecimal (by
        rintro s _ hpad ⟨⟩
        rwa [Snapshot.goTo_cells, Snapshot.cells_set_of_ne (by decide)])
    refine RealizesOn.runs_inPads hclean htape (f := fun s => (printedDecimal Register.put
      ((s.set Register.put (UInt8.ofInt v)).goTo Register.put)).goTo σ.cursor)
      (RealizesOn.noted _ (RealizesOn.saveCursor htape hset)) fun s hs hzeros => ?_
    have hloaded := ((Writes.refl decimalCells s).set (show Register.put ∈ _ by decide)
      (UInt8.ofInt v)).goTo Register.put
    have hwrites := (writes_printedDecimal Register.put
      ((s.set Register.put (UInt8.ofInt v)).goTo Register.put)).goTo σ.cursor
    have hvalue : (UInt8.ofInt v).toNat = (v % 256).toNat := by
      have hbyte := toNat_ofInt v
      omega
    rw [Snapshot.goTo_cells, Snapshot.cells_set_self, hvalue] at hwrites
    exact ⟨hzero s hzeros, rfl, hloaded.trans hwrites, hs.symm⟩

/-- A hundred and five has a zero in the middle and none in front; minus one is 255 as a byte. -/
theorem Session.runs_writeDecimal_innerZero : ∃ (m m₁ m₂ : Machine) (code₁ code₂ : Fragment)
    (σ σ₁ σ₂ : Session) (program₁ program₂ : Program) (fuel₁ fuel₂ : Nat),
      m.Unhindered 0 .endless ∧ (m.view 0).cells 30 = 105 ∧ σ.cursor = 30 ∧
      σ.AgreesOnZeros (m.view 0) ∧
      (σ.perform (writeDecimal 30) = (.ok code₁, σ₁) ∧
        Program.parse (Fragment.text code₁) = .ok program₁ ∧
        m.exec .endless fuel₁ program₁ = .finished m₁ ∧ (m₁.view 0).output = utf8 "105" ∧
        (m₁.view 0).cells 30 = 105) ∧
      σ.perform (writeNumber (-1)) = (.ok code₂, σ₂) ∧
        Program.parse (Fragment.text code₂) = .ok program₂ ∧
        m.exec .endless fuel₂ program₂ = .finished m₂ ∧ (m₂.view 0).output = utf8 "255" := by
  -- A machine that has set a cell to the number.
  have hset := RealizesOn.setAt 0 (Trust.isOpen_nothing (show OnTape 30 by decide)) (by decide) 105
  obtain ⟨code, σ', program, -, -, hrun⟩ := RealizesOn.runs (σ := { wraps := true })
    (q := fun s t => t = (s.set 30 (UInt8.ofInt 105)).goTo 30) onTape_zero hset
      fun s _ _ => ⟨rfl, rfl⟩
  have hready := Machine.ready_forInput .endless []
  obtain ⟨fuel, ⟨hmemory, -⟩ | ⟨m, hexec, -, hview⟩⟩ := hrun hready.unhindered rfl
    (by rw [hready.view_eq]; rfl)
  · cases hmemory
  rw [hready.view_eq] at hview
  have hm := hready.unhindered.exec hexec
  have hcell : (m.view 0).cells 30 = 105 := by rw [hview]; rfl
  have houtput : (m.view 0).output = [] := by rw [hview]; rfl
  let σ : Session := { wraps := true, cursor := 30, knowledge := { base := [(30, none)] } }
  have hcursor : (m.view 0).cursor = σ.cursor := by rw [hview]; rfl
  have hzeros : σ.AgreesOnZeros (m.view 0) := by
    intro cell hzero
    have hne : cell ≠ 30 := by
      rintro rfl
      cases hzero
    rw [hview, Snapshot.goTo_cells, Snapshot.cells_set_of_ne hne]
    rfl
  obtain ⟨hcells, hconstants⟩ :=
    @Session.runs_writeDecimal_writeNumber σ (by decide) (by decide) (by decide)
  obtain ⟨code₁, σ₁, program₁, hemit₁, hparse₁, hrun₁⟩ := hcells 30 (by decide) (by decide)
  obtain ⟨code₂, σ₂, program₂, hemit₂, hparse₂, hrun₂⟩ := hconstants (-1)
  obtain ⟨fuel₁, ⟨hmemory, -⟩ | ⟨m₁, hexec₁, -, hend₁, hkept, -⟩⟩ := hrun₁ hm hcursor hzeros
  · cases hmemory
  obtain ⟨fuel₂, ⟨hmemory, -⟩ | ⟨m₂, hexec₂, -, hend₂, -⟩⟩ := hrun₂ hm hcursor hzeros
  · cases hmemory
  refine ⟨m, m₁, m₂, code₁, code₂, σ, σ₁, σ₂, program₁, program₂, fuel₁, fuel₂, hm, hcell, rfl,
    hzeros, ⟨hemit₁, hparse₁, hexec₁, ?_, hkept.trans hcell⟩, hemit₂, hparse₂, hexec₂, ?_⟩
  · rw [hend₁.output_eq, houtput, hcell]
    decide
  · rw [hend₂.output_eq, houtput]
    decide

end Generator

end TapeMachine
