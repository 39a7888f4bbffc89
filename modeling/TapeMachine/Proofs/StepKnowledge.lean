import TapeMachine.Generator.Condition
import TapeMachine.Proofs.Derivation

/-!
# How steps change what is known

Most steps write a cell or two, and what is known of all other cells stays as it is. A loop forgets
more: its body may be run any number of times, so that a cell which is counted up or down in it is
unknown after the loop, even if it is known before and in each pass. Only the cell that the loop
tests is known to be zero then.

The module introduces:

* `Generator.LeavesAlone`: steps that leave what is known of a cell as it is;
* `Generator.Forgets`: steps that change a cell and leave it unknown if it was unknown before;
* `Generator.Emits.forgotten_loopOn`: a cell that the body of a loop forgets is unknown after it;
* `Generator.Emits.known_repeatBy`, `Generator.Emits.isCleanPad_repeatBy`: what is known of a count.
-/

namespace TapeMachine.Generator

variable {σ σ' : Session} {code : Fragment} {cell pos : Int}

/-- Adding a constant changes nothing about other cells. -/
theorem Session.sameAt_bump (hne : cell ≠ σ.cursor) (amount : Int) :
    Knowledge.SameAt cell σ.knowledge (σ.bump amount).knowledge := by
  rw [Session.bump_knowledge]
  exact .of_learn hne

/-- Where nothing is known of a cell, nothing is known of it after a constant has been added. -/
theorem Session.forgotten_bump (hcursor : σ.cursor = cell) (hcell : σ.known cell = none)
    (amount : Int) : (σ.bump amount).knowledge.Forgotten cell := by
  subst hcursor
  rw [Session.bump_knowledge, hcell]
  exact Knowledge.forgotten_learn

/-! ### Cells that steps leave alone -/

/-- Whether a step leaves what is known of a cell as it is. -/
def LeavesAlone (cell : Int) (step : Gen Fragment) : Prop :=
  ∀ ⦃σ code σ'⦄, Emits σ step code σ' → Knowledge.SameAt cell σ.knowledge σ'.knowledge

namespace LeavesAlone

variable {body first : Gen Fragment} {rest : List (Gen Fragment)} {control count flag : Int}

/-- No steps leave every cell alone. -/
theorem nil : LeavesAlone cell (sequence []) := by
  intro σ code σ' h
  obtain ⟨-, rfl⟩ := emits_sequence_nil_iff.mp h
  exact .refl cell _

/-- A sequence leaves a cell alone if each of its steps does. -/
theorem cons (hfirst : LeavesAlone cell first) (hrest : LeavesAlone cell (sequence rest)) :
    LeavesAlone cell (sequence (first :: rest)) := by
  intro σ code σ' h
  obtain ⟨a, b, σ₁, ha, hb, -⟩ := emits_sequence_cons_iff.mp h
  exact (hfirst ha).trans (hrest hb)

/-- A note around a step leaves as much alone as the step. -/
theorem noted (note : Bytes) (hbody : LeavesAlone cell body) :
    LeavesAlone cell (Generator.noted note body) := by
  intro σ code σ' h
  obtain ⟨inner, hinner, -⟩ := emits_noted_iff.mp h
  exact hbody hinner

/-- A move leaves every cell alone. -/
theorem moveTo (pos : Int) : LeavesAlone cell (Generator.moveTo pos) := by
  intro σ code σ' h
  obtain ⟨-, -, rfl⟩ := emits_moveTo_iff.mp h
  exact .refl cell _

/-- Taking the cursor back leaves every cell alone. -/
theorem saveCursor (hbody : LeavesAlone cell body) :
    LeavesAlone cell (Generator.saveCursor body) := by
  intro σ code σ' h
  obtain ⟨inner, σ₁, hinner, -, -, rfl⟩ := emits_saveCursor_iff.mp h
  show Knowledge.SameAt cell σ.knowledge σ₁.knowledge
  exact hbody hinner

/-- The body of a loop may be run any number of times, but it learns nothing of the cell. -/
theorem loopOn (hne : cell ≠ control) (hbody : LeavesAlone cell body) :
    LeavesAlone cell (Generator.loopOn control body) := by
  intro σ code σ' h
  obtain ⟨inner, σ₁, knowledge, -, hinner, hleave, rfl, -⟩ := emits_loopOn_iff.mp h
  exact (hbody hinner).of_leave hleave hne

section Writes

variable (hne : cell ≠ pos)
include hne

/-- `incAt pos` leaves all cells but `pos` alone. -/
theorem incAt : LeavesAlone cell (Generator.incAt pos) := by
  intro σ code σ' h
  obtain ⟨-, -, rfl⟩ := emits_incAt_iff.mp h
  exact Session.sameAt_bump (σ := { σ with cursor := pos }) hne 1

/-- `decAt pos` leaves all cells but `pos` alone. -/
theorem decAt : LeavesAlone cell (Generator.decAt pos) := by
  intro σ code σ' h
  obtain ⟨-, -, rfl⟩ := emits_decAt_iff.mp h
  exact Session.sameAt_bump (σ := { σ with cursor := pos }) hne (-1)

/-- `clearAt pos` leaves all cells but `pos` alone. -/
theorem clearAt : LeavesAlone cell (Generator.clearAt pos) := by
  intro σ code σ' h
  obtain ⟨-, -, rfl⟩ := emits_clearAt_iff.mp h
  exact .of_learn hne

/-- `setAt pos value` leaves all cells but `pos` alone. -/
theorem setAt (value : Int) : LeavesAlone cell (Generator.setAt pos value) := by
  intro σ code σ' h
  obtain ⟨-, inner, hset, -⟩ := emits_at_iff.mp h
  simp only [set, emits_sequence_cons_iff, emits_clear_iff, emits_sequence_nil_iff] at hset
  obtain ⟨_, _, _, ⟨-, rfl⟩, ⟨_, _, _, hadd, ⟨-, rfl⟩, -⟩, -⟩ := hset
  have hcleared : Knowledge.SameAt cell σ.knowledge (σ.knowledge.learn pos (some 0)) :=
    .of_learn hne
  obtain ⟨-, -, rfl⟩ | ⟨-, -, rfl⟩ := emits_add_iff.mp hadd
  · exact hcleared
  · exact hcleared.trans (Session.sameAt_bump
      (σ := { σ with cursor := pos, knowledge := σ.knowledge.learn pos (some 0) }) hne _)

end Writes

/-- A counted loop leaves alone what its `body` does, but for the `count`. -/
theorem repeatBy (hne : cell ≠ count) (hbody : LeavesAlone cell body) :
    LeavesAlone cell (Generator.repeatBy count body) :=
  loopOn hne ((hbody.cons ((decAt hne).cons nil)).cons ((moveTo count).cons nil))

/-- `doOnceIf flag` leaves alone what its `body` does, but for the `flag`. -/
theorem doOnceIf (hne : cell ≠ flag) (hbody : LeavesAlone cell body) :
    LeavesAlone cell (Generator.doOnceIf flag body) :=
  loopOn hne (hbody.cons ((clearAt hne).cons nil))

/-- A copy leaves all cells alone but its two and the register. -/
theorem copy {target source : Int} (htarget : cell ≠ target) (hsource : cell ≠ source)
    (hcopy : cell ≠ Register.copy) : LeavesAlone cell (Generator.copy target source) := by
  unfold Generator.copy
  split
  · exact nil
  · have hdrain := repeatBy hsource ((incAt htarget).cons ((incAt hcopy).cons nil))
    have hrefill := repeatBy hcopy (incAt hsource)
    exact noted _ (saveCursor ((clearAt htarget).cons ((clearAt hcopy).cons
      (hdrain.cons (hrefill.cons nil)))))

end LeavesAlone

/-! ### Cells that steps forget -/

/-- Whether a step changes a cell, and leaves it unknown if it was unknown before. -/
def Forgets (cell : Int) (step : Gen Fragment) : Prop :=
  ∀ ⦃σ code σ'⦄, Emits σ step code σ' → σ.known cell = none → σ'.knowledge.Forgotten cell

namespace Forgets

variable {first : Gen Fragment} {rest : List (Gen Fragment)}

/-- In a loop, nothing is known of a `cell` after an increment. -/
theorem incAt (cell : Int) : Forgets cell (Generator.incAt cell) := by
  intro σ code σ' h hcell
  obtain ⟨-, -, rfl⟩ := emits_incAt_iff.mp h
  exact Session.forgotten_bump (σ := { σ with cursor := cell }) rfl hcell 1

/-- In a loop, nothing is known of a `cell` after a decrement. -/
theorem decAt (cell : Int) : Forgets cell (Generator.decAt cell) := by
  intro σ code σ' h hcell
  obtain ⟨-, -, rfl⟩ := emits_decAt_iff.mp h
  exact Session.forgotten_bump (σ := { σ with cursor := cell }) rfl hcell (-1)

/-- Steps that do not write the cell leave it forgotten. -/
theorem cons (hfirst : Forgets cell first) (hrest : LeavesAlone cell (sequence rest)) :
    Forgets cell (sequence (first :: rest)) := by
  intro σ code σ' h hcell
  obtain ⟨a, b, σ₁, ha, hb, -⟩ := emits_sequence_cons_iff.mp h
  exact (hrest hb).forgotten (hfirst ha hcell)

end Forgets

section Loops

variable {control : Int} {body : Gen Fragment} (hbuilt : Built body)
include hbuilt

/-- The body of a loop starts in a frame of its own, which is merged into the one around it. -/
private theorem exists_frame (h : Emits σ (loopOn control body) code σ') : ∃ inner σ₁,
    Emits { σ with cursor := control, knowledge := σ.knowledge.enter control } body inner σ₁ ∧
      (σ.knowledge.enter control).Beneath σ₁.knowledge ∧
      σ₁.knowledge.leave = some σ'.knowledge := by
  obtain ⟨inner, σ₁, knowledge, -, hinner, hleave, rfl, -⟩ := emits_loopOn_iff.mp h
  exact ⟨inner, σ₁, hinner, (hbuilt.derivable hinner).frame.2, hleave⟩

/-- The cell that a loop tests is known to be zero after it. -/
theorem Emits.known_loopOn (h : Emits σ (loopOn control body) code σ') :
    σ'.known control = some 0 := by
  obtain ⟨_, _, -, hbeneath, hleave⟩ := exists_frame hbuilt h
  exact Knowledge.known_leave_control hbeneath hleave

/-- What is forgotten in each pass is forgotten after the loop. A clean pad would be known to be
zero at the start of a pass. -/
theorem Emits.forgotten_loopOn (h : Emits σ (loopOn control body) code σ')
    (hbody : Forgets cell body) (hne : cell ≠ control)
    (hpad : σ.knowledge.isCleanPad cell = false) : σ'.knowledge.Forgotten cell := by
  obtain ⟨_, _, hinner, hbeneath, hleave⟩ := exists_frame hbuilt h
  exact (hbody hinner (Knowledge.known_enter hpad)).leave hbeneath hleave hne

end Loops

section Counts

variable {count : Int} {body : Gen Fragment}

/-- A pass of a loop that counts. -/
private theorem built_pass (count : Int) (hbuilt : Built body) :
    Built (sequence [sequence [body, decAt count], moveTo count]) := by
  have hcounted : Built (sequence [body, decAt count]) := built_sequence (by simp [hbuilt])
  exact built_sequence (by simp [hcounted])

variable (h : Emits σ (repeatBy count body) code σ') (hbuilt : Built body)
include h hbuilt

/-- The `count` of a loop is known to be zero behind it. -/
theorem Emits.known_repeatBy : σ'.known count = some 0 :=
  Emits.known_loopOn (built_pass count hbuilt) h

/-- Counting down makes the count dirty, if it is a pad. -/
theorem Emits.isCleanPad_repeatBy : σ'.knowledge.isCleanPad count = false := by
  obtain ⟨_, σ₁, hinner, hbeneath, hleave⟩ := exists_frame (built_pass count hbuilt) h
  simp only [emits_sequence_cons_iff, emits_sequence_nil_iff, emits_decAt_iff,
    emits_moveTo_iff] at hinner
  obtain ⟨_, _, _, ⟨_, _, σ₂, -, ⟨_, _, _, ⟨-, -, rfl⟩, ⟨-, rfl⟩, -⟩, -⟩,
    ⟨_, _, _, ⟨-, -, rfl⟩, ⟨-, rfl⟩, -⟩, -⟩ := hinner
  rw [Knowledge.isCleanPad, (Knowledge.leave_frame hbeneath hleave).2, Session.bump_knowledge]
  exact Knowledge.isCleanPad_learn_self

/-- A cell that is counted along is unknown after the loop. -/
theorem Emits.forgotten_repeatBy (hbody : Forgets cell body) (hne : cell ≠ count)
    (hpad : σ.knowledge.isCleanPad cell = false) : σ'.knowledge.Forgotten cell := by
  have hpass := (hbody.cons ((LeavesAlone.decAt hne).cons .nil)).cons
    ((LeavesAlone.moveTo count).cons .nil)
  exact Emits.forgotten_loopOn (built_pass count hbuilt) h hpass hne hpad

end Counts

end TapeMachine.Generator
