import TapeMachine.Proofs.CellArithmetic

/-!
# Copies

A copy drains its source into the target and a register, and refills the source from the register.
On the tape the source is as it was in the end. The session cannot tell: it knows the source to be
zero between the two loops, and the second one changes it a number of times that the session does
not know. So nothing is known of target and source after a copy, not even if they were known to be
zero before, and the register is known to be zero.

The module introduces:

* `Generator.Emits.known_copy`: what is known after a copy;
* `Generator.Copies`: what a copy does to a tape;
* `Generator.Session.runs_copy`: what copies do, and what sessions know of it.
-/

namespace TapeMachine.Generator

variable {σ σ' : Session} {code : Fragment} {cell target source : Int}

/-! ### What is known after a copy -/

/-- A cell that was cleared is no clean pad. -/
theorem Emits.isCleanPad_clearAt (h : Emits σ (clearAt cell) code σ') :
    σ'.knowledge.isCleanPad cell = false := by
  obtain ⟨-, -, rfl⟩ := emits_clearAt_iff.mp h
  exact Knowledge.isCleanPad_learn_self

/-- After a copy the register is known to be zero, and nothing is known of target and source. -/
theorem Emits.known_copy (h : Emits σ (copy target source) code σ') (hne : target ≠ source)
    (htarget : target ≠ Register.copy) (hsource : source ≠ Register.copy) :
    σ'.known Register.copy = some 0 ∧ σ'.known target = none ∧ σ'.known source = none := by
  rw [copy, if_neg hne, emits_noted_iff] at h
  obtain ⟨_, h, -⟩ := h
  simp only [emits_saveCursor_iff, emits_sequence_cons_iff, emits_sequence_nil_iff] at h
  obtain ⟨_, _, ⟨_, _, σ₁, hclear, ⟨_, _, σ₂, hclear', ⟨_, _, σ₃, hdrain, ⟨_, _, σ₄, hrefill,
    ⟨-, rfl⟩, -⟩, -⟩, -⟩, -⟩, -, -, rfl⟩ := h
  have hpass : Built (sequence [incAt target, incAt Register.copy]) := built_sequence (by simp)
  -- The target is counted up in the first loop only, and it was cleared before it.
  have hdirty : σ₂.knowledge.isCleanPad target = false :=
    (LeavesAlone.clearAt htarget hclear').isCleanPad_eq.trans hclear.isCleanPad_clearAt
  have hforgets := (Forgets.incAt target).cons ((LeavesAlone.incAt htarget).cons .nil)
  have hkept := LeavesAlone.repeatBy htarget (.incAt hne) hrefill
  have hdrained := hkept.forgotten (hdrain.forgotten_repeatBy hpass hforgets hne hdirty)
  -- The source is known to be zero behind the first loop, and is counted up in the second one.
  have hrefilled := hrefill.forgotten_repeatBy (built_incAt source) (.incAt source) hsource
    (hdrain.isCleanPad_repeatBy hpass)
  exact ⟨hrefill.known_repeatBy (built_incAt source), hdrained.known_eq, hrefilled.known_eq⟩

/-! ### What a copy does -/

/-- Whether a cell has been copied to another one by way of the register. -/
structure Copies (target source : Int) (s t : Snapshot) : Prop where
  target_eq : t.cells target = s.cells source
  source_eq : t.cells source = s.cells source
  copy_eq : t.cells Register.copy = 0
  spares : Spares [target, Register.copy] s t

theorem copies_set (s : Snapshot) (hne : target ≠ source) (htarget : target ≠ Register.copy)
    (hsource : source ≠ Register.copy) :
    Copies target source s ((s.set target (s.cells source)).set Register.copy 0) where
  target_eq := by rw [Snapshot.cells_set_of_ne htarget, Snapshot.cells_set_self]
  source_eq := by rw [Snapshot.cells_set_of_ne hsource, Snapshot.cells_set_of_ne hne.symm]
  copy_eq := Snapshot.cells_set_self ..
  spares := by
    refine ⟨fun p hp => ?_, rfl, rfl, rfl⟩
    simp only [List.mem_cons, not_or] at hp
    rw [Snapshot.cells_set_of_ne hp.2.1, Snapshot.cells_set_of_ne hp.1]

/-- The `source` is copied to the `target`, from every session `σ` and on every tape. The two cells
may be anywhere on the tape but in `Register.copy`, left or right of it and of the cursor. The
session then knows that `Register.copy` is zero, and nothing of either cell. -/
theorem Session.runs_copy (htape : OnTape σ.cursor) (htarget : OnTape target)
    (hsource : OnTape source) (hne : target ≠ source) (htarget' : target ≠ Register.copy)
    (hsource' : source ≠ Register.copy) :
    σ.Runs (copy target source) (fun _ => True) (Copies target source) ∧
      ∃ code σ', σ.perform (copy target source) = (.ok code, σ') ∧ σ'.cursor = σ.cursor ∧
        σ'.known Register.copy = some 0 ∧ σ'.known target = none ∧ σ'.known source = none := by
  have hcopy := Realizes.copy htape (Trust.isOpen_nothing htarget) (Trust.isOpen_nothing hsource)
    hne htarget' hsource'
  obtain ⟨code, σ', hemits, -, hcursor, -⟩ := hcopy rfl (Trust.allows_nothing _)
  exact ⟨RealizesOn.runs htape hcopy fun s hs _ => ⟨hs, copies_set s hne htarget' hsource'⟩,
    code, σ', hemits, hcursor, hemits.known_copy hne htarget' hsource'⟩

/-- Seven is copied from the cell 30 to `Register.putPad`, left of `Register.copy`, which was known
to be zero. -/
theorem Session.runs_copy_toPad : ∃ (m m' : Machine) (code : Fragment) (σ σ' : Session)
    (program : Program) (fuel : Nat), m.Unhindered 0 .endless ∧ (m.view 0).cells 30 = 7 ∧
      (m.view 0).cursor = 30 ∧ σ.cursor = 30 ∧ σ.known Register.putPad = some 0 ∧
      σ.perform (copy Register.putPad 30) = (.ok code, σ') ∧
      Program.parse (Fragment.text code) = .ok program ∧
      m.exec .endless fuel program = .finished m' ∧ (m'.view 0).cells Register.putPad = 7 ∧
      (m'.view 0).cells 30 = 7 ∧ (m'.view 0).cells Register.copy = 0 ∧ (m'.view 0).cells 32 = 2 ∧
      (m'.view 0).cursor = 30 ∧ σ'.known Register.copy = some 0 ∧
      σ'.known Register.putPad = none ∧ σ'.known 30 = none := by
  obtain ⟨m, hm, hview⟩ := exists_numbers
  have hcell : (m.view 0).cells 30 = 7 := by rw [hview]; rfl
  have hcell' : (m.view 0).cells 32 = 2 := by rw [hview]; rfl
  have hcursor : (m.view 0).cursor = 30 := by rw [hview]; rfl
  obtain ⟨⟨code, σ', program, hemit, hparse, hrun⟩, code', σ'', hemit', -, hknown⟩ :=
    @Session.runs_copy { wraps := true, cursor := 30 } Register.putPad 30 (by decide)
      (by decide) (by decide) (by decide) (by decide) (by decide)
  cases hemit.symm.trans hemit'
  obtain ⟨fuel, ⟨hmemory, -⟩ | ⟨m', hexec, -, hcopies⟩⟩ := hrun hm hcursor trivial
  · cases hmemory
  exact ⟨m, m', code, _, σ', program, fuel, hm, hcell, hcursor, rfl, rfl, hemit, hparse, hexec,
    hcopies.target_eq.trans hcell, hcopies.source_eq.trans hcell, hcopies.copy_eq,
    (hcopies.spares.cells_eq 32 (by decide)).trans hcell',
    hcopies.spares.cursor_eq.trans hcursor, hknown⟩

end TapeMachine.Generator
