import TapeMachine.Proofs.CellArithmetic
import TapeMachine.Proofs.CursorAgreement

/-!
# Tests for equality

A cell is compared with a constant by subtracting the constant, testing for zero and adding the
constant again. Both constants may be counted on the next cell if that is known to be zero, the
second one after the test. So what is known of the next cell has to be followed through the test: it
is what was known before, unless the next cell is one of the registers that the test uses.

The last cell that a text can reach has no next cell. From there the way to the registers of the
test is longer than any text, so that there is nothing to run.

The module introduces:

* `Generator.Emits.known_checkZero`, `Generator.Emits.known_flag`: what is known after a test;
* `Generator.Compares`: what a test for equality does to a tape;
* `Generator.Emits.signBound_le_length`: the length of a test at the end of the tape;
* `Generator.Session.runs_checkEq`: the outcome of the test, from every session.
-/

namespace TapeMachine.Generator

variable {σ σ' : Session} {code : Fragment} {cell pos : Int} {s : Snapshot}

/-! ### What is known after a test -/

/-- A test changes nothing about cells that are none of its registers, nor the one tested. -/
theorem Emits.known_checkZero (h : Emits σ checkZero code σ') (hne : cell ≠ σ.cursor)
    (hcell : Testable cell) : σ'.known cell = σ.known cell := by
  obtain ⟨hcopy, htest, hflag⟩ := hcell
  obtain ⟨_, _, hcursor, h⟩ := emits_bind_iff.mp h
  obtain ⟨rfl, rfl⟩ := emits_cursor_iff.mp hcursor
  have honce := LeavesAlone.doOnceIf htest (.decAt hflag)
  have hsteps := (LeavesAlone.copy htest hne hcopy).cons ((LeavesAlone.setAt hflag 1).cons
    (honce.cons ((LeavesAlone.moveTo Register.flag).cons .nil)))
  exact (hsteps.noted _ h).known_eq

/-- Nothing is known of the outcome of a test, as it is changed in a loop. -/
theorem Emits.known_flag (h : Emits σ checkZero code σ') : σ'.known Register.flag = none := by
  simp only [checkZero, emits_bind_iff, emits_cursor_iff, emits_noted_iff, emits_sequence_cons_iff,
    emits_sequence_nil_iff, emits_moveTo_iff] at h
  obtain ⟨_, _, -, _, ⟨_, _, σ₁, -, ⟨_, _, σ₂, -, ⟨_, _, σ₃, honce, ⟨_, _, _, ⟨-, -, rfl⟩,
    ⟨-, rfl⟩, -⟩, -⟩, -⟩, -⟩, -⟩ := h
  -- Only the loop matters, whatever the copy and the setup before it have established.
  have hbuilt : Built (sequence [decAt Register.flag, clearAt Register.zeroTest]) :=
    built_sequence (by simp)
  have hbody := (Forgets.decAt Register.flag).cons
    ((LeavesAlone.clearAt (show Register.flag ≠ Register.zeroTest by decide)).cons .nil)
  exact (honce.forgotten_loopOn hbuilt hbody (by decide)
    (Knowledge.isCleanPad_of_not_isPad (by decide))).known_eq

/-- Cells that are known to be zero after a test are so, if they were before; the one tested does
not count. -/
theorem Emits.tested_eq_zero (h : Emits σ checkZero code σ') (hne : cell ≠ σ.cursor)
    (hbefore : σ.known cell = some 0 → s.cells cell = 0) (hknown : σ'.known cell = some 0)
    (outcome : UInt8) : (tested s outcome).cells cell = 0 := by
  by_cases hcell : Testable cell
  · rw [tested_cells hcell]
    exact hbefore ((h.known_checkZero hne hcell).symm.trans hknown)
  · have hflag : cell ≠ Register.flag := by
      rintro rfl
      rw [h.known_flag] at hknown
      cases hknown
    -- The other registers of a test are zero after it, whatever is known of them.
    have hregister : cell = Register.copy ∨ cell = Register.zeroTest := by
      by_contra hneither
      rw [not_or] at hneither
      exact hcell ⟨hneither.1, hneither.2, hflag⟩
    obtain rfl | rfl := hregister <;> simp [tested]

/-! ### Equality -/

/-- Whether a cell has been compared with a constant, modulo 256. -/
structure Compares (pos value : Int) (s t : Snapshot) : Prop where
  flag_eq : t.cells Register.flag = if (s.cells pos).toNat % 256 = value % 256 then 1 else 0
  copy_eq : t.cells Register.copy = 0
  zeroTest_eq : t.cells Register.zeroTest = 0
  spares : Spares [Register.flag, Register.copy, Register.zeroTest] s t

/-- A byte is a constant modulo 256 if nothing is left of it when the constant is subtracted. -/
theorem add_ofInt_neg_eq_zero_iff (b : UInt8) (value : Int) :
    b + UInt8.ofInt (-value) = 0 ↔ (b.toNat : Int) % 256 = value % 256 := by
  have hsum : b + UInt8.ofInt (-value) = UInt8.ofInt (b.toNat - value) := by
    rw [Int.sub_eq_add_neg, UInt8.ofInt_add, ofInt_toNat]
  rw [hsum, ofInt_eq_zero_iff]
  omega

theorem compares_tested (hcursor : s.cursor = pos) (value : Int) :
    Compares pos value s ((tested s (if s.cells pos + UInt8.ofInt (-value) = 0 then 1 else 0)).goTo
      pos) where
  flag_eq := by
    simp only [tested, Snapshot.goTo_cells, Snapshot.cells_set_self, add_ofInt_neg_eq_zero_iff]
  copy_eq := by simp [tested]
  zeroTest_eq := by simp [tested]
  spares := by
    refine ⟨fun p hp => ?_, hcursor.symm, rfl, rfl⟩
    simp only [List.mem_cons, not_or] at hp
    exact tested_cells ⟨hp.2.1, hp.2.2.1, hp.1⟩

/-- What is added to a cell behind a test might have been added in front of it. -/
theorem put_tested (hpos : Testable pos) (outcome low amount : UInt8) :
    ((tested (s.set pos low) outcome).goTo pos).put
        (((tested (s.set pos low) outcome).goTo pos).here + amount) =
      (tested (s.set pos (low + amount)) outcome).goTo pos := by
  rw [Snapshot.here_goTo, tested_cells hpos, Snapshot.cells_set_self, Snapshot.put_goTo,
    tested_set hpos, Snapshot.set_set]

/-- A test for equality is put together from a test for zero and two constants. -/
theorem Emits.checkEq {σ₁ σ₂ : Session} {a b c : Fragment} {value : Int}
    (hsub : Emits σ (add (-value)) a σ₁) (htest : Emits σ₁ checkZero b σ₂)
    (htape : OnTape σ.cursor) (hadd : Emits { σ₂ with cursor := σ.cursor } (add value) c σ') :
    ∃ note, Emits σ (Generator.checkEq value)
      [.noted note (a ++ (b ++ (Fragment.moving (σ.cursor - σ₂.cursor) ++ c)))] σ' := by
  simp only [Generator.checkEq, emits_bind_iff, emits_cursor_iff, emits_noted_iff,
    emits_sequence_cons_iff, emits_sequence_nil_iff, emits_moveTo_iff]
  exact ⟨_, σ.cursor, σ, ⟨rfl, rfl⟩, _, ⟨a, _, σ₁, hsub, ⟨b, _, σ₂, htest, ⟨_, _, _,
    ⟨htape, rfl, rfl⟩, ⟨c, [], σ', hadd, ⟨rfl, rfl⟩, (List.append_nil c).symm⟩, rfl⟩, rfl⟩, rfl⟩,
    rfl⟩

/-- A test takes a symbol for each cell between the one tested and the flag, and the way back takes
as many. So the test of the last cell of a tape is longer than any text. -/
theorem Emits.signBound_le_length {b : Fragment} (htest : Emits σ checkZero b σ')
    (hcursor : σ.cursor = Register.lastPosition) (hflag : σ'.cursor = Register.flag)
    (a c : Fragment) (note : Bytes) : Word.signBound ≤ (Fragment.text
      [.noted note (a ++ (b ++ (Fragment.moving (σ.cursor - σ'.cursor) ++ c)))]).length := by
  have htape : OnTape σ.cursor := by
    rw [hcursor]
    decide
  have hthere := (built_checkZero.derivable htest).natAbs_cursor_sub_le htape
  have hback : (Fragment.text (Fragment.moving (σ.cursor - σ'.cursor))).length =
      (σ.cursor - σ'.cursor).natAbs := by
    have hregister : OnTape σ'.cursor := by
      rw [hflag]
      decide
    have hsum : σ'.cursor + (σ.cursor - σ'.cursor) = σ.cursor := by omega
    exact (Fragment.leads_moving hregister (hsum.symm ▸ htape)).2
  rw [hcursor, hflag] at hthere hback
  simp only [Fragment.text_noted, Fragment.text_append, List.length_append, hcursor, hflag, hback]
  -- Twice the way from the last cell to the flag is longer than `Word.signBound`.
  unfold Register.lastPosition Register.flag Word.signBound at *
  omega

/-- A cell that is `Testable`, that is none of the registers of a test, is compared with any
`value`, from every session `σ` and on every tape on which `σ` `AgreesOnZeros`. At
`Register.lastPosition`, where there is no next cell, the code of the test is longer than any text.
-/
theorem Session.runs_checkEq (htape : OnTape σ.cursor) (hpos : Testable σ.cursor) (value : Int) :
    σ.Runs (checkEq value) σ.AgreesOnZeros (Compares σ.cursor value) ∨
      σ.cursor = Register.lastPosition ∧ ∃ code σ', σ.perform (checkEq value) = (.ok code, σ') ∧
        Word.signBound ≤ (Fragment.text code).length := by
  have hne : σ.cursor + 1 ≠ σ.cursor := by omega
  obtain ⟨a, σ₁, hemits₁, hcursor₁, hknown₁, heffect₁⟩ := exists_add htape (-value)
  obtain ⟨b, σ₂, hemits₂, -, hcursor₂, -, heffect₂⟩ :=
    Realizes.checkZero (Trust.isOpen_nothing htape) hpos hcursor₁ (Trust.allows_nothing _)
  obtain ⟨c, σ₃, hemits₃, hcursor₃, -, heffect₃⟩ :=
    exists_add (σ := { σ₂ with cursor := σ.cursor }) htape value
  obtain ⟨note, hemits⟩ := hemits₁.checkEq hemits₂ htape hemits₃
  by_cases hnext : OnTape (σ.cursor + 1)
  case neg =>
    have hlast : σ.cursor = Register.lastPosition := by
      unfold OnTape at htape hnext
      omega
    have hlength := hemits₂.signBound_le_length (hcursor₁.trans hlast) hcursor₂ a c note
    rw [hcursor₁] at hlength
    exact Or.inr ⟨hlast, _, σ₃, hemits, hlength⟩
  refine Or.inl (Session.runs_of_effect htape hemits fun s hs hzeros =>
    ⟨?_, hcursor₃.symm, compares_tested hs value⟩)
  -- The cell holds `low` while it is tested.
  let low := s.cells σ.cursor + UInt8.ofInt (-value)
  let outcome : UInt8 := if low = 0 then 1 else 0
  have hsub : a.effect s (.done (s.set σ.cursor low)) := by
    have hcell := heffect₁ hnext s hs (hzeros _)
    rwa [Snapshot.put, Snapshot.here, hs] at hcell
  have htest : b.effect (s.set σ.cursor low) (.done (tested (s.set σ.cursor low) outcome)) := by
    have hflag := heffect₂ (s := s.set σ.cursor low)
      (Trust.fits_nothing (hs.trans hcursor₁.symm) (hcursor₁ ▸ htape)) trivial
    simpa only [Snapshot.cells_set_self] using hflag
  -- What is known of the next cell after the test can be relied on for the second constant.
  have hadd := heffect₃ hnext ((tested (s.set σ.cursor low) outcome).goTo σ.cursor) rfl
    fun hknown => hemits₂.tested_eq_zero (hcursor₁ ▸ hne) (fun hknown => by
      rw [Snapshot.cells_set_of_ne hne]
      exact hzeros _ ((hknown₁ _ hne).symm.trans hknown)) hknown outcome
  have hback : low + UInt8.ofInt value = s.cells σ.cursor := by
    simp only [low, UInt8.ofInt_neg]
    grind
  rw [put_tested hpos, hback, Snapshot.set_cells_self] at hadd
  rw [Fragment.effect_noted, Fragment.effect_append, Fragment.effect_append, Fragment.effect_append]
  refine Effect.seq_of_done hsub (Effect.seq_of_done htest ?_)
  have hend : (tested (s.set σ.cursor low) outcome).cursor + (σ.cursor - σ₂.cursor) = σ.cursor := by
    rw [hcursor₂, tested_cursor]
    omega
  rwa [Fragment.moving_seq_iff (show OnTape Register.flag by decide) hend htape]

/-- Seven is 263 modulo 256, and is still there after the test. -/
theorem Session.runs_checkEq_seven : ∃ (m m' : Machine) (code : Fragment) (σ σ' : Session)
    (program : Program) (fuel : Nat),
      m.Unhindered 0 .endless ∧ (m.view 0).cells 30 = 7 ∧ σ.cursor = 30 ∧
      σ.AgreesOnZeros (m.view 0) ∧ σ.perform (checkEq 263) = (.ok code, σ') ∧
      Program.parse (Fragment.text code) = .ok program ∧
      m.exec .endless fuel program = .finished m' ∧ (m'.view 0).cells Register.flag = 1 ∧
      (m'.view 0).cells 30 = 7 ∧ (m'.view 0).cursor = 30 := by
  obtain ⟨m, hm, hview⟩ := exists_numbers
  let σ : Session :=
    { wraps := true, cursor := 30, knowledge := { base := [(30, none), (32, none)] } }
  have hcell : (m.view 0).cells 30 = 7 := by rw [hview]; rfl
  have hcursor : (m.view 0).cursor = 30 := by rw [hview]; rfl
  have hzeros : σ.AgreesOnZeros (m.view 0) := hview ▸ agreesOnZeros_numbers
  obtain ⟨code, σ', program, hemit, hparse, hrun⟩ | ⟨hlast, -⟩ :=
    @Session.runs_checkEq σ (by decide) (by decide) 263
  case inr => exact absurd hlast (by decide)
  obtain ⟨fuel, ⟨hmemory, -⟩ | ⟨m', hexec, -, hcompares⟩⟩ := hrun hm hcursor hzeros
  · cases hmemory
  refine ⟨m, m', code, σ, σ', program, fuel, hm, hcell, rfl, hzeros, hemit, hparse, hexec, ?_, ?_,
    hcompares.spares.cursor_eq.trans hcursor⟩
  · rw [hcompares.flag_eq, show σ.cursor = 30 from rfl, hcell]
    rfl
  · rw [hcompares.spares.cells_eq 30 (by decide), hcell]

end TapeMachine.Generator
