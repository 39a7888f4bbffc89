import Mathlib.Tactic.FinCases
import TapeMachine.Generator.Directive
import TapeMachine.Proofs.ArithmeticEffect
import TapeMachine.Proofs.StepKnowledge

/-!
# Cell arithmetic on machines

The code of a step can be parsed and run by itself, on a machine with the cursor where the session
takes it to be. Adding, subtracting and dividing cells is done right then, whatever the session
knows and whatever else is on the tape. Dividing by a constant has to add the constant to a register
first, which relies on the cells being zero that are known to be.

The module introduces:

* `Generator.Session.Runs`: what machines do with the code of a step;
* `Generator.Sums`, `Generator.Subtracts`, `Generator.Divides`: what cell arithmetic does to a tape;
* `Generator.Session.runs_addCell_subCell`: addition and subtraction with borrow;
* `Generator.Session.runs_div_mod`: quotient and remainder.
-/

namespace TapeMachine.Generator

variable {σ σ' : Session} {step : Gen Fragment} {code : Fragment} {p : Snapshot → Prop}
  {q : Snapshot → Snapshot → Prop} {f : Snapshot → Snapshot} {cell source target divisor : Int}

/-! ### Running the code of a step -/

/-- Whether a step generates code whose program is run to its end by every machine that has the
cursor where the session has it and is as `p` says, unless bounded memory is exhausted. The cursor
is where the session takes it to be then, and what was there before and after is as `q` says. -/
def Session.Runs (σ : Session) (step : Gen Fragment) (p : Snapshot → Prop)
    (q : Snapshot → Snapshot → Prop) : Prop :=
  ∃ code σ' program, σ.perform step = (.ok code, σ') ∧
    Program.parse (Fragment.text code) = .ok program ∧
    ∀ ⦃m : Machine⦄ ⦃sink : Nat⦄ ⦃memory : Memory⦄, m.Unhindered sink memory →
      (m.view sink).cursor = σ.cursor → p (m.view sink) →
      ∃ fuel, (m.exec .endless fuel program).Exhausts memory ∨
        ∃ m', m.exec .endless fuel program = .finished m' ∧ (m'.view sink).cursor = σ'.cursor ∧
          q (m.view sink) (m'.view sink)

theorem Session.runs_of_effect (htape : OnTape σ.cursor) (hemits : Emits σ step code σ')
    (heffect : ∀ s : Snapshot, s.cursor = σ.cursor → p s →
      code.effect s (.done (f s)) ∧ (f s).cursor = σ'.cursor ∧ q s (f s)) : σ.Runs step p q := by
  refine ⟨code, σ', _, hemits, Fragment.parse_text code, fun m sink memory hm hcursor hp => ?_⟩
  obtain ⟨hcode, hback, hq⟩ := heffect _ hcursor hp
  -- The effect of the code is that of its symbols, which the program refines.
  have hprogram := Source.effects_refines_condense _ (hcursor ▸ htape) (by simp) hcode
  obtain ⟨fuel, hdone | hmemory⟩ := Machine.exec_of_effect _ hm hprogram
  · obtain ⟨m', hexec, hview⟩ := Outcome.ending_eq_done_iff.mp hdone
    exact ⟨fuel, Or.inr ⟨m', hexec, hview ▸ hback, hview ▸ hq⟩⟩
  · exact ⟨fuel, Or.inl hmemory⟩

/-- Code that relies on nothing can be run by itself. -/
theorem RealizesOn.runs {next : Int} (htape : OnTape σ.cursor)
    (h : RealizesOn .nothing p σ.cursor step next fun s => .done (f s))
    (hq : ∀ s, s.cursor = σ.cursor → p s → (f s).cursor = next ∧ q s (f s)) : σ.Runs step p q := by
  obtain ⟨code, σ', hemits, -, hnext, -, heffect⟩ := h rfl (Trust.allows_nothing _)
  refine Session.runs_of_effect (f := f) htape hemits fun s hs hp => ?_
  obtain ⟨hback, hq⟩ := hq s hs hp
  exact ⟨heffect (Trust.fits_nothing hs htape) hp, hback.trans hnext.symm, hq⟩

/-- Whether the cells are zero that a session knows to be. -/
def Session.AgreesOnZeros (σ : Session) (s : Snapshot) : Prop :=
  ∀ cell, σ.known cell = some 0 → s.cells cell = 0

/-- A blank tape is as every session knows it. -/
theorem Session.agreesOnZeros_of_ready {m : Machine} {sink : Nat} {memory : Memory} {input : Bytes}
    (hm : m.Ready sink memory input) : σ.AgreesOnZeros (m.view sink) := by
  intro cell _
  rw [hm.view_eq, Snapshot.fresh_cells]

section Pads

variable {pads : Int → Prop} (hclean : ∀ pad, pads pad → σ.knowledge.isCleanPad pad = true)
include hclean

theorem Trust.allows_inPads : (Trust.inPads pads).Allows σ.knowledge.dirty :=
  fun pad hpad => Knowledge.isCleanPad_iff.mp (hclean pad hpad)

/-- A clean pad is known to be zero, wherever the code is. -/
theorem Trust.fits_inPads {s : Snapshot} (hcursor : s.cursor = σ.cursor) (htape : OnTape σ.cursor)
    (hzeros : σ.AgreesOnZeros s) : (Trust.inPads pads).Fits σ s :=
  ⟨hcursor, htape, fun hpad => hzeros _ (if_pos (hclean _ hpad))⟩

/-- Code that relies on clean pads can be run where the cells are zero that are known to be. -/
theorem RealizesOn.runs_inPads {next : Int} (htape : OnTape σ.cursor)
    (h : RealizesOn (.inPads pads) p σ.cursor step next fun s => .done (f s))
    (hq : ∀ s, s.cursor = σ.cursor → σ.AgreesOnZeros s → p s ∧ (f s).cursor = next ∧ q s (f s)) :
    σ.Runs step σ.AgreesOnZeros q := by
  obtain ⟨code, σ', hemits, -, hnext, -, heffect⟩ := h rfl (Trust.allows_inPads hclean)
  refine Session.runs_of_effect (f := f) htape hemits fun s hs hzeros => ?_
  obtain ⟨hp, hback, hq⟩ := hq s hs hzeros
  exact ⟨heffect (Trust.fits_inPads hclean hs htape hzeros) hp, hback.trans hnext.symm, hq⟩

end Pads

/-- Whether nothing differs but some cells. -/
structure Spares (cells : List Int) (s t : Snapshot) : Prop where
  cells_eq : ∀ cell, cell ∉ cells → t.cells cell = s.cells cell
  cursor_eq : t.cursor = s.cursor
  input_eq : t.input = s.input
  output_eq : t.output = s.output

/-! ### Addition and subtraction -/

/-- Whether a cell has been added to another one. -/
structure Sums (target source : Int) (s t : Snapshot) : Prop where
  target_eq : (t.cells target).toNat = ((s.cells target).toNat + (s.cells source).toNat) % 256
  source_eq : target ≠ source → t.cells source = s.cells source
  copy_eq : t.cells Register.copy = 0
  addSub_eq : t.cells Register.addSub = 0
  spares : Spares [target, Register.copy, Register.addSub] s t

/-- Whether a cell has been subtracted from another one. The tests for zero leave their registers at
zero; if there is nothing to subtract, there are none. -/
structure Subtracts (target source : Int) (s t : Snapshot) : Prop where
  target_eq : ((t.cells target).toNat : Int) =
    ((s.cells target).toNat - (s.cells source).toNat) % 256
  borrow_eq : (t.cells Register.borrow).toNat =
    if (s.cells target).toNat < (s.cells source).toNat then 1 else 0
  source_eq : target ≠ source → t.cells source = s.cells source
  copy_eq : t.cells Register.copy = 0
  addSub_eq : t.cells Register.addSub = 0
  tests_eq : s.cells source ≠ 0 → t.cells Register.zeroTest = 0 ∧ t.cells Register.flag = 0
  untested : s.cells source = 0 → t.cells Register.zeroTest = s.cells Register.zeroTest ∧
    t.cells Register.flag = s.cells Register.flag
  spares : Spares [target, Register.borrow, Register.copy, Register.addSub, Register.zeroTest,
    Register.flag] s t

section Cells

variable {s : Snapshot} (htarget : Operand target) (hsource : Operand source)
include htarget hsource

theorem sums_summed : Sums target source s (summed target source s) := by
  obtain ⟨⟨hne₁, -, -⟩, hne₂, -⟩ := htarget
  obtain ⟨⟨hne₁', -, -⟩, hne₂', -⟩ := hsource
  have hcells : ∀ p, (summed target source s).cells p = if p = Register.addSub then 0 else
      if p = Register.copy then 0 else if p = target then s.cells target + s.cells source else
        s.cells p := fun p => by
    simp only [summed, Snapshot.set_cells, Function.update_apply]
  exact
    { target_eq := by
        rw [hcells, if_neg hne₂, if_neg hne₁, if_pos rfl, UInt8.toNat_add]
      source_eq := fun hne => by
        rw [hcells, if_neg hne₂', if_neg hne₁', if_neg hne.symm]
      copy_eq := by simp [hcells]
      addSub_eq := by simp [hcells]
      spares := ⟨fun p hp => by grind, rfl, rfl, rfl⟩ }

theorem subtracts_subtracted : Subtracts target source s (subtracted target source s) := by
  obtain ⟨⟨hne₁, hne₂, hne₃⟩, hne₄, hne₅⟩ := htarget
  obtain ⟨⟨hne₁', hne₂', hne₃'⟩, hne₄', hne₅'⟩ := hsource
  have hcells : ∀ p, (subtracted target source s).cells p =
      if p = Register.flag then if s.cells source = 0 then s.cells p else 0 else
      if p = Register.zeroTest then if s.cells source = 0 then s.cells p else 0 else
      if p = Register.addSub then 0 else if p = Register.copy then 0 else
      if p = Register.borrow then if s.cells target < s.cells source then 1 else 0 else
      if p = target then s.cells target - s.cells source else s.cells p := fun p => by
    simp only [subtracted, Snapshot.set_cells, Function.update_apply]
    grind
  exact
    { target_eq := by
        rw [hcells, if_neg hne₃, if_neg hne₂, if_neg hne₄, if_neg hne₁, if_neg hne₅, if_pos rfl,
          UInt8.toNat_sub]
        -- Bytes wrap around by adding 256 before they subtract.
        have hlt := (s.cells source).toNat_lt
        omega
      borrow_eq := by
        simp only [subtracted_borrow, UInt8.lt_iff_toNat_lt]
        split <;> rfl
      source_eq := fun hne => by
        rw [hcells, if_neg hne₃', if_neg hne₂', if_neg hne₄', if_neg hne₁', if_neg hne₅',
          if_neg hne.symm]
      copy_eq := by simp [hcells]
      addSub_eq := by simp [hcells]
      tests_eq := fun hsome => by simp [hcells, hsome]
      untested := fun hnone => by simp [hcells, hnone]
      spares := ⟨fun p hp => by grind, rfl, rfl, rfl⟩ }

end Cells

/-- From every session `σ` and on every tape, `addCell` and `subCell` add and subtract the `source`,
if both cells are an `Operand`, that is none of the registers of additions and subtractions. One
takes back what the other does. -/
theorem Session.runs_addCell_subCell (htape : OnTape σ.cursor) (htarget : OnTape target)
    (htarget' : Operand target) (hsource : OnTape source) (hsource' : Operand source) :
    σ.Runs (addCell target source) (fun _ => True) (Sums target source) ∧
      σ.Runs (subCell target source) (fun _ => True) (Subtracts target source) ∧
      (target ≠ source → σ.Runs (sequence [subCell target source, addCell target source])
        (fun _ => True) fun s t => t.cells target = s.cells target) := by
  have hadd := Realizes.addCell htape (Trust.isOpen_nothing htarget) htarget'
    (Trust.isOpen_nothing hsource) hsource'
  have hsub := Realizes.subCell htape (Trust.isOpen_nothing htarget) htarget'
    (Trust.isOpen_nothing hsource) hsource'
  have hboth := hsub.cons (hadd.cons (.nil _))
  refine ⟨RealizesOn.runs htape hadd fun s hs _ => ⟨hs, sums_summed htarget' hsource'⟩,
    RealizesOn.runs htape hsub fun s hs _ => ⟨hs, subtracts_subtracted htarget' hsource'⟩,
    fun hne => RealizesOn.runs (f := fun s => summed target source (subtracted target source s))
      htape hboth fun s hs _ => ⟨hs, ?_⟩⟩
  -- The source is as it was when it is added again.
  have hdifference := subtracts_subtracted htarget' hsource' (s := s)
  have hsum := (sums_summed htarget' hsource' (s := subtracted target source s)).target_eq
  rw [hdifference.source_eq hne] at hsum
  have hlt := (s.cells target).toNat_lt
  have hback := hdifference.target_eq
  refine UInt8.toNat_inj.mp ?_
  omega

/-- There is a machine with two numbers on its tape. -/
theorem exists_numbers : ∃ m : Machine, m.Unhindered 0 .endless ∧
    m.view 0 = (((Snapshot.fresh []).set 30 7).set 32 2).goTo 30 := by
  have hfirst : Trust.nothing.Adds 30 7 := Trust.nothing.adds_of_small 30 (by decide)
  have hsecond : Trust.nothing.Adds 32 2 := Trust.nothing.adds_of_small 32 (by decide)
  have hsteps := (Realizes.setAt 0 (Trust.isOpen_nothing (by decide)) hfirst).cons
    ((Realizes.setAt 30 (Trust.isOpen_nothing (by decide)) hsecond).cons
      ((Realizes.moveTo 32 (show OnTape 30 by decide)).cons (.nil 30)))
  obtain ⟨code, σ', program, -, -, hrun⟩ := RealizesOn.runs (σ := { wraps := true })
    (q := fun s t => t = ((s.set 30 7).set 32 2).goTo 30) onTape_zero hsteps
      fun s _ _ => ⟨rfl, rfl⟩
  have hm := Machine.ready_forInput .endless []
  obtain ⟨fuel, ⟨hmemory, -⟩ | ⟨m, hexec, -, hview⟩⟩ := hrun hm.unhindered rfl trivial
  · cases hmemory
  · exact ⟨m, hm.unhindered.exec hexec, hm.view_eq ▸ hview⟩

/-- A session may know that all other cells are zero. -/
theorem agreesOnZeros_numbers : Session.AgreesOnZeros
    { wraps := true, cursor := 30, knowledge := { base := [(30, none), (32, none)] } }
    ((((Snapshot.fresh []).set 30 7).set 32 2).goTo 30) := by
  intro cell hzero
  have hne₁ : cell ≠ 30 := by
    rintro rfl
    cases hzero
  have hne₂ : cell ≠ 32 := by
    rintro rfl
    cases hzero
  rw [Snapshot.goTo_cells, Snapshot.cells_set_of_ne hne₂, Snapshot.cells_set_of_ne hne₁]
  rfl

/-- Seven taken from two gives 251 and a borrow. -/
theorem Session.runs_subCell_seven : ∃ (m m' : Machine) (code : Fragment) (σ : Session)
    (program : Program) (fuel : Nat), m.Unhindered 0 .endless ∧ (m.view 0).cells 32 = 2 ∧
      (m.view 0).cells 30 = 7 ∧
      Session.perform { wraps := true, cursor := 30 } (subCell 32 30) = (.ok code, σ) ∧
      Program.parse (Fragment.text code) = .ok program ∧
      m.exec .endless fuel program = .finished m' ∧ (m'.view 0).cells 32 = 251 ∧
      (m'.view 0).cells 30 = 7 ∧ (m'.view 0).cells Register.borrow = 1 ∧
      (m'.view 0).cursor = 30 := by
  obtain ⟨m, hm, hview⟩ := exists_numbers
  obtain ⟨code, σ, program, hemit, hparse, hrun⟩ := (@Session.runs_addCell_subCell
    { wraps := true, cursor := 30 } 30 32 (by decide) (by decide) (by decide) (by decide)
      (by decide)).2.1
  obtain ⟨fuel, ⟨hmemory, -⟩ | ⟨m', hexec, -, hsub⟩⟩ := hrun hm (by rw [hview]; rfl) trivial
  · cases hmemory
  have htarget : (m.view 0).cells 32 = 2 := by rw [hview]; rfl
  have hsource : (m.view 0).cells 30 = 7 := by rw [hview]; rfl
  refine ⟨m, m', code, σ, program, fuel, hm, htarget, hsource, hemit, hparse, hexec,
    UInt8.toNat_inj.mp ?_, ?_, UInt8.toNat_inj.mp ?_, ?_⟩
  · have hdifference := hsub.target_eq
    rw [htarget, hsource] at hdifference
    exact Int.ofNat.inj hdifference
  · rw [hsub.source_eq (by decide), hsource]
  · rw [hsub.borrow_eq, htarget, hsource]
    rfl
  · rw [hsub.spares.cursor_eq, hview]
    rfl

/-- With nothing to subtract, `subCell` makes no tests, and what their `Register.flag` holds is left
there. -/
theorem exec_subCell_flag : ∃ (m : Machine) (code : Fragment) (σ : Session)
    (program : Program) (fuel : Nat),
      Session.perform { wraps := true } (emitAll [.incAt (.cell Register.flag),
        .subCell (.cell 30) (.cell 32)]) = (.ok code, σ) ∧
      Program.parse (Fragment.text code) = .ok program ∧
      (Machine.forInput .endless []).exec .endless fuel program = .finished m ∧
      (m.view 0).cells Register.flag = 1 := by
  have hsub := Realizes.subCell (show OnTape Register.flag by decide)
    (Trust.isOpen_nothing (show OnTape 30 by decide)) (by decide)
    (Trust.isOpen_nothing (show OnTape 32 by decide)) (by decide)
  have hsteps := (Realizes.incAt 0 isOpen_flag).cons (hsub.cons (.nil _))
  have hsequence : emitAll [.incAt (.cell Register.flag), .subCell (.cell 30) (.cell 32)] =
      sequence [incAt Register.flag, subCell 30 32] := by
    simp only [emitAll, Directive.emit, Place.resolve, sequence, pure_bind]
  -- Nothing is subtracted from a tape with zero at 32, so `subtracted` leaves the flag as it was.
  have hkept : ∀ s : Snapshot, s.cells 32 = 0 → (subtracted 30 32 ((s.set Register.flag
      (s.cells Register.flag + 1)).goTo Register.flag)).cells Register.flag =
        s.cells Register.flag + 1 := by
    intro s hsource
    rw [((subtracts_subtracted (by decide) (by decide)).untested (by simpa using hsource)).2]
    simp
  obtain ⟨code, σ, program, hemit, hparse, hrun⟩ := RealizesOn.runs (σ := { wraps := true })
    (q := fun s t => s.cells 32 = 0 → t.cells Register.flag = s.cells Register.flag + 1)
      onTape_zero hsteps fun s _ _ => ⟨rfl, hkept s⟩
  obtain ⟨fuel, ⟨hmemory, -⟩ | ⟨m, hexec, -, hend⟩⟩ :=
    hrun (Machine.ready_forInput .endless []).unhindered rfl trivial
  · cases hmemory
  · exact ⟨m, code, σ, program, fuel, (congrArg _ hsequence).trans hemit, hparse, hexec, hend rfl⟩

/-! ### Division -/

/-- Whether a cell has been divided by another one, and holds one of quotient and remainder. -/
structure Divides (pos divisor : Int) (result : Nat → Nat → Nat) (s t : Snapshot) : Prop where
  result_eq : (t.cells pos).toNat = result (s.cells pos).toNat (s.cells divisor).toNat
  quotient_eq : (t.cells Register.divQuotient).toNat =
    (s.cells pos).toNat / (s.cells divisor).toNat
  remainder_eq : (t.cells Register.divRemainder).toNat =
    (s.cells pos).toNat % (s.cells divisor).toNat
  registers_eq : ∀ cell ∈ [Register.divLoop, Register.addSub, Register.copy, Register.zeroTest,
    Register.flag], t.cells cell = 0
  spares : Spares [pos, Register.divQuotient, Register.divRemainder, Register.divLoop,
    Register.addSub, Register.copy, Register.zeroTest, Register.flag, Register.borrow] s t

/-- A division leaves quotient and remainder, if one of them is put into the place of the dividend.
-/
theorem divides_divided {pos : Int} {s : Snapshot} {b : UInt8} {result : Nat → Nat → Nat}
    (hpos : Divisible pos) (hcursor : s.cursor = pos)
    (hresult : b.toNat = result (s.cells pos).toNat (s.cells divisor).toNat) :
    Divides pos divisor result s (((divided pos divisor s).set pos b).goTo pos) := by
  obtain ⟨⟨⟨hne₁, hne₂, hne₃⟩, hne₄, hne₅⟩, hne₆, hne₇, hne₈⟩ := hpos
  -- Every cell is looked up once; each field then picks its branch.
  have hcells : ∀ p, (((divided pos divisor s).set pos b).goTo pos).cells p =
      if p = pos then b else if p = Register.divQuotient then s.cells pos / s.cells divisor else
      if p = Register.divRemainder then s.cells pos % s.cells divisor else
      if p = Register.divLoop then 0 else if p = Register.borrow then 1 else
      if p = Register.addSub then 0 else if p = Register.flag then 0 else
      if p = Register.copy then 0 else if p = Register.zeroTest then 0 else s.cells p := fun p => by
    simp only [divided, dividedInto, tested, Snapshot.goTo_cells, Snapshot.set_cells,
      Function.update_apply]
  exact
    { result_eq := by rw [hcells, if_pos rfl, hresult]
      quotient_eq := by rw [hcells, if_neg hne₆.symm, if_pos rfl, UInt8.toNat_div]
      remainder_eq := by
        rw [hcells, if_neg hne₇.symm, if_neg (by decide), if_pos rfl, UInt8.toNat_mod]
      registers_eq := fun p hp => by
        rw [hcells]
        fin_cases hp <;> grind
      spares := ⟨fun p hp => by
        simp only [List.mem_cons, not_or] at hp
        simp only [hcells, hp, if_false], hcursor.symm, rfl, rfl⟩ }

/-- What a constant relies on where it is added: if the next cell is known to be zero, it has to be.
What is known of other cells stays so. -/
theorem exists_add (htape : OnTape σ.cursor) (amount : Int) :
    ∃ code σ', Emits σ (add amount) code σ' ∧ σ'.cursor = σ.cursor ∧
      (∀ cell, cell ≠ σ.cursor → σ'.known cell = σ.known cell) ∧
      (OnTape (σ.cursor + 1) → ∀ s : Snapshot, s.cursor = σ.cursor →
        (σ.known (σ.cursor + 1) = some 0 → s.cells (σ.cursor + 1) = 0) →
          code.effect s (.done (s.put (s.here + UInt8.ofInt amount)))) := by
  -- An addition of zero leaves the session as it is; any other one is a bump.
  have hbump : ∀ cell, cell ≠ σ.cursor →
      (σ.bump (Word.wrap amount)).known cell = σ.known cell :=
    fun _ hne => (Session.sameAt_bump hne _).known_eq
  obtain ⟨code, σ', hemits, -, hσ', hadd⟩ := exists_emits_add σ amount
  refine ⟨code, σ', hemits, ?_, ?_, fun hnext s hs hzero => hadd s ?_⟩
  · obtain rfl | rfl := hσ'
    · rfl
    · rw [Session.bump_cursor]
  · obtain rfl | rfl := hσ'
    · exact fun _ _ => rfl
    · exact hbump
  · refine effect_addingCode _ (hs ▸ htape) (hs ▸ hnext) fun hknown => ?_
    have hne : σ.cursor + 1 ≠ σ.cursor := by omega
    rw [hs]
    exact hzero ((hbump _ hne).symm.trans (eq_of_beq hknown))

/-- What a constant relies on where a cell is set to it. -/
theorem exists_setAt (htape : OnTape σ.cursor) (hcell : Register.Usable cell) (value : Int) :
    ∃ code σ', Emits σ (setAt cell value) code σ' ∧ σ'.cursor = cell ∧ ∀ s : Snapshot,
      s.cursor = σ.cursor → (σ.known (cell + 1) = some 0 → s.cells (cell + 1) = 0) →
        code.effect s (.done ((s.set cell (UInt8.ofInt value)).goTo cell)) := by
  have hne : cell + 1 ≠ cell := by omega
  have hsum : σ.cursor + (cell - σ.cursor) = cell := by omega
  obtain ⟨code, σ', hemits, hcursor, -, hadd⟩ := exists_add
    (σ := { σ with cursor := cell }.learn cell (some 0)) hcell.onTape value
  refine ⟨Fragment.moving (cell - σ.cursor) ++ ([.loop [.add (-1)]] ++ code), σ', ?_, hcursor,
    fun s hs hzero => ?_⟩
  · simp only [setAt, set, emits_sequence_cons_iff, emits_moveTo_iff, emits_clear_iff,
      emits_sequence_nil_iff]
    exact ⟨_, _, _, ⟨hcell.onTape, rfl, rfl⟩, ⟨_, _, _, ⟨_, _, _, ⟨rfl, rfl⟩, ⟨_, _, _, hemits,
      ⟨rfl, rfl⟩, rfl⟩, rfl⟩, ⟨rfl, rfl⟩, rfl⟩, by simp⟩
  · -- Clearing the cell changes nothing about the next one.
    have hadded := hadd hcell.next_onTape ((s.goTo cell).put 0) rfl fun hknown => by
      rw [Session.learn_cursor, Snapshot.put_goTo, Snapshot.goTo_cells,
        Snapshot.cells_set_of_ne hne]
      exact hzero ((Knowledge.SameAt.of_learn hne).known_eq.symm.trans hknown)
    rw [Fragment.effect_append, Fragment.moving_seq_iff (hs ▸ htape) (hs ▸ hsum) hcell.onTape,
      Fragment.effect_append, Fragment.effect_clear]
    refine Effect.seq_of_done rfl ?_
    simpa [Snapshot.put_goTo] using hadded

/-- Dividing by a constant is dividing by the register that is set to it. -/
theorem runs_divideByConstant {byCell : Gen Fragment} {output : Snapshot → UInt8}
    {result : Nat → Nat → Nat}
    (hcell : RealizesOn .nothing (fun s => s.cells Register.divDivisor ≠ 0) σ.cursor byCell σ.cursor
      fun s => .done (((divided σ.cursor Register.divDivisor s).set σ.cursor (output s)).goTo
        σ.cursor))
    (houtput : ∀ s, (output s).toNat =
      result (s.cells σ.cursor).toNat (s.cells Register.divDivisor).toNat)
    (htape : OnTape σ.cursor) (hpos : Divisible σ.cursor) (hne : σ.cursor ≠ Register.divDivisor)
    {v : Int} (hv : v % 256 ≠ 0) :
    σ.Runs (do
        warnZeroDivisor v
        let pos ← cursor
        sequence [setAt Register.divDivisor v, moveTo pos, byCell])
      (fun s => ∀ cell, σ.known cell = some 0 → s.cells cell = 0)
      fun s t => ∃ k : UInt8, (k.toNat : Int) = v % 256 ∧ t.cells Register.divDivisor = k ∧
        Divides σ.cursor Register.divDivisor result (s.set Register.divDivisor k) t := by
  obtain ⟨a, σ₁, hemits₁, hcursor₁, heffect₁⟩ :=
    exists_setAt htape (show Register.Usable Register.divDivisor by decide) v
  -- Nothing is relied on when the register is set.
  have hrest := RealizesOn.cons_on (p := fun s => s.cells Register.divDivisor ≠ 0)
    (Realizes.moveTo Register.divDivisor htape) (hcell.cons (.nil _)) (by
      rintro s _ hk ⟨⟩
      exact hk)
  obtain ⟨b, σ₂, hemits₂, -, hcursor₂, -, heffect₂⟩ := hrest hcursor₁ (Trust.allows_nothing _)
  have hemits : Emits σ (do
      warnZeroDivisor v
      let pos ← cursor
      sequence [setAt Register.divDivisor v, moveTo pos, byCell]) (a ++ b) σ₂ := by
    rw [warnZeroDivisor, if_neg hv, pure_bind, emits_bind_iff]
    exact ⟨σ.cursor, σ, emits_cursor_iff.mpr ⟨rfl, rfl⟩,
      emits_sequence_cons_iff.mpr ⟨a, b, σ₁, hemits₁, hemits₂, rfl⟩⟩
  have hk : UInt8.ofInt v ≠ 0 := fun hzero => hv (ofInt_eq_zero_iff.mp hzero)
  -- What is known matters for the constant only, which is loaded first.
  refine Session.runs_of_effect (f := fun s =>
    let s' := s.set Register.divDivisor (UInt8.ofInt v)
    ((divided σ.cursor Register.divDivisor s').set σ.cursor (output s')).goTo σ.cursor) htape hemits
      fun s hs hknown => ?_
  have hback : ((s.set Register.divDivisor (UInt8.ofInt v)).goTo Register.divDivisor).goTo
      σ.cursor = s.set Register.divDivisor (UInt8.ofInt v) := by
    rw [Snapshot.goTo_goTo, ← hs]
    rfl
  have hdivided := heffect₂
    (s := (s.set Register.divDivisor (UInt8.ofInt v)).goTo Register.divDivisor)
    (Trust.fits_nothing hcursor₁.symm (hcursor₁ ▸ by decide)) (by simpa using hk)
  simp only [Ending.andThen_done, hback] at hdivided
  have hdivides := divides_divided (s := s.set Register.divDivisor (UInt8.ofInt v)) hpos hs
    (houtput _)
  refine ⟨?_, hcursor₂.symm, _, toNat_ofInt v, ?_, hdivides⟩
  · rw [Fragment.effect_append]
    exact Effect.seq_of_done (heffect₁ s hs (hknown _)) hdivided
  · rw [hdivides.spares.cells_eq _ (by simp [hne.symm])]
    exact Snapshot.cells_set_self ..

/-- From every session `σ` and on every tape with a `divisor` other than zero, `divCell` and
`modCell` leave the Euclidean quotient and remainder under the cursor, as `Divides` says. To divide
by a constant `v`, `div` and `mod` ask for the cells to be zero that `σ` knows to be. -/
theorem Session.runs_div_mod (htape : OnTape σ.cursor) (hpos : Divisible σ.cursor) :
    (∀ divisor, OnTape divisor → Divisible divisor →
      σ.Runs (divCell divisor) (fun s => s.cells divisor ≠ 0) (Divides σ.cursor divisor (· / ·)) ∧
        σ.Runs (modCell divisor) (fun s => s.cells divisor ≠ 0)
          (Divides σ.cursor divisor (· % ·))) ∧
    ∀ v : Int, v % 256 ≠ 0 → σ.cursor ≠ Register.divDivisor →
      σ.Runs (div v) (fun s => ∀ cell, σ.known cell = some 0 → s.cells cell = 0) (fun s t =>
        ∃ k : UInt8, (k.toNat : Int) = v % 256 ∧ t.cells Register.divDivisor = k ∧
          Divides σ.cursor Register.divDivisor (· / ·) (s.set Register.divDivisor k) t) ∧
      σ.Runs (mod v) (fun s => ∀ cell, σ.known cell = some 0 → s.cells cell = 0) (fun s t =>
        ∃ k : UInt8, (k.toNat : Int) = v % 256 ∧ t.cells Register.divDivisor = k ∧
          Divides σ.cursor Register.divDivisor (· % ·) (s.set Register.divDivisor k) t) := by
  have hopen := Trust.isOpen_nothing htape
  refine ⟨fun divisor hdivisor hdivisor' => ?_, fun v hv hne => ?_⟩
  · have hdiv := RealizesOn.divCell hopen hpos (Trust.isOpen_nothing hdivisor) hdivisor'
    have hmod := RealizesOn.modCell hopen hpos (Trust.isOpen_nothing hdivisor) hdivisor'
    exact ⟨hdiv.runs htape fun s hs _ => ⟨rfl, divides_divided hpos hs (UInt8.toNat_div ..)⟩,
      hmod.runs htape fun s hs _ => ⟨rfl, divides_divided hpos hs (UInt8.toNat_mod ..)⟩⟩
  -- A constant is divided by as the cell `Register.divDivisor`, which is set to it before.
  · have hregister : OnTape Register.divDivisor := by decide
    have hdiv := RealizesOn.divCell hopen hpos (Trust.isOpen_nothing hregister) (by decide)
    have hmod := RealizesOn.modCell hopen hpos (Trust.isOpen_nothing hregister) (by decide)
    exact ⟨runs_divideByConstant hdiv (fun s => UInt8.toNat_div ..) htape hpos hne hv,
      runs_divideByConstant hmod (fun s => UInt8.toNat_mod ..) htape hpos hne hv⟩

/-- Seven divided by two has the remainder one; divided by 258, which is two as a byte, it gives
three. -/
theorem Session.runs_div_mod_seven : ∃ (m m₁ m₂ : Machine) (code₁ code₂ : Fragment)
    (σ σ₁ σ₂ : Session) (program₁ program₂ : Program) (fuel₁ fuel₂ : Nat), m.Unhindered 0 .endless ∧
      (m.view 0).cells 30 = 7 ∧ (m.view 0).cells 32 = 2 ∧ σ.cursor = 30 ∧
      (∀ cell, σ.known cell = some 0 → (m.view 0).cells cell = 0) ∧
      (σ.perform (modCell 32) = (.ok code₁, σ₁) ∧
        Program.parse (Fragment.text code₁) = .ok program₁ ∧
        m.exec .endless fuel₁ program₁ = .finished m₁ ∧ ((m₁.view 0).cells 30).toNat = 1 ∧
        ((m₁.view 0).cells Register.divQuotient).toNat = 3) ∧
      σ.perform (div 258) = (.ok code₂, σ₂) ∧ Program.parse (Fragment.text code₂) = .ok program₂ ∧
        m.exec .endless fuel₂ program₂ = .finished m₂ ∧ ((m₂.view 0).cells 30).toNat = 3 ∧
        ((m₂.view 0).cells Register.divRemainder).toNat = 1 := by
  obtain ⟨m, hm, hview⟩ := exists_numbers
  have hdividend : (m.view 0).cells 30 = 7 := by rw [hview]; rfl
  have hdivisor : (m.view 0).cells 32 = 2 := by rw [hview]; rfl
  let σ : Session :=
    { wraps := true, cursor := 30, knowledge := { base := [(30, none), (32, none)] } }
  have hcursor : (m.view 0).cursor = σ.cursor := by rw [hview]; rfl
  have hknown : σ.AgreesOnZeros (m.view 0) := hview ▸ agreesOnZeros_numbers
  obtain ⟨hcells, hconstants⟩ := @Session.runs_div_mod σ (by decide) (by decide)
  obtain ⟨code₁, σ₁, program₁, hemit₁, hparse₁, hrun₁⟩ := (hcells 32 (by decide) (by decide)).2
  obtain ⟨code₂, σ₂, program₂, hemit₂, hparse₂, hrun₂⟩ := (hconstants 258 (by decide) (by decide)).1
  have hsome : (m.view 0).cells 32 ≠ 0 := by
    rw [hdivisor]
    decide
  obtain ⟨fuel₁, ⟨hmemory, -⟩ | ⟨m₁, hexec₁, -, hend₁⟩⟩ := hrun₁ hm hcursor hsome
  · cases hmemory
  obtain ⟨fuel₂, ⟨hmemory, -⟩ | ⟨m₂, hexec₂, -, k, hk, -, hend₂⟩⟩ := hrun₂ hm hcursor hknown
  · cases hmemory
  have hk : k.toNat = 2 := by omega
  refine ⟨m, m₁, m₂, code₁, code₂, σ, σ₁, σ₂, program₁, program₂, fuel₁, fuel₂, hm, hdividend,
    hdivisor, rfl, hknown, ⟨hemit₁, hparse₁, hexec₁, ?_, ?_⟩, hemit₂, hparse₂, hexec₂, ?_, ?_⟩
  · simpa [σ, hdividend, hdivisor] using hend₁.result_eq
  · simpa [σ, hdividend, hdivisor] using hend₁.quotient_eq
  · simpa [σ, hdividend, hk] using hend₂.result_eq
  · simpa [σ, hdividend, hk] using hend₂.remainder_eq

end TapeMachine.Generator
