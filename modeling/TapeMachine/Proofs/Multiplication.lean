import Mathlib.Data.Int.ModEq
import TapeMachine.Proofs.CellArithmetic

/-!
# Multiplication by constants

A cell is multiplied by a constant by adding a copy of it to a register as often as the constant
says, modulo 256. The constant itself is counted down in a register whose pad is relied on, as the
constant may be built there from factors.

An addition clears the register it counts on. A constant that is a multiple of 256 makes none, and
whatever that register held before is still there then.

The module introduces:

* `Generator.Multiplicand`: the cells that are no registers of a multiplication;
* `Generator.Realizes.mul`: what is on the tape after a multiplication;
* `Generator.Multiplies`: what multiplications do to a tape;
* `Generator.Session.runs_mul`: products, from every session that has kept the pad clean.
-/

namespace TapeMachine.Generator

variable {T : Trust} {σ : Session} {pos factor : Int} {s : Snapshot}

/-- Whether a cell is none of the registers that multiplications use. -/
structure Multiplicand (cell : Int) : Prop where
  ne_copy : cell ≠ Register.copy
  ne_addSub : cell ≠ Register.addSub
  ne_mulSource : cell ≠ Register.mulSource
  ne_mulSum : cell ≠ Register.mulSum
  ne_mulCount : cell ≠ Register.mulCount
  ne_mulPad : cell ≠ Register.mulPad

instance (cell : Int) : Decidable (Multiplicand cell) :=
  decidable_of_iff (cell ≠ Register.copy ∧ cell ≠ Register.addSub ∧ cell ≠ Register.mulSource ∧
      cell ≠ Register.mulSum ∧ cell ≠ Register.mulCount ∧ cell ≠ Register.mulPad)
    ⟨fun h => ⟨h.1, h.2.1, h.2.2.1, h.2.2.2.1, h.2.2.2.2.1, h.2.2.2.2.2⟩,
      fun h => ⟨h.1, h.2, h.3, h.4, h.5, h.6⟩⟩

/-! ### Adding a cell again and again -/

/-- The copy of the cell is open to all steps. -/
private theorem isOpen_mulSource : T.Open Register.mulSource :=
  T.isOpen_of_not_isPad (by decide) (by decide)

/-- The sum is open to all steps. -/
private theorem isOpen_mulSum : T.Open Register.mulSum :=
  T.isOpen_of_not_isPad (by decide) (by decide)

/-- The register with the factor is open to all steps. -/
private theorem isOpen_mulCount : T.Open Register.mulCount :=
  T.isOpen_of_not_isPad (by decide) (by decide)

/-- What is there when `v` additions are left. The registers of an addition are zero behind it, but
keep what they hold until there is one. -/
private def multiplying (s : Snapshot) (v : UInt8) : Snapshot :=
  let added := s.cells Register.mulCount - v
  let spent (cell : Int) := if added = 0 then s.cells cell else 0
  ((((s.set Register.mulSum (s.cells Register.mulSum + added * s.cells Register.mulSource)).set
    Register.copy (spent Register.copy)).set Register.addSub (spent Register.addSub)).set
      Register.mulCount v).goTo Register.mulCount

/-- After a pass there has been an addition. -/
private theorem added_ne_zero {count v : UInt8} (hv : v ≠ 0) (hle : v ≤ count) :
    count - (v - 1) ≠ 0 := by
  have hpos : v.toNat ≠ 0 := fun hzero => hv (UInt8.toNat_inj.mp hzero)
  have hle' := UInt8.le_iff_toNat_le.mp hle
  intro hnone
  have hcount : count + 1 = v := by grind
  have hlt := count.toNat_lt
  have hsum := congrArg UInt8.toNat hcount
  rw [UInt8.toNat_add, UInt8.toNat_one] at hsum
  omega

/-- The loop of a multiplication adds the copy of the cell as often as the register says. -/
private theorem addAll (pos : Int) :
    Realizes T pos (repeatBy Register.mulCount (addCell Register.mulSum Register.mulSource))
      Register.mulCount fun s => .done (multiplying (s.goTo Register.mulCount) 0) := by
  have hadd := Realizes.addCell (T := T) (show OnTape Register.mulCount by decide) isOpen_mulSum
    (by decide) isOpen_mulSource (by decide)
  refine Realizes.repeatBy pos isOpen_mulCount hadd multiplying (fun s v => rfl) (fun s v => ?_)
    (fun s hs => ?_) (fun s v hv hle => ?_)
  · simp [multiplying]
  · -- Before the first addition the registers are as they were.
    refine Snapshot.ext hs.symm (funext fun p => ?_) rfl rfl
    simp only [multiplying, Snapshot.goTo_cells, Snapshot.set_cells, Function.update_apply]
    grind
  · -- The copy of the cell is kept, so each addition adds as much as the ones before.
    have hsome := added_ne_zero hv hle
    have hstep : s.cells Register.mulSum + (s.cells Register.mulCount - v) *
        s.cells Register.mulSource + s.cells Register.mulSource = s.cells Register.mulSum +
          (s.cells Register.mulCount - (v - 1)) * s.cells Register.mulSource := by grind
    refine Snapshot.ext rfl (funext fun p => ?_) rfl rfl
    simp only [multiplying, summed, Snapshot.goTo_cells, Snapshot.set_cells, Function.update_apply,
      hsome, if_false]
    grind

/-! ### Products -/

/-- The product is in the cell, and the registers are zero; but without an addition the register
that additions count on is not touched. -/
def multiplied (pos factor : Int) (s : Snapshot) : Snapshot :=
  (((((s.set pos (s.cells pos * UInt8.ofInt factor)).set Register.copy 0).set Register.addSub
    (if UInt8.ofInt factor = 0 then s.cells Register.addSub else 0)).set Register.mulSource 0).set
      Register.mulSum 0).set Register.mulCount 0

/-- `mul factor` leaves `multiplied pos factor`, where the `factor` can be added to its register. -/
theorem Realizes.mul (hopen : T.Open pos) (hpos : Multiplicand pos)
    (hadds : T.Adds Register.mulCount factor) :
    Realizes T pos (Generator.mul factor) pos fun s => .done (multiplied pos factor s) := by
  obtain ⟨hne₁, hne₂, hne₃, hne₄, hne₅, -⟩ := hpos
  have hsource := Realizes.copy hopen.onTape isOpen_mulSource hopen hne₃.symm (by decide) hne₁
  have hback := Realizes.copy (show OnTape Register.mulCount by decide) hopen isOpen_mulSum hne₄
    hne₁ (by decide)
  unfold Generator.mul
  refine Realizes.cursor_bind (Realizes.noted _ ((Realizes.saveCursor hopen.onTape (hsource.cons
    ((Realizes.clearAt _ isOpen_mulSum).cons ((Realizes.setAt _ isOpen_mulCount hadds).cons
      ((addAll _).cons (hback.cons ((Realizes.clearAt _ isOpen_mulSum).cons
        ((Realizes.clearAt _ isOpen_mulSource).cons (.nil _))))))))).congr fun s hs => ?_))
  -- The additions start from zero, so their sum is the product, and it is copied back.
  refine congrArg Ending.done (Snapshot.ext hs.cursor.symm (funext fun p => ?_) rfl rfl)
  simp only [multiplied, multiplying, Snapshot.goTo_cells, Snapshot.set_cells,
    Function.update_apply]
  grind

/-- Whether a cell has been multiplied by a constant. The additions leave their register at zero; if
the constant is a multiple of 256, there are none. -/
structure Multiplies (pos factor : Int) (s t : Snapshot) : Prop where
  product_eq : ((t.cells pos).toNat : Int) = ((s.cells pos).toNat * factor) % 256
  registers_eq : ∀ cell ∈ [Register.copy, Register.mulSource, Register.mulSum, Register.mulCount,
    Register.mulPad], t.cells cell = 0
  addSub_eq : factor % 256 ≠ 0 → t.cells Register.addSub = 0
  unadded : factor % 256 = 0 → t.cells Register.addSub = s.cells Register.addSub
  spares : Spares [pos, Register.copy, Register.addSub, Register.mulSource, Register.mulSum,
    Register.mulCount] s t

/-- What `mul factor` leaves is the product, where the pad of the register was zero. -/
theorem multiplies_multiplied (hpos : Multiplicand pos) (hpad : s.cells Register.mulPad = 0) :
    Multiplies pos factor s (multiplied pos factor s) := by
  obtain ⟨hne₁, hne₂, hne₃, hne₄, hne₅, hne₆⟩ := hpos
  -- Every cell is looked up once; each field then picks its branch.
  have hcells : ∀ p, (multiplied pos factor s).cells p = if p = Register.mulCount then 0 else
      if p = Register.mulSum then 0 else if p = Register.mulSource then 0 else
      if p = Register.addSub then if factor % 256 = 0 then s.cells p else 0 else
      if p = Register.copy then 0 else
      if p = pos then s.cells pos * UInt8.ofInt factor else s.cells p := fun p => by
    simp only [multiplied, Snapshot.set_cells, Function.update_apply, ofInt_eq_zero_iff]
    grind
  exact
    { product_eq := by
        rw [hcells, if_neg hne₅, if_neg hne₄, if_neg hne₃, if_neg hne₂, if_neg hne₁, if_pos rfl,
          UInt8.toNat_mul, Int.natCast_emod, Int.natCast_mul, toNat_ofInt]
        exact (Int.mod_modEq factor 256).mul_left _
      registers_eq := fun p hp => by
        rw [hcells]
        fin_cases hp <;> grind
      addSub_eq := fun hsome => by simp [hcells, hsome]
      unadded := fun hnone => by simp [hcells, hnone]
      spares := ⟨fun p hp => by
        simp only [List.mem_cons, not_or] at hp
        simp only [hcells, hp, if_false], rfl, rfl, rfl⟩ }

/-- A cell that is a `Multiplicand`, that is none of the registers of multiplications, is multiplied
by any `factor` modulo 256, from every session `σ` in which `Register.mulPad` is clean and on every
tape on which `σ` `AgreesOnZeros`. -/
theorem Session.runs_mul (htape : OnTape σ.cursor) (hpos : Multiplicand σ.cursor)
    (hclean : σ.knowledge.isCleanPad Register.mulPad = true) (factor : Int) :
    σ.Runs (mul factor) σ.AgreesOnZeros (Multiplies σ.cursor factor) := by
  -- The pad is all that is relied on: the constant is the only one that may be counted.
  have hadds : (Trust.inPads (· = Register.mulPad)).Adds Register.mulCount factor :=
    Trust.adds_inPads (by rfl) (by decide) factor
  have hmul := Realizes.mul (Trust.isOpen_inPads htape hpos.ne_mulPad) hpos hadds
  have hpads : ∀ pad, pad = Register.mulPad → σ.knowledge.isCleanPad pad = true := by
    rintro _ rfl
    exact hclean
  refine RealizesOn.runs_inPads hpads htape hmul fun s hs hzeros => ?_
  have hpad := hzeros Register.mulPad (Knowledge.known_of_isCleanPad hclean)
  exact ⟨trivial, hs, multiplies_multiplied hpos hpad⟩

/-- Seven times 300 is 52 more than eight times 256. -/
theorem Session.runs_mul_seven : ∃ (m m' : Machine) (code : Fragment) (σ σ' : Session)
    (program : Program) (fuel : Nat), m.Unhindered 0 .endless ∧ (m.view 0).cells 30 = 7 ∧
      σ.cursor = 30 ∧ σ.knowledge.isCleanPad Register.mulPad = true ∧
      σ.AgreesOnZeros (m.view 0) ∧ σ.perform (mul 300) = (.ok code, σ') ∧
      Program.parse (Fragment.text code) = .ok program ∧
      m.exec .endless fuel program = .finished m' ∧ ((m'.view 0).cells 30).toNat = 52 ∧
      (m'.view 0).cells Register.addSub = 0 ∧ (m'.view 0).cursor = 30 := by
  obtain ⟨m, hm, hview⟩ := exists_numbers
  let σ : Session :=
    { wraps := true, cursor := 30, knowledge := { base := [(30, none), (32, none)] } }
  have hcell : (m.view 0).cells 30 = 7 := by rw [hview]; rfl
  have hcursor : (m.view 0).cursor = 30 := by rw [hview]; rfl
  have hzeros : σ.AgreesOnZeros (m.view 0) := hview ▸ agreesOnZeros_numbers
  have hclean : σ.knowledge.isCleanPad Register.mulPad = true := by decide
  obtain ⟨code, σ', program, hemit, hparse, hrun⟩ :=
    @Session.runs_mul σ (by decide) (by decide) hclean 300
  obtain ⟨fuel, ⟨hmemory, -⟩ | ⟨m', hexec, -, hproduct⟩⟩ := hrun hm hcursor hzeros
  · cases hmemory
  refine ⟨m, m', code, σ, σ', program, fuel, hm, hcell, rfl, hclean, hzeros, hemit, hparse, hexec,
    ?_, hproduct.addSub_eq (by decide), hproduct.spares.cursor_eq.trans hcursor⟩
  have hresult := hproduct.product_eq
  rw [show σ.cursor = 30 from rfl, hcell] at hresult
  exact Int.ofNat.inj hresult

/-- To multiply by zero, `mul` makes no addition, and what `Register.addSub` holds is left there. -/
theorem exec_mul_addSub : ∃ (m : Machine) (code : Fragment) (σ : Session)
    (program : Program) (fuel : Nat),
      Session.perform { wraps := true } (emitAll [.incAt (.cell Register.addSub),
        .moveTo (.cell 30), .mul 0]) = (.ok code, σ) ∧
      Program.parse (Fragment.text code) = .ok program ∧
      (Machine.forInput .endless []).exec .endless fuel program = .finished m ∧
      (m.view 0).cells Register.addSub = 1 := by
  have haddSub : Trust.nothing.Open Register.addSub := Trust.isOpen_nothing (by decide)
  -- A factor as small as zero is added symbol by symbol, with nothing asked of the pad.
  have hmul := Realizes.mul (Trust.isOpen_nothing (show OnTape 30 by decide)) (by decide)
    (Trust.nothing.adds_of_small Register.mulCount (show (Word.wrap 0).natAbs ≤ 7 by decide))
  have hsteps := (Realizes.incAt 0 haddSub).cons
    ((Realizes.moveTo Register.addSub (show OnTape 30 by decide)).cons (hmul.cons (.nil 30)))
  have hsequence : emitAll [.incAt (.cell Register.addSub), .moveTo (.cell 30), .mul 0] =
      sequence [incAt Register.addSub, moveTo 30, mul 0] := by
    simp only [emitAll, Directive.emit, Place.resolve, sequence, pure_bind]
  obtain ⟨code, σ, program, hemit, hparse, hrun⟩ := RealizesOn.runs (σ := { wraps := true })
    (q := fun s t => t.cells Register.addSub = s.cells Register.addSub + 1) onTape_zero hsteps
      fun s _ _ => ⟨rfl, by simp [multiplied, ofInt_eq_zero_iff]⟩
  obtain ⟨fuel, ⟨hmemory, -⟩ | ⟨m, hexec, -, hend⟩⟩ :=
    hrun (Machine.ready_forInput .endless []).unhindered rfl trivial
  · cases hmemory
  · exact ⟨m, code, σ, program, fuel, (congrArg _ hsequence).trans hemit, hparse, hexec, hend⟩

end TapeMachine.Generator
