import TapeMachine.Proofs.CellArithmetic
import TapeMachine.Proofs.DialogEffect

/-!
# Texts and answers on machines

The code that prints a text, and the code that reads an answer, can each be run by itself. Both add
constants that are counted on a pad behind the register they are added to. Such a pad is known to be
zero everywhere, inside loops as well, as long as it is clean; so all that is asked of the tape is
that the cells are zero that the session knows to be.

The module introduces:

* `Generator.Session.Reaches`: what machines come to with the code of a step that may lack input;
* `Generator.Prints`, `Generator.Answers`: what printing and reading do to a tape;
* `Generator.Session.runs_writeString`: a text is printed, whatever its bytes are;
* `Generator.Session.reaches_readYesNo`: the input is read up to its first answer, or to its end.
-/

namespace TapeMachine.Generator

variable {σ : Session} {step : Gen Fragment} {s : Snapshot}

/-! ### Printing a text -/

/-- Whether a text has been printed, and nothing else was changed but the registers it is printed
from. -/
structure Prints (text : Bytes) (s t : Snapshot) : Prop where
  output_eq : t.output = s.output ++ text
  input_eq : t.input = s.input
  cursor_eq : t.cursor = s.cursor
  putPad_eq : t.cells Register.putPad = 0
  cells_eq : ∀ cell ∉ [Register.putSpace, Register.put], t.cells cell = s.cells cell

theorem prints_printed (hpad : s.cells Register.putPad = 0) (text : Bytes) :
    Prints text s (printed text s) := by
  have hcells : ∀ cell ∉ [Register.putSpace, Register.put],
      (printed text s).cells cell = s.cells cell := by
    intro cell hcell
    simp only [List.mem_cons, List.not_mem_nil, or_false, not_or] at hcell
    rw [printed, Snapshot.emit_cells, Snapshot.cells_set_of_ne hcell.2,
      Snapshot.cells_set_of_ne hcell.1]
  exact ⟨rfl, rfl, rfl, (hcells _ (by decide)).trans hpad, hcells⟩

/-- A `text` of any bytes is printed, from every session `σ` in which `Register.putPad` is clean,
and on every tape on which `σ` `AgreesOnZeros`, that is on which the cells are zero that `σ` knows
to be. -/
theorem Session.runs_writeString (htape : OnTape σ.cursor)
    (hpad : σ.knowledge.isCleanPad Register.putPad = true) (text : Bytes) :
    σ.Runs (writeString text) σ.AgreesOnZeros (Prints text) := by
  have hclean : ∀ pad, pad = Register.putPad → σ.knowledge.isCleanPad pad = true := by
    rintro _ rfl
    exact hpad
  have hzero : ∀ s, σ.AgreesOnZeros s → s.cells Register.putPad = 0 :=
    fun s hzeros => hzeros _ (if_pos hpad)
  by_cases htext : text = []
  · -- Without any bytes there is no code at all.
    subst htext
    refine RealizesOn.runs_inPads hclean htape (Realizes.nil _) fun s hs hzeros => ?_
    exact ⟨trivial, hs, (List.append_nil _).symm, rfl, rfl, hzero s hzeros, fun _ _ => rfl⟩
  · have hadds : ∀ amount, (Trust.inPads (· = Register.putPad)).Adds Register.put amount :=
      Trust.adds_inPads rfl (by decide)
    exact RealizesOn.runs_inPads hclean htape (Realizes.writeString hadds rfl htape htext)
      fun s hs hzeros => ⟨trivial, hs, prints_printed (hzero s hzeros) text⟩

/-- Bytes beyond those of letters are printed, too, with blanks before and between them. -/
theorem Session.runs_writeString_blanks : ∃ code σ program fuel m,
    Session.perform { wraps := true } (writeString [32, 255, 32, 0, 10]) = (.ok code, σ) ∧
      Program.parse (Fragment.text code) = .ok program ∧
      (Machine.forInput .endless []).exec .endless fuel program = .finished m ∧
      (m.view 0).output = [32, 255, 32, 0, 10] ∧ (m.view 0).cursor = 0 := by
  obtain ⟨code, σ, program, hemit, hparse, hrun⟩ :=
    @Session.runs_writeString { wraps := true } onTape_zero (by decide) [32, 255, 32, 0, 10]
  have hm := Machine.ready_forInput .endless []
  obtain ⟨fuel, ⟨hmemory, -⟩ | ⟨m, hexec, -, hprints⟩⟩ :=
    hrun hm.unhindered rfl (Session.agreesOnZeros_of_ready hm)
  · cases hmemory
  · exact ⟨code, σ, program, fuel, m, hemit, hparse, hexec, hprints.output_eq, hprints.cursor_eq⟩

/-! ### Reading an answer -/

/-- Whether a step generates code whose program leads every machine that has the cursor where the
session has it, and is as `p` says, to an ending as `q` says, unless bounded memory is exhausted. -/
def Session.Reaches (σ : Session) (step : Gen Fragment) (p : Snapshot → Prop)
    (q : Snapshot → Ending → Prop) : Prop :=
  ∃ code σ' program, σ.perform step = (.ok code, σ') ∧
    Program.parse (Fragment.text code) = .ok program ∧
    ∀ ⦃m : Machine⦄ ⦃sink : Nat⦄ ⦃memory : Memory⦄, m.Unhindered sink memory →
      (m.view sink).cursor = σ.cursor → p (m.view sink) →
      ∃ e, m.Reaches sink memory program e ∧ q (m.view sink) e

/-- Code that relies on clean pads leads where it says, if the cursor stays on the tape. -/
theorem Realizes.reaches_inPads {pads : Int → Prop} {next : Int} {f : Snapshot → Ending}
    {q : Snapshot → Ending → Prop}
    (hclean : ∀ pad, pads pad → σ.knowledge.isCleanPad pad = true) (htape : OnTape σ.cursor)
    (h : Realizes (.inPads pads) σ.cursor step next f)
    (hq : ∀ s, s.cursor = σ.cursor → σ.AgreesOnZeros s → f s ≠ .offTape ∧ q s (f s)) :
    σ.Reaches step σ.AgreesOnZeros q := by
  obtain ⟨code, σ', hemits, -, -, -, heffect⟩ := h rfl (Trust.allows_inPads hclean)
  refine ⟨code, σ', _, hemits, Fragment.parse_text code, fun m sink memory hm hs hzeros => ?_⟩
  obtain ⟨hne, hq⟩ := hq _ hs hzeros
  have hcode := heffect (Trust.fits_inPads hclean hs htape hzeros) trivial
  have hprogram := Source.effects_refines_condense _ (hs ▸ htape) hne hcode
  exact ⟨_, Machine.exec_of_effect _ hm hprogram, hq⟩

/-- Whether an answer has been read: it is in `yesNo` and in `flag`, what follows it is left in the
input, and all else that reading needs is zero. -/
structure Answers (b : UInt8) (rest : Bytes) (s t : Snapshot) : Prop where
  input_eq : t.input = rest
  output_eq : t.output = s.output
  cursor_eq : t.cursor = s.cursor
  yesNo_eq : t.cells Register.yesNo = if b = byte 'y' then 1 else 0
  flag_eq : t.cells Register.flag = if b = byte 'y' then 1 else 0
  zero_eq : ∀ cell ∈ [Register.yesNoLoop, Register.yesNoKey, Register.yesNoPad, Register.zeroTest,
    Register.copy], t.cells cell = 0
  cells_eq : ∀ cell ∉ [Register.yesNo, Register.flag, Register.yesNoLoop, Register.yesNoKey,
    Register.yesNoPad, Register.zeroTest, Register.copy], t.cells cell = s.cells cell

/-- What is done behind the loop clears the key and tells the answer once more. -/
theorem Heard.answers {b : UInt8} {rest : Bytes} {s t : Snapshot}
    (h : Heard (decide (b = byte 'y')) rest
      (((s.set Register.yesNo 0).set Register.yesNoLoop 1).goTo Register.yesNoLoop) t)
    (hpad : s.cells Register.yesNoPad = 0) :
    Answers b rest s ((((t.set Register.yesNoKey 0).set Register.flag
      (t.cells Register.yesNo)).set Register.copy 0).goTo s.cursor) := by
  have hyesNo := h.yesNo_eq
  simp only [decide_eq_true_eq] at hyesNo
  have hloop : t.cells Register.yesNoLoop = 0 := h.zero_eq _ (by decide)
  have htest : t.cells Register.zeroTest = 0 := h.zero_eq _ (by decide)
  -- The pad is none of the cells that are used up to the answer.
  have hpad' : t.cells Register.yesNoPad = 0 := by
    rw [h.cells_eq _ (by decide)]
    simpa (disch := decide) [Function.update_of_ne] using hpad
  exact
    { input_eq := h.input_eq
      output_eq := h.output_eq
      cursor_eq := rfl
      yesNo_eq := by simpa (disch := decide) [Function.update_of_ne] using hyesNo
      flag_eq := by simpa (disch := decide) [Function.update_of_ne] using hyesNo
      zero_eq := by simp [Function.update_apply, hloop, htest, hpad']
      cells_eq := fun cell hcell => by
        simp only [List.mem_cons, List.not_mem_nil, or_false, not_or] at hcell
        obtain ⟨hne₁, hne₂, hne₃, hne₄, hne₅, hne₆, hne₇⟩ := hcell
        have hkept := h.cells_eq cell (by simp [hne₁, hne₂, hne₃, hne₄, hne₆, hne₇])
        simpa [hne₁, hne₂, hne₃, hne₄, hne₇] using hkept }

/-- From every session `σ` in which `Register.yesNoPad` is clean, and on every tape on which `σ`
`AgreesOnZeros`, `readYesNo` takes the input up to the first byte `b` that `IsAnswer`, and then
`Answers` holds; if there is none, it takes all of the input and stops for lack of more. -/
theorem Session.reaches_readYesNo (htape : OnTape σ.cursor)
    (hpad : σ.knowledge.isCleanPad Register.yesNoPad = true) :
    σ.Reaches readYesNo σ.AgreesOnZeros fun s e =>
      (∀ before b rest, s.input = before ++ b :: rest → (∀ c ∈ before, ¬ Dialog.IsAnswer c) →
        Dialog.IsAnswer b → ∃ t, e = .done t ∧ Answers b rest s t) ∧
      ((∀ c ∈ s.input, ¬ Dialog.IsAnswer c) → ∃ t, e = .outOfInput t ∧ t.input = []) := by
  have hclean : ∀ pad, pad = Register.yesNoPad → σ.knowledge.isCleanPad pad = true := by
    rintro _ rfl
    exact hpad
  have hadds : ∀ amount, (Trust.inPads (· = Register.yesNoPad)).Adds Register.yesNoKey amount :=
    Trust.adds_inPads rfl (by decide)
  refine (Realizes.readYesNo hadds htape).reaches_inPads hclean htape fun s hs hzeros => ?_
  have hcases := answered_cases s.input (s := ((s.set Register.yesNo 0).set Register.yesNoLoop
    1).goTo Register.yesNoLoop) (by simp (disch := decide) [Function.update_of_ne])
  have hzero : s.cells Register.yesNoPad = 0 := hzeros _ (if_pos hpad)
  cases hanswer : Dialog.answer s.input with
  | none =>
    rw [hanswer] at hcases
    obtain ⟨t, ht, hinput, -⟩ := hcases
    rw [ht]
    refine ⟨nofun, fun before b rest hsplit hbefore hb => ?_, fun _ => ⟨t, rfl, hinput⟩⟩
    -- An input with an answer in it would have a first one.
    rw [hsplit, Dialog.answer_append hbefore, Dialog.answer_cons hb] at hanswer
    cases hanswer
  | some found =>
    obtain ⟨agreed, rest⟩ := found
    rw [hanswer] at hcases
    obtain ⟨t, ht, hheard⟩ := hcases
    rw [ht, Ending.andThen_done]
    refine ⟨nofun, fun before b left hsplit hbefore hb => ⟨_, rfl, ?_⟩, fun hnone => ?_⟩
    · rw [hsplit, Dialog.answer_append hbefore, Dialog.answer_cons hb] at hanswer
      cases hanswer
      exact hs ▸ hheard.answers hzero
    · cases hanswer.symm.trans (Dialog.answer_eq_none hnone)

/-- Letters, blanks and controls are passed over until there is a yes; the no behind it is left. -/
theorem Session.reaches_readYesNo_yes : ∃ code σ program fuel m,
    Session.perform { wraps := true } readYesNo = (.ok code, σ) ∧
      Program.parse (Fragment.text code) = .ok program ∧
      (Machine.forInput .endless (utf8 "a \nyn")).exec .endless fuel program = .finished m ∧
      (m.view 0).input = utf8 "n" ∧ (m.view 0).cells Register.yesNo = 1 ∧
      (m.view 0).cells Register.flag = 1 ∧ (m.view 0).cursor = 0 := by
  obtain ⟨code, σ, program, hemit, hparse, hrun⟩ :=
    @Session.reaches_readYesNo { wraps := true } onTape_zero (by decide)
  have hm := Machine.ready_forInput .endless (utf8 "a \nyn")
  obtain ⟨e, ⟨fuel, hdone | ⟨hmemory, -⟩⟩, hfound, -⟩ :=
    hrun hm.unhindered rfl (Session.agreesOnZeros_of_ready hm)
  · have hinput : ((Machine.forInput .endless (utf8 "a \nyn")).view 0).input =
        utf8 "a \n" ++ byte 'y' :: utf8 "n" := by
      rw [hm.view_eq]
      decide
    have hbefore : ∀ c ∈ utf8 "a \n", ¬ Dialog.IsAnswer c := by decide +kernel
    obtain ⟨t, rfl, ht⟩ := hfound _ _ _ hinput hbefore (Or.inl rfl)
    obtain ⟨m, hexec, rfl⟩ := Outcome.ending_eq_done_iff.mp hdone
    exact ⟨code, σ, program, fuel, m, hemit, hparse, hexec, ht.input_eq, ht.yesNo_eq, ht.flag_eq,
      ht.cursor_eq⟩
  · cases hmemory

end TapeMachine.Generator
