import Mathlib.Data.List.Forall2
import Mathlib.Tactic.Conv
import TapeMachine.Proofs.Optimization
import TapeMachine.Proofs.SymbolMachine

/-!
# Folding a text loses nothing

A folded text is cut into lines of one width. The newlines are comments, which do nothing, but they
end runs of symbols and keep loops from being read as something shorter, so the program of a folded
text is another one almost always. What the symbols do one by one is the same, and each of the two
programs does what the symbols of its text do.

The module introduces:

* `ProgramText.flatten_pieces`, `ProgramText.length_pieces`: the lines of a folded text;
* `ProgramText.foldFrom`: folding symbol by symbol, from a column on;
* `Source.ofText_fold`: the source trees of a folded text do what those of the text do, and brackets
  without a partner are found where they have moved to;
* `Runner.Concludes`: how a run reports the way it ends;
* `Runner.leadsTo_fold`: a text and its folded form end in the same way.
-/

namespace TapeMachine

namespace ProgramText

variable {width : Nat} {text : Bytes}

/-! ### The lines of a folded text -/

/-- There are no pieces of nothing. -/
theorem pieces_nil (width : Nat) : pieces width [] = [] := by
  rw [pieces, dif_pos (Or.inl rfl)]

/-- A piece is split off at the `width`. -/
theorem pieces_of_ne_nil (hwidth : 0 < width) (htext : text ≠ []) :
    pieces width text = text.take width :: pieces width (text.drop width) := by
  rw [pieces, dif_neg (not_or.mpr ⟨htext, hwidth.ne'⟩)]

/-- The pieces make up the text. -/
theorem flatten_pieces (hwidth : 0 < width) (text : Bytes) :
    (pieces width text).flatten = text := by
  fun_induction pieces width text with
  | case1 text h => exact (h.resolve_right hwidth.ne').symm
  | case2 text h ih => rw [List.flatten_cons, ih, List.take_append_drop]

/-- All pieces are of the given width, but the last one may be shorter. -/
theorem length_pieces (hwidth : 0 < width) (text : Bytes) :
    (∀ piece ∈ (pieces width text).dropLast, piece.length = width) ∧
      ∀ piece ∈ (pieces width text).getLast?, 1 ≤ piece.length ∧ piece.length ≤ width := by
  fun_induction pieces width text with
  | case1 text h => simp
  | case2 text h ih =>
    have htext : 0 < text.length := List.length_pos_iff.mpr fun hnil => h (Or.inl hnil)
    by_cases hmore : text.drop width = []
    · -- The piece is the last one.
      rw [hmore, pieces_nil]
      refine ⟨(fun _ hmem => by cases hmem), ?_⟩
      intro piece hlast
      obtain rfl : text.take width = piece := Option.some.inj hlast
      rw [List.length_take]
      omega
    · have hlength : width < text.length := by
        by_contra hle
        exact hmore (List.drop_eq_nil_of_le (not_lt.mp hle))
      obtain ⟨next, later, hnext⟩ : ∃ next later, pieces width (text.drop width) = next :: later :=
        ⟨_, _, pieces_of_ne_nil hwidth hmore⟩
      rw [hnext] at ih ⊢
      rw [List.dropLast_cons_cons, List.getLast?_cons_cons, List.forall_mem_cons, List.length_take]
      exact ⟨⟨by omega, ih.1⟩, ih.2⟩

/-! ### Folding symbol by symbol -/

/-- The rest of a folded text behind some symbols of a line. A line is ended when another symbol
follows that does not fit in it, or none. -/
def foldFrom (width column : Nat) : Bytes → Bytes
  | [] => if column = 0 then [] else [Bytes.newline]
  | b :: rest =>
    if column = width then Bytes.newline :: b :: foldFrom width 1 rest
    else b :: foldFrom width (column + 1) rest

/-- A line that is full is ended, whatever follows. -/
theorem foldFrom_full (hwidth : 0 < width) (text : Bytes) :
    foldFrom width width text = Bytes.newline :: foldFrom width 0 text := by
  cases text with
  | nil => rw [foldFrom, foldFrom, if_neg hwidth.ne', if_pos rfl]
  | cons b text => rw [foldFrom, foldFrom, if_pos rfl, if_neg hwidth.ne]

/-- What fits on a line is not folded. -/
theorem foldFrom_append {first : Bytes} (rest : Bytes) : ∀ {column : Nat},
    column + first.length ≤ width → foldFrom width column (first ++ rest) =
      first ++ foldFrom width (column + first.length) rest := by
  induction first with
  | nil => exact fun _ => rfl
  | cons b first ih =>
    intro column hfit
    rw [List.length_cons] at hfit ⊢
    rw [List.cons_append, foldFrom, if_neg (by omega), ih (by omega), List.cons_append,
      show column + 1 + first.length = column + (first.length + 1) by omega]

/-- Symbol by symbol, the pieces of a text are put on lines. -/
theorem flatMap_pieces (hwidth : 0 < width) (text : Bytes) :
    (pieces width text).flatMap (· ++ [Bytes.newline]) = foldFrom width 0 text := by
  fun_induction pieces width text with
  | case1 text h => rw [h.resolve_right hwidth.ne']; rfl
  | case2 text h ih =>
    have htext : 0 < text.length := List.length_pos_iff.mpr fun hnil => h (Or.inl hnil)
    have hsplit : foldFrom width 0 text =
        text.take width ++ foldFrom width (text.take width).length (text.drop width) := by
      have hfit : 0 + (text.take width).length ≤ width := by
        rw [List.length_take]
        omega
      conv_lhs => rw [← List.take_append_drop width text]
      rw [foldFrom_append _ hfit, Nat.zero_add]
    rw [List.flatMap_cons, ih, hsplit, List.append_assoc, List.append_cancel_left_eq,
      List.singleton_append, List.length_take]
    by_cases hlength : width ≤ text.length
    · rw [Nat.min_eq_left hlength, foldFrom_full hwidth]
    · -- The text ends in the middle of the line.
      rw [Nat.min_eq_right (by omega), List.drop_eq_nil_of_le (by omega), foldFrom, foldFrom,
        if_pos rfl, if_neg htext.ne']

/-- A text can be folded symbol by symbol. -/
theorem fold_eq_foldFrom {width : Int} (hwidth : 0 < width) (text : Bytes) :
    fold width text = foldFrom width.toNat 0 text := by
  rw [fold, if_neg (Int.not_le.mpr hwidth), flatMap_pieces (by omega)]

end ProgramText

/-! ### Reading a folded text -/

/-- A fault of a text, where it stands when the text is folded. -/
def ParseFault.folded (width : Nat) : ParseFault → ParseFault
  | .unmatchedClose offset => .unmatchedClose (offset + offset / width)
  | .unmatchedOpen offset => .unmatchedOpen (offset + offset / width)

namespace Source

open ProgramText

variable {width column lines : Nat} {done done' : List Source} {pending pending' : List Pending}

/-- A source tree is done last if it is first in the list of those done. -/
theorem effects_reverse_cons (tree : Source) (done : List Source) :
    effects (tree :: done).reverse = (effects done.reverse).seq tree.effect := by
  rw [List.reverse_cons, effects_append, effects_cons, effects_nil, Effect.seq_skip]

/-- A newline is no bracket. -/
theorem isPlain_newline : IsPlain (.symbol Bytes.newline) :=
  ⟨by decide, by decide⟩

/-- A newline does nothing. -/
theorem effect_newline : effect (.symbol Bytes.newline) = Effect.skip := rfl

/-- Whether an open loop of a folded text is one of the text. -/
structure Pending.Folds (width : Nat) (loop folded : Pending) : Prop where
  offset_eq : folded.offset = loop.offset + loop.offset / width
  effects_eq : effects folded.before.reverse = effects loop.before.reverse

/-- At the end of a text the open loops tell whether there is a fault. -/
theorem matchFrom_nil_folds (hdone : effects done'.reverse = effects done.reverse)
    (hpending : List.Forall₂ (Pending.Folds width) pending pending') (offset offset' : Nat) :
    (matchFrom offset' done' pending' []).map effects =
      ((matchFrom offset done pending []).map effects).mapError (ParseFault.folded width) := by
  cases hpending with
  | nil => exact congrArg Except.ok hdone
  | cons hinner _ => exact congrArg (Except.error ∘ ParseFault.unmatchedOpen) hinner.offset_eq

/-- Matching a folded text matches the text, with `lines` newlines behind it. -/
theorem matchFrom_foldFrom (hwidth : 0 < width) (text : Bytes) :
    ∀ {column lines : Nat} {done done' : List Source} {pending pending' : List Pending},
      column ≤ width → effects done'.reverse = effects done.reverse →
      List.Forall₂ (Pending.Folds width) pending pending' →
        (matchFrom (width * lines + column + lines) done' pending'
            (foldFrom width column text)).map effects =
          ((matchFrom (width * lines + column) done pending text).map effects).mapError
            (ParseFault.folded width) := by
  induction text with
  | nil =>
    intro column lines done done' pending pending' _ hdone hpending
    rw [foldFrom]
    split
    · exact matchFrom_nil_folds hdone hpending _ _
    · rw [matchFrom_symbol _ _ _ _ isPlain_newline]
      refine matchFrom_nil_folds ?_ hpending _ _
      rw [effects_reverse_cons, effect_newline, Effect.seq_skip, hdone]
  | cons b text ih =>
    -- A symbol that stands in the line moves behind as many newlines as there are full lines.
    have hsymbol {column lines : Nat} {done done' : List Source} {pending pending' : List Pending}
        (hcolumn : column < width) (hdone : effects done'.reverse = effects done.reverse)
        (hpending : List.Forall₂ (Pending.Folds width) pending pending') :
        (matchFrom (width * lines + column + lines) done' pending'
            (b :: foldFrom width (column + 1) text)).map effects =
          ((matchFrom (width * lines + column) done pending (b :: text)).map effects).mapError
            (ParseFault.folded width) := by
      have hoffset : (width * lines + column) / width = lines := by
        rw [Nat.mul_add_div hwidth, Nat.div_eq_of_lt hcolumn, Nat.add_zero]
      have hnext : width * lines + column + lines + 1 = width * lines + (column + 1) + lines := by
        omega
      obtain rfl | rfl | hplain := bracket_or_plain b
      · rw [matchFrom_open, matchFrom_open, hnext]
        refine ih hcolumn rfl (.cons ⟨?_, hdone⟩ hpending)
        rw [hoffset]
      · cases hpending with
        | nil =>
          have hfault : ParseFault.folded width (.unmatchedClose (width * lines + column)) =
              .unmatchedClose (width * lines + column + lines) := by
            rw [ParseFault.folded, hoffset]
          exact (congrArg Except.error hfault).symm
        | cons hinner houter =>
          rw [matchFrom_close, matchFrom_close, hnext]
          refine ih hcolumn ?_ houter
          rw [effects_reverse_cons, effects_reverse_cons, effect_loop, effect_loop,
            hinner.effects_eq, hdone]
      · rw [matchFrom_symbol _ _ _ _ hplain, matchFrom_symbol _ _ _ _ hplain, hnext]
        refine ih hcolumn ?_ hpending
        rw [effects_reverse_cons, effects_reverse_cons, hdone]
    intro column lines done done' pending pending' hcolumn hdone hpending
    rw [foldFrom]
    split
    · next hfull =>
      have hline : width * lines + column + lines + 1 = width * (lines + 1) + 0 + (lines + 1) := by
        rw [Nat.mul_succ, hfull]
        omega
      have hstart : width * lines + column = width * (lines + 1) + 0 := by
        rw [Nat.mul_succ, hfull, Nat.add_zero]
      rw [matchFrom_symbol _ _ _ _ isPlain_newline, hline, hstart]
      refine hsymbol hwidth ?_ hpending
      rw [effects_reverse_cons, effect_newline, Effect.seq_skip, hdone]
    · next hfull => exact hsymbol (lt_of_le_of_ne hcolumn hfull) hdone hpending

/-- The source trees of a folded text do what those of the text do. -/
theorem ofText_fold {width : Int} (hwidth : 0 < width) (text : Bytes) :
    (ofText (fold width text)).map effects =
      ((ofText text).map effects).mapError (ParseFault.folded width.toNat) := by
  rw [fold_eq_foldFrom hwidth]
  exact @matchFrom_foldFrom width.toNat (by omega) text 0 0 [] [] [] [] (Nat.zero_le _) rfl .nil

/-- A text and its folded form both have source trees, with the same effect, or both have none. -/
theorem ofText_fold_cases {width : Int} (hwidth : 0 < width) (text : Bytes) :
    (∃ trees trees', ofText text = .ok trees ∧ ofText (fold width text) = .ok trees' ∧
        effects trees' = effects trees) ∨
      ∃ fault, ofText text = .error fault ∧
        ofText (fold width text) = .error (fault.folded width.toNat) := by
  have hfold := ofText_fold hwidth text
  cases htext : ofText text with
  | ok trees =>
    cases hfolded : ofText (fold width text) with
    | ok trees' =>
      rw [htext, hfolded] at hfold
      exact Or.inl ⟨trees, trees', rfl, rfl, Except.ok.inj hfold⟩
    | error fault' =>
      rw [htext, hfolded] at hfold
      cases hfold
  | error fault =>
    cases hfolded : ofText (fold width text) with
    | ok trees' =>
      rw [htext, hfolded] at hfold
      cases hfold
    | error fault' =>
      rw [htext, hfolded] at hfold
      exact Or.inr ⟨fault, rfl, congrArg Except.error (Except.error.inj hfold)⟩

end Source

/-! ### Runs of a folded text -/

namespace Runner

variable {r : Runner} {sink : Nat} {memory : Memory} {program : Program} {e : Ending}

/-- Whether a run reports an ending on the tape: it has succeeded, tells whether the input has
ended, and leaves the machine as it is there. -/
def Concludes (sink : Nat) (answer : Except RunFault Unit × Runner) : Ending → Prop
  | .done s => answer.1 = .ok () ∧ answer.2.halted = false ∧ answer.2.machine.view sink = s
  | .outOfInput s => answer.1 = .ok () ∧ answer.2.halted = true ∧ answer.2.machine.view sink = s
  | .offTape => False

/-- Whether a run reports that there is no memory left, which takes bounded memory. -/
def Exhausts (memory : Memory) (answer : Except RunFault Unit × Runner) : Prop :=
  memory = .addressable ∧ ∃ fault, answer.1 = .error (.stopped (.memory fault))

/-- Whether loading a text and running it leads to an ending, unless it exhausts the memory. -/
def LeadsTo (r : Runner) (sink : Nat) (memory : Memory) (text : Bytes) (e : Ending) : Prop :=
  ∃ fuel, Concludes sink ((r.load text).2.run fuel .endless) e ∨
    Exhausts memory ((r.load text).2.run fuel .endless)

/-- A run reports the ending that its program comes to. -/
theorem run_concludes (h : r.machine.Unhindered sink memory) (hprogram : r.program = some program)
    {fuel : Nat} (hne : e ≠ .offTape)
    (he : (Machine.exec .endless fuel program (start r.machine)).ending sink = some e) :
    Concludes sink (r.run fuel .endless) e := by
  have hleaves := (unhindered_start h).leaves fuel program
  cases e with
  | done s =>
    obtain ⟨m, hexec, hview⟩ := Outcome.ending_eq_done_iff.mp he
    rw [hexec] at hleaves
    have hrun : r.run fuel .endless = (.ok (), { r with machine := m, halted := false }) := by
      simp [Runner.run, hprogram, hexec, Machine.Unhindered.flush hleaves]
    rw [hrun]
    exact ⟨rfl, rfl, hview⟩
  | outOfInput s =>
    obtain ⟨m, hexec, hview⟩ := Outcome.ending_eq_outOfInput_iff.mp he
    rw [hexec] at hleaves
    obtain ⟨-, htrace⟩ := Machine.Unhindered.trace hleaves (.halted (.input .endOfFile))
    -- Nothing is left to flush, so that halting only traces the event.
    have hhalt : halt m (.input .endOfFile) = m.trace (.halted (.input .endOfFile)) := by
      simp [halt, Stop.isCrash, Machine.Unhindered.flush hleaves]
    have hrun : r.run fuel .endless =
        (.ok (), { r with machine := halt m (.input .endOfFile), halted := true }) := by
      simp [Runner.run, hprogram, hexec, Stop.isEndOfInput]
    rw [hrun, hhalt]
    exact ⟨rfl, rfl, htrace.trans hview⟩
  | offTape => exact absurd rfl hne

/-- The run of a runner exhausts the memory as its machine does. -/
theorem run_exhausts (hprogram : r.program = some program) {fuel : Nat}
    (h : (Machine.exec .endless fuel program (start r.machine)).Exhausts memory) :
    Exhausts memory (r.run fuel .endless) := by
  obtain ⟨hmemory, fault, m, hexec⟩ := h
  refine ⟨hmemory, fault, ?_⟩
  simp [Runner.run, hprogram, hexec, Stop.isEndOfInput]

/-- A text that can be parsed ends as its source trees do. -/
theorem leadsTo_of_effects {text input : Bytes} {trees : List Source}
    (hm : r.machine.Ready sink memory input) (htrees : Source.ofText text = .ok trees)
    (hne : e ≠ .offTape) (he : Source.effects trees (.fresh input) e) :
    r.LeadsTo sink memory text e := by
  have hparse : Program.parse text = .ok (Source.condense trees) := by
    rw [Program.parse, htrees]
    rfl
  obtain ⟨hprogram, hloaded, -, hview⟩ := load_of_parse hm.unhindered hparse
  -- A run starts on an empty tape, whatever the runner did before.
  have hfresh : (start (r.load text).2.machine).view sink = .fresh input := by
    rw [hview, view_start]
    have hinput : r.machine.input.pending = input := congrArg Snapshot.input hm.view_eq
    have houtput : r.machine.sinks.received sink = [] := congrArg Snapshot.output hm.view_eq
    rw [hinput, houtput]
    rfl
  have hcondensed : Program.effect (Source.condense trees)
      ((start (r.load text).2.machine).view sink) e := by
    rw [hfresh]
    exact Source.effects_refines_condense trees onTape_zero hne he
  obtain ⟨fuel, hfuel⟩ := Machine.exec_of_effect _ (unhindered_start hloaded) hcondensed
  exact ⟨fuel, hfuel.imp (run_concludes hloaded hprogram hne) (run_exhausts hprogram)⟩

/-- A text that cannot be parsed leaves nothing to run. -/
theorem run_load_of_fault {text : Bytes} {fault : ParseFault}
    (h : Source.ofText text = .error fault) :
    (r.load text).1 = .error fault ∧ ∀ fuel,
      (r.load text).2.run fuel .endless = (.error .noProgram, { r with program := none }) := by
  have hparse : Program.parse text = .error fault := by
    rw [Program.parse, h]
    rfl
  simp [Runner.load, hparse, Runner.run]

end Runner

/-- `ProgramText.fold width text` consists of lines that make up the `text`, all of the `width` but
the last one, which may be shorter. A runner `r` can load the `text` exactly if it can load the
folded text, where a bracket without a partner is found behind the newlines in front of it. If the
`SymbolMachine` comes to an ending `e` of the `text` on the tape, then runs of both texts report
`e`; only bounded `memory` can keep them from that. After a load that failed there is nothing to run
in either case. -/
theorem Runner.leadsTo_fold (text : Bytes) {width : Int} (hwidth : 0 < width) :
    (∃ pieces : List Bytes, ProgramText.fold width text = pieces.flatMap (· ++ [Bytes.newline]) ∧
      pieces.flatten = text ∧ (∀ piece ∈ pieces.dropLast, piece.length = width) ∧
      ∀ piece ∈ pieces.getLast?, 1 ≤ piece.length ∧ piece.length ≤ width) ∧
    ∀ r : Runner,
      (r.load (ProgramText.fold width text)).1 =
        (r.load text).1.mapError (ParseFault.folded width.toNat) ∧
      ((r.load text).1 = .ok () → ∀ sink memory input e, r.machine.Ready sink memory input →
        SymbolMachine.Ends text input e → e ≠ .offTape →
          r.LeadsTo sink memory text e ∧ r.LeadsTo sink memory (ProgramText.fold width text) e) ∧
      ((r.load text).1 ≠ .ok () → ∀ fuel,
        (r.load (ProgramText.fold width text)).2.run fuel .endless =
          (r.load text).2.run fuel .endless) := by
  have hwidth' : 0 < width.toNat := by omega
  obtain ⟨hfull, hlast⟩ := ProgramText.length_pieces hwidth' text
  refine ⟨⟨ProgramText.pieces width.toNat text, ?_, ?_, ?_, ?_⟩, fun r => ?_⟩
  · rw [ProgramText.fold, if_neg (Int.not_le.mpr hwidth)]
  · exact ProgramText.flatten_pieces hwidth' text
  · intro piece hmem
    have hlength := hfull piece hmem
    omega
  · intro piece hmem
    have hlength := hlast piece hmem
    omega
  obtain ⟨trees, trees', htrees, htrees', heffects⟩ | ⟨fault, hfault, hfault'⟩ :=
    Source.ofText_fold_cases hwidth text
  · have hload {text : Bytes} {trees : List Source} (h : Source.ofText text = .ok trees) :
        (r.load text).1 = .ok () := by
      simp [Runner.load, Program.parse, h, Except.map]
    refine ⟨by rw [hload htrees, hload htrees']; rfl, ?_, fun hne => absurd (hload htrees) hne⟩
    intro _ sink memory input e hm hends hne
    -- Both texts have the same effects, so one ending of the symbols serves both runs.
    have he := SymbolMachine.effects_of_ends htrees hends
    exact ⟨Runner.leadsTo_of_effects hm htrees hne he,
      Runner.leadsTo_of_effects hm htrees' hne (heffects ▸ he)⟩
  · obtain ⟨hload, hrun⟩ := @Runner.run_load_of_fault r _ _ hfault
    obtain ⟨hload', hrun'⟩ := @Runner.run_load_of_fault r _ _ hfault'
    refine ⟨by rw [hload, hload']; rfl, fun hok => ?_, fun _ fuel => by rw [hrun, hrun']⟩
    rw [hload] at hok
    cases hok

/-- A newline in the middle of a loop keeps it from being read as a clearing of the cell. -/
theorem Runner.leadsTo_fold_clearing :
    let r : Runner := { Runner.fresh [] with machine := Machine.forInput .endless (utf8 "x") }
    ProgramText.fold 3 (utf8 "++[-]>,.") = utf8 "++[\n-]>\n,.\n" ∧
      ∃ s, s.output = utf8 "x" ∧ r.LeadsTo 0 .endless (utf8 "++[-]>,.") (.done s) ∧
        r.LeadsTo 0 .endless (utf8 "++[\n-]>\n,.\n") (.done s) := by
  have hfold : ProgramText.fold 3 (utf8 "++[-]>,.") = utf8 "++[\n-]>\n,.\n" := by
    decide +kernel
  intro r
  have hm : r.machine.Ready 0 .endless (utf8 "x") := Machine.ready_forInput .endless (utf8 "x")
  obtain ⟨-, hruns⟩ := Runner.leadsTo_fold (utf8 "++[-]>,.") (show (0 : Int) < 3 by decide)
  obtain ⟨-, hends, -⟩ := hruns r
  refine ⟨hfold, _, ?_, hfold ▸ hends (by decide +kernel) 0 .endless _ _ hm ⟨20, rfl⟩ (by simp)⟩
  rfl

end TapeMachine
