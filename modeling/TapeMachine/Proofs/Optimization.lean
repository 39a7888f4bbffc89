import Mathlib.Data.List.TakeWhile
import TapeMachine.Program.Text
import TapeMachine.Proofs.MoveCancellation

/-!
# Optimizing a text keeps what it writes

Moves that cancel can be left out of a text, and so can symbols at its end that write nothing. The
runs of an optimized text therefore end where those of the text do, with the same output, though not
in the same way: a text that reads at its end may run out of input there.

The module introduces:

* `Ending.output`: what has been written at an ending;
* `Source.exists_ofText_cancelMoves`: cancelling moves loses no ending;
* `Source.exists_ofText_trimIdle`: trimming loses no output;
* `Runner.run_eq_ok_iff`: a run succeeds exactly if it has an ending on the tape;
* `Runner.run_load_optimize`: an optimized text has runs with the same output.
-/

namespace TapeMachine

/-- What has been written at an ending, if the cursor is on the tape. -/
def Ending.output : Ending → Option Bytes
  | .done s => some s.output
  | .outOfInput s => some s.output
  | .offTape => none

/-! ### Cancelling moves -/

namespace Source

open ProgramText

/-- Cancelling moves loses no ending. -/
theorem exists_ofText_cancelMoves {text : Bytes} {trees : List Source}
    (h : ofText text = .ok trees) :
    ∃ trees', ofText (cancelMoves text) = .ok trees' ∧
      ∀ ok, Program.effectWithin ok (condense trees) ≤
        Program.effectWithin ok (condense trees') := by
  refine @cancelMoves_induction (fun t => ∃ trees', ofText t = .ok trees' ∧
    ∀ ok, Program.effectWithin ok (condense trees) ≤ Program.effectWithin ok (condense trees'))
    ?_ text ⟨trees, h, fun _ => le_rfl⟩
  rintro before a b behind hab ⟨trees₁, htrees₁, hle₁⟩
  obtain ⟨hplain, htext⟩ := ofText_eq_ok_iff.mp htrees₁
  obtain ⟨trees₂, hdrop, hplain₂, htext₂⟩ := exists_dropsPair hab trees₁ hplain htext
  exact ⟨trees₂, ofText_eq_ok_iff.mpr ⟨hplain₂, htext₂⟩,
    fun ok => (hle₁ ok).trans (hdrop.effectWithin_le .none)⟩

end Source

/-! ### Trimming -/

namespace ProgramText

/-- A text is what trimming leaves of it, not ending with an idle symbol, and idle symbols. -/
theorem exists_trimIdle_append (text : Bytes) : ∃ idle : Bytes, text = trimIdle text ++ idle ∧
    (∀ b ∈ idle, isIdleAtEnd b = true) ∧
      ∀ b, (trimIdle text).getLast? = some b → isIdleAtEnd b = false := by
  refine ⟨(text.reverse.takeWhile isIdleAtEnd).reverse, ?_, fun b hb => ?_, fun b hb => ?_⟩
  · rw [trimIdle, ← List.reverse_append, List.takeWhile_append_dropWhile, List.reverse_reverse]
  · exact List.mem_takeWhile_imp (List.mem_reverse.mp hb)
  · rw [trimIdle, List.getLast?_reverse] at hb
    have hhead := List.head?_dropWhile_not isIdleAtEnd text.reverse
    rw [hb] at hhead
    exact hhead

theorem isIdleAtEnd_iff {b : UInt8} : isIdleAtEnd b = true ↔
    b = byte '-' ∨ b = byte '+' ∨ b = byte '<' ∨ b = byte '>' ∨ b = byte ',' := by
  simp [isIdleAtEnd, or_assoc]

/-- Symbols that are idle at the end are no brackets. -/
theorem isPlain_of_isIdleAtEnd {b : UInt8} (h : isIdleAtEnd b = true) :
    Source.IsPlain (.symbol b) := by
  rw [Source.isPlain_symbol]
  obtain rfl | rfl | rfl | rfl | rfl := isIdleAtEnd_iff.mp h <;> decide

/-- A symbol that is not idle at the end of a text ends a run. -/
theorem symbol_of_not_isIdleAtEnd {b : UInt8} (h : isIdleAtEnd b = false) (run : Run) :
    (run.symbol b []).2 = .none := by
  have hidle : ∀ c : Char, isIdleAtEnd (byte c) = true → Bytes.char b ≠ c := by
    rintro c hc rfl
    rw [byte_char, h] at hc
    cases hc
  unfold Run.symbol
  split
  · next hchar => exact absurd hchar (hidle _ (by decide))
  · next hchar => exact absurd hchar (hidle _ (by decide))
  · next hchar => exact absurd hchar (hidle _ (by decide))
  · next hchar => exact absurd hchar (hidle _ (by decide))
  all_goals rfl

end ProgramText

/-- Whether a node neither writes nor repeats anything. -/
def Node.IsSilent (node : Node) : Prop :=
  node.op = .add ∨ node.op = .move ∨ node.op = .read

namespace Source

open ProgramText

/-- The node of a run is silent. -/
theorem isSilent_of_mem_finish {run : Run} {node : Node} (h : node ∈ run.finish []) :
    node.IsSilent := by
  cases run with
  | none => cases h
  | adding amount =>
    rw [Run.finish] at h
    split at h
    · cases h
    · cases List.mem_singleton.mp h
      exact Or.inl rfl
  | moving amount =>
    rw [Run.finish] at h
    split at h
    · cases h
    · cases List.mem_singleton.mp h
      exact Or.inr (Or.inl rfl)

/-- What an idle symbol finishes is silent. -/
theorem isSilent_of_mem_symbol {b : UInt8} (h : isIdleAtEnd b = true) {run : Run} {node : Node}
    (hnode : node ∈ (run.symbol b []).1) : node.IsSilent := by
  -- A symbol ends a run of the other kind, which is silent itself.
  have hadd : ∀ amount, node ∈ (run.add amount []).1 → node.IsSilent := by
    intro amount hnode
    cases run with
    | adding sofar => cases hnode
    | none => cases hnode
    | moving sofar => exact @isSilent_of_mem_finish (.moving sofar) node hnode
  have hmove : ∀ amount, node ∈ (run.move amount []).1 → node.IsSilent := by
    intro amount hnode
    cases run with
    | moving sofar => cases hnode
    | none => cases hnode
    | adding sofar => exact @isSilent_of_mem_finish (.adding sofar) node hnode
  obtain rfl | rfl | rfl | rfl | rfl := isIdleAtEnd_iff.mp h
  · exact hadd (-1) hnode
  · exact hadd 1 hnode
  · exact hmove (-1) hnode
  · exact hmove 1 hnode
  · obtain rfl | hnode := List.mem_cons.mp hnode
    · exact Or.inr (Or.inr rfl)
    · exact isSilent_of_mem_finish hnode

/-- Idle symbols condense to silent nodes. -/
theorem isSilent_of_mem_condenseFrom {idle : Bytes} (hidle : ∀ b ∈ idle, isIdleAtEnd b = true) :
    ∀ {run : Run}, ∀ node ∈ condenseFrom [] run (idle.map .symbol), node.IsSilent := by
  induction idle with
  | nil =>
    intro run node hnode
    rw [List.map_nil, condenseFrom_nil] at hnode
    exact isSilent_of_mem_finish hnode
  | cons b rest ih =>
    intro run node hnode
    rw [List.map_cons, condenseFrom_symbol, List.mem_append, List.mem_reverse] at hnode
    obtain hnode | hnode := hnode
    · exact isSilent_of_mem_symbol (hidle b (by simp)) hnode
    · exact ih (fun c hc => hidle c (by simp [hc])) node hnode

/-- Behind a tree that ends every run, condensing starts afresh. -/
theorem condense_append {before : List Source} (behind : List Source)
    (hlast : ∀ b, before.getLast? = some (.symbol b) → ∀ run : Run, (run.symbol b []).2 = .none) :
    condense (before ++ behind) = condense before ++ condense behind := by
  -- Any run may be open in front, but none may be left open if there is nothing to finish it.
  have hrun : ∀ run : Run, (before = [] → run = .none) →
      condenseFrom [] run (before ++ behind) =
        condenseFrom [] run before ++ condenseFrom [] .none behind := by
    induction before with
    | nil =>
      intro run hnone
      rw [hnone rfl, condenseFrom_nil]
      rfl
    | cons tree rest ih =>
      intro run _
      have hrest : ∀ b, rest.getLast? = some (.symbol b) → ∀ run : Run,
          (run.symbol b []).2 = .none := by
        intro b hb
        exact hlast b (by simp [List.getLast?_cons, hb])
      cases tree with
      | symbol b =>
        rw [List.cons_append, condenseFrom_symbol, condenseFrom_symbol, ih hrest, List.append_assoc]
        rintro rfl
        exact hlast b rfl run
      | loop body =>
        rw [List.cons_append, condenseFrom_loop, condenseFrom_loop, ih hrest .none fun _ => rfl]
        simp only [List.append_assoc]
  exact hrun .none fun _ => rfl

/-- The symbols of a text, written in a row, are the text. -/
theorem texts_map_symbol (text : Bytes) : texts (text.map .symbol) = text := by
  induction text with
  | nil => rfl
  | cons b rest ih => simp [ih]

/-- The symbols of a text without brackets are plain. -/
theorem arePlain_map_symbol {text : Bytes} (h : ∀ b ∈ text, IsPlain (.symbol b)) :
    ArePlain (text.map .symbol) := by
  induction text with
  | nil => trivial
  | cons b rest ih => exact ⟨h b (by simp), ih fun c hc => h c (by simp [hc])⟩

end Source

/-- A silent `node` writes nothing. -/
theorem Node.output_of_isSilent {node : Node} (hsilent : node.IsSilent) {s : Snapshot} {e : Ending}
    {bytes : Bytes} (h : node.effect s e) (hbytes : e.output = some bytes) : s.output = bytes := by
  obtain ⟨op, amount, body⟩ := node
  obtain rfl | rfl | rfl : op = .add ∨ op = .move ∨ op = .read := hsilent
  · rw [Node.effect_add] at h
    cases h
    exact Option.some.inj hbytes
  · rw [Node.effect_move, Effect.of_iff, Snapshot.move] at h
    split at h
    · cases h
      exact Option.some.inj hbytes
    · cases h
      cases hbytes
  · rw [Node.effect_read, Effect.of_iff, Snapshot.read] at h
    split at h <;> cases h <;> exact Option.some.inj hbytes

/-- Silent nodes write nothing. -/
theorem Program.output_of_isSilent {nodes : List Node} (hsilent : ∀ node ∈ nodes, node.IsSilent) :
    ∀ {s : Snapshot} {e : Ending} {bytes : Bytes}, Program.effect nodes s e →
      e.output = some bytes → s.output = bytes := by
  induction nodes with
  | nil =>
    intro s e bytes h hbytes
    cases h
    exact Option.some.inj hbytes
  | cons node rest ih =>
    intro s e bytes h hbytes
    have hnode : node.IsSilent := hsilent node List.mem_cons_self
    rcases h with ⟨t, ht, he⟩ | ⟨he, -⟩
    · have hrest := ih (fun n hn => hsilent n (by simp [hn])) he hbytes
      exact (Node.output_of_isSilent hnode ht rfl).trans hrest
    · exact Node.output_of_isSilent hnode he hbytes

namespace Source

open ProgramText

/-- Trimming loses no output. -/
theorem exists_ofText_trimIdle {text : Bytes} {trees : List Source} (h : ofText text = .ok trees) :
    ∃ trees', ofText (trimIdle text) = .ok trees' ∧ ∀ {ok s e bytes},
      Program.effectWithin ok (condense trees) s e → e.output = some bytes →
        ∃ e', Program.effectWithin ok (condense trees') s e' ∧ e'.output = some bytes := by
  obtain ⟨idle, htext, hidle, hlast⟩ := exists_trimIdle_append text
  generalize trimIdle text = kept at htext hlast ⊢
  have hplain : ∀ b ∈ idle, IsPlain (.symbol b) := fun b hb => isPlain_of_isIdleAtEnd (hidle b hb)
  -- The symbols left out are no brackets, so what is left can be parsed.
  obtain ⟨trees', htrees'⟩ : ∃ trees', ofText kept = .ok trees' := by
    rw [exists_ofText_iff]
    have hbalanced : text.IsBalanced := exists_ofText_iff.mp ⟨trees, h⟩
    have hsame := Bytes.balancedFrom_append hplain kept [] 0
    rw [List.append_nil, List.append_nil, ← htext] at hsame
    exact hsame.symm.trans hbalanced
  obtain ⟨hplain', rfl⟩ := ofText_eq_ok_iff.mp htrees'
  obtain rfl : trees = trees' ++ idle.map .symbol := by
    have hwhole : ofText text = .ok (trees' ++ idle.map .symbol) := by
      rw [ofText_eq_ok_iff, texts_append, texts_map_symbol]
      exact ⟨arePlain_append.mpr ⟨hplain', arePlain_map_symbol hplain⟩, htext.symm⟩
    exact Except.ok.inj (h.symm.trans hwhole)
  refine ⟨trees', htrees', fun {ok s e bytes} he hbytes => ?_⟩
  have hcondense : condense (trees' ++ idle.map .symbol) =
      condense trees' ++ condense (idle.map .symbol) := by
    refine condense_append _ fun b hb => symbol_of_not_isIdleAtEnd (hlast b ?_)
    obtain ⟨before, rfl⟩ := List.getLast?_eq_some_iff.mp hb
    simp
  rw [hcondense, Program.effectWithin_append] at he
  rcases he with ⟨t, ht, he⟩ | ⟨he, -⟩
  · have hsilent := Program.output_of_isSilent (isSilent_of_mem_condenseFrom hidle)
      (Program.effectWithin_le _ _ _ he) hbytes
    exact ⟨.done t, ht, congrArg some hsilent⟩
  · exact ⟨e, he, hbytes⟩

/-- Optimizing loses no output. -/
theorem exists_ofText_optimize {text : Bytes} {trees : List Source} (h : ofText text = .ok trees) :
    ∃ trees', ofText (optimize text) = .ok trees' ∧ ∀ {ok s e bytes},
      Program.effectWithin ok (condense trees) s e → e.output = some bytes →
        ∃ e', Program.effectWithin ok (condense trees') s e' ∧ e'.output = some bytes := by
  obtain ⟨trees₁, htrees₁, hle⟩ := exists_ofText_cancelMoves h
  obtain ⟨trees₂, htrees₂, htrim⟩ := exists_ofText_trimIdle htrees₁
  exact ⟨trees₂, htrees₂, fun he hbytes => htrim (hle _ _ _ he) hbytes⟩

end Source

/-- Optimizing keeps the balance of a text. -/
theorem ProgramText.isBalanced_optimize (text : Bytes) :
    (optimize text).IsBalanced ↔ text.IsBalanced := by
  have hcancel : Bytes.balancedFrom 0 (cancelMoves text) = Bytes.balancedFrom 0 text := by
    refine @cancelMoves_induction (fun t => Bytes.balancedFrom 0 t = Bytes.balancedFrom 0 text)
      (fun before a b behind hab h => ?_) text rfl
    have hplain : ∀ c ∈ [a, b], Source.IsPlain (.symbol c) := by
      simpa using Source.isPlain_of_cancels hab
    rw [← h, ← Bytes.balancedFrom_append hplain before behind 0, List.append_assoc]
    rfl
  obtain ⟨idle, htext, hidle, -⟩ := exists_trimIdle_append (cancelMoves text)
  have htrim := Bytes.balancedFrom_append (fun b hb => isPlain_of_isIdleAtEnd (hidle b hb))
    (trimIdle (cancelMoves text)) [] 0
  rw [List.append_nil, List.append_nil, ← htext, hcancel] at htrim
  rw [Bytes.IsBalanced, Bytes.IsBalanced, htrim, optimize]

/-! ### Runs -/

/-- There is nothing to flush where bytes go to their sinks at once. -/
theorem Output.flush_of_avoids {sink : Nat} {sinks : Sinks} {output : Output}
    (h : output.Avoids sink sinks) : output.flush sinks = (none, output, sinks) := by
  induction output with
  | nil => rfl
  | cons channel rest ih =>
    obtain ⟨i, rfl, -⟩ := h channel (by simp)
    simp [Output.flush, Channel.flush, ih fun c hc => h c (by simp [hc])]

section Runs

variable {m : Machine} {sink : Nat} {memory : Memory}

/-- There is nothing to flush to a sink that is written directly. -/
theorem Machine.Unhindered.flush (h : m.Unhindered sink memory) : m.flush = (none, m) := by
  have houtput : Output.flush m.output m.sinks = (none, m.output, m.sinks) := by
    simp [h.output, Output.flush, Channel.flush]
  simp [Machine.flush, houtput, Output.flush_of_avoids h.dump]

namespace Runner

/-- Nothing hinders a machine at the start of a run. -/
theorem unhindered_start (h : m.Unhindered sink memory) : (start m).Unhindered sink memory :=
  ⟨h.limit, h.memory_eq, h.output, h.exists_sink, h.room, h.dump, h.logger, h.input⟩

/-- At the start of a run there is memory for the same cells as before. -/
theorem housed_start (m : Machine) : (start m).Housed fun pos => m.tape.Affords pos.toNat :=
  ⟨m.tape.isHoused_reset, Nat.zero_le _, fun _ => Iff.rfl⟩

/-- A run starts at the first cell, with all cells zero. -/
theorem view_start (m : Machine) : (start m).view sink =
    ⟨0, fun _ => 0, m.input.pending, m.sinks.received sink⟩ := by
  refine Snapshot.ext rfl ?_ rfl rfl
  funext pos
  simp [Machine.view, start]

/-- A stop that is an ending, but not the end of the input, has left the tape. -/
private theorem output_eq_none_of_stop {cause : Stop} {m : Machine} {e : Ending}
    (hcause : cause ≠ .input .endOfFile) (he : Machine.endingOf sink (.stop cause m) = some e) :
    e.output = none := by
  cases cause with
  | underflow cursor amount =>
    cases he
    rfl
  | input fault =>
    cases fault with
    | endOfFile => exact absurd rfl hcause
    | _ => cases he
  | _ => cases he

/-- A run succeeds exactly if it has an ending on the tape, and then its output is the one there. -/
theorem run_eq_ok_iff {r : Runner} {program : Program} (h : r.machine.Unhindered sink memory)
    (hprogram : r.program = some program) (fuel : Nat) (bytes : Bytes) :
    ((r.run fuel .endless).1 = .ok () ∧
        (r.run fuel .endless).2.machine.sinks.received sink = bytes) ↔
      ∃ e, (Machine.exec .endless fuel program (start r.machine)).ending sink = some e ∧
        e.output = some bytes := by
  have hleaves := (unhindered_start h).leaves fuel program
  cases hexec : Machine.exec .endless fuel program (start r.machine) with
  | finished m =>
    rw [hexec] at hleaves
    have hrun : r.run fuel .endless = (.ok (), { r with machine := m, halted := false }) := by
      simp [Runner.run, hprogram, hexec, Machine.Unhindered.flush hleaves]
    simp [hrun, Outcome.ending, Ending.output, Machine.view]
  | stopped cause m =>
    rw [hexec] at hleaves
    by_cases hcause : cause = .input .endOfFile
    · subst hcause
      obtain ⟨-, hview⟩ := Machine.Unhindered.trace hleaves (.halted (.input .endOfFile))
      have hhalt : halt m (.input .endOfFile) = m.trace (.halted (.input .endOfFile)) := by
        simp [halt, Stop.isCrash, Machine.Unhindered.flush hleaves]
      have hreceived :
          (halt m (.input .endOfFile)).sinks.received sink = m.sinks.received sink := by
        rw [hhalt]
        exact congrArg Snapshot.output hview
      have hrun : r.run fuel .endless =
          (.ok (), { r with machine := halt m (.input .endOfFile), halted := true }) := by
        simp [Runner.run, hprogram, hexec, Stop.isEndOfInput]
      simp [hrun, hreceived, Outcome.ending, Machine.endingOf, Ending.output, Machine.view]
    · -- Any other stop is a failure: an output did not fail, so only the cursor can have an ending.
      have hrun : (r.run fuel .endless).1 ≠ .ok () := by
        have hend : cause.isEndOfInput = false := by
          unfold Stop.isEndOfInput
          split
          · exact absurd rfl hcause
          · exact hleaves.elim
          · rfl
        simp [Runner.run, hprogram, hexec, hend]
      refine iff_of_false (fun h => hrun h.1) ?_
      rintro ⟨e, he, hbytes⟩
      cases (output_eq_none_of_stop hcause he).symm.trans hbytes
  | unfinished m =>
    have hrun : (r.run fuel .endless).1 ≠ .ok () := by
      simp [Runner.run, hprogram, hexec]
    simp [hrun, Outcome.ending]

/-- What loading a text that can be parsed leaves: its program, and a machine that cannot be told
from the one before at the start of a run. -/
theorem load_of_parse {r : Runner} {text : Bytes} {program : Program}
    (h : r.machine.Unhindered sink memory) (hparse : Program.parse text = .ok program) :
    (r.load text).2.program = some program ∧
      (r.load text).2.machine.Unhindered sink memory ∧
      (r.load text).2.machine.tape = r.machine.tape ∧
      (start (r.load text).2.machine).view sink = (start r.machine).view sink := by
  obtain ⟨htrace, hview⟩ := h.trace (.loaded program.length text.length)
  have hload : (r.load text).2 = { r with
      program := some program
      listed := false
      machine := r.machine.trace (.loaded program.length text.length) } := by
    simp [Runner.load, hparse]
  have hinput : (r.machine.trace (.loaded program.length text.length)).input.pending =
      r.machine.input.pending := congrArg Snapshot.input hview
  have hreceived : (r.machine.trace (.loaded program.length text.length)).sinks.received sink =
      r.machine.sinks.received sink := congrArg Snapshot.output hview
  rw [hload]
  refine ⟨rfl, htrace, r.machine.trace_tape _, ?_⟩
  rw [view_start, view_start, hinput, hreceived]

/-- Running a text succeeds exactly if its program has an ending on the tape, within the cells that
there is memory for. -/
theorem run_load_iff {r : Runner} {text : Bytes} {trees : List Source} {bytes : Bytes}
    (h : r.machine.Unhindered sink memory) (htrees : Source.ofText text = .ok trees) :
    (∃ fuel, ((r.load text).2.run fuel .endless).1 = .ok () ∧
        ((r.load text).2.run fuel .endless).2.machine.sinks.received sink = bytes) ↔
      ∃ e, Program.effectWithin (fun pos => r.machine.tape.Affords pos.toNat)
          (Source.condense trees) ((start r.machine).view sink) e ∧ e.output = some bytes := by
  have hparse : Program.parse text = .ok (Source.condense trees) := by
    rw [Program.parse, htrees]
    rfl
  obtain ⟨hprogram, hloaded, htape, hview⟩ := load_of_parse h hparse
  have hhoused := housed_start (r.load text).2.machine
  rw [htape] at hhoused
  simp only [run_eq_ok_iff hloaded hprogram, ← hview,
    ← Machine.ending_iff_effectWithin (unhindered_start hloaded) hhoused]
  constructor
  · rintro ⟨fuel, e, he, hbytes⟩
    exact ⟨e, ⟨fuel, he⟩, hbytes⟩
  · rintro ⟨e, ⟨fuel, he⟩, hbytes⟩
    exact ⟨fuel, e, he, hbytes⟩

end Runner

end Runs

/-- `ProgramText.optimize text` can be parsed exactly if the `text` can. On a machine that is
`Unhindered`, if a run of the `text` succeeds then so does one of the optimized text, and the `sink`
has received the same. -/
theorem Runner.run_load_optimize (text : Bytes) :
    ((∃ program, Program.parse (ProgramText.optimize text) = .ok program) ↔
        ∃ program, Program.parse text = .ok program) ∧
      ∀ (r : Runner) (sink : Nat) (memory : Memory) (fuel : Nat),
        r.machine.Unhindered sink memory → ((r.load text).2.run fuel .endless).1 = .ok () →
          ∃ fuel', ((r.load (ProgramText.optimize text)).2.run fuel' .endless).1 = .ok () ∧
            ((r.load (ProgramText.optimize text)).2.run fuel'
                .endless).2.machine.sinks.received sink =
              ((r.load text).2.run fuel .endless).2.machine.sinks.received sink := by
  have hparse : ∀ text, (∃ program, Program.parse text = .ok program) ↔ text.IsBalanced := by
    intro text
    rw [← Source.exists_ofText_iff, Program.parse]
    cases Source.ofText text <;> simp [Except.map]
  refine ⟨by rw [hparse, hparse, ProgramText.isBalanced_optimize], ?_⟩
  intro r sink memory fuel hm hrun
  -- A text without partners for its brackets would not run at all.
  have hbalanced : text.IsBalanced := by
    rw [← hparse]
    cases hload : Program.parse text with
    | ok program => exact ⟨program, rfl⟩
    | error fault => simp [Runner.load, hload, Runner.run] at hrun
  obtain ⟨trees, htrees⟩ := Source.exists_ofText_iff.mpr hbalanced
  obtain ⟨trees', htrees', hoptimize⟩ := Source.exists_ofText_optimize htrees
  obtain ⟨e, he, hbytes⟩ := (Runner.run_load_iff hm htrees).mp ⟨fuel, hrun, rfl⟩
  exact (Runner.run_load_iff hm htrees').mpr (hoptimize he hbytes)

/-- A runner set up to run on an input, with its output kept in memory. -/
def Runner.forInput (input : Bytes) : Runner :=
  { Runner.fresh [] with machine := Machine.forInput .addressable input }

/-- Moves that cancel inside a loop and behind it, and a read at the end that finds no input. -/
theorem Runner.run_load_optimize_doubling :
    ProgramText.optimize (utf8 "++[<>->++<]>.<>,+") = utf8 "++[->++<]>." ∧
      (((Runner.forInput []).load (utf8 "++[<>->++<]>.<>,+")).2.run 100 .endless).1 = .ok () ∧
      ∃ fuel, (((Runner.forInput []).load (utf8 "++[->++<]>.")).2.run fuel .endless).1 = .ok () ∧
        (((Runner.forInput []).load
          (utf8 "++[->++<]>.")).2.run fuel .endless).2.machine.sinks.received 0 = [4] := by
  have hoptimize : ProgramText.optimize (utf8 "++[<>->++<]>.<>,+") = utf8 "++[->++<]>." := by decide
  have hrun : (((Runner.forInput []).load
      (utf8 "++[<>->++<]>.<>,+")).2.run 100 .endless).1 = .ok () := by
    decide +kernel
  have hreceived : (((Runner.forInput []).load
      (utf8 "++[<>->++<]>.<>,+")).2.run 100 .endless).2.machine.sinks.received 0 = [4] := by
    decide +kernel
  have hm : (Runner.forInput []).machine.Unhindered 0 .addressable :=
    (Machine.ready_forInput .addressable []).unhindered
  have h := (Runner.run_load_optimize (utf8 "++[<>->++<]>.<>,+")).2 _ 0 .addressable 100 hm hrun
  rw [hoptimize, hreceived] at h
  exact ⟨hoptimize, hrun, h⟩

end TapeMachine
