import TapeMachine.Proofs.Condensation
import TapeMachine.Proofs.SourceText

/-!
# The symbol machine

The symbol machine runs a program text as it stands, one symbol a step. At a bracket it looks for
the partner of the bracket and jumps past it if the cell under the cursor says so; where there is no
partner it is stuck.

The module introduces:

* `SymbolMachine.step`, `SymbolMachine.run`: one step, and a number of steps;
* `SymbolMachine.Ends`: how a text, run from its start on an input, ends;
* `SymbolMachine.effects_of_ends`: the endings of a text are endings of its source trees;
* `Machine.exec_parse_of_ends`: a balanced text can be parsed, and running the program ends as the
  symbol machine does.
-/

namespace TapeMachine

namespace SymbolMachine

/-- A position in a text. -/
structure Position where
  /-- The symbols behind it, last first. -/
  passed : Bytes
  /-- The symbols ahead of it. -/
  ahead : Bytes

/-- The position past the next closing bracket that has no partner ahead, where `depth` of them are
passed over. -/
def pastClose : Nat → Bytes → Bytes → Option Position
  | _, _, [] => none
  | depth, passed, b :: ahead =>
    if b = byte '[' then pastClose (depth + 1) (b :: passed) ahead
    else if b = byte ']' then
      if depth = 0 then some ⟨b :: passed, ahead⟩ else pastClose (depth - 1) (b :: passed) ahead
    else pastClose depth (b :: passed) ahead

/-- The position past the last opening bracket that has no partner behind it, where `depth` of them
are passed over. -/
def pastOpen : Nat → Bytes → Bytes → Option Position
  | _, [], _ => none
  | depth, b :: passed, ahead =>
    if b = byte ']' then pastOpen (depth + 1) passed (b :: ahead)
    else if b = byte '[' then
      if depth = 0 then some ⟨b :: passed, ahead⟩ else pastOpen (depth - 1) passed (b :: ahead)
    else pastOpen depth passed (b :: ahead)

/-- What a step leads to. -/
inductive Step where
  /-- The run goes on from a position. -/
  | next (pos : Position) (s : Snapshot)
  /-- The run is over. -/
  | over (e : Ending)
  /-- A bracket has no partner to jump to. -/
  | stuck

/-- Jumps to a position, if there is one. -/
def Step.jump (s : Snapshot) : Option Position → Step
  | some pos => .next pos s
  | none => .stuck

/-- Runs the symbol ahead. -/
def step : Position → Snapshot → Step
  | ⟨_, []⟩, s => .over (.done s)
  | ⟨passed, b :: ahead⟩, s =>
    if b = byte '[' then
      if s.here = 0 then .jump s (pastClose 0 (b :: passed) ahead) else .next ⟨b :: passed, ahead⟩ s
    else if b = byte ']' then
      if s.here = 0 then .next ⟨b :: passed, ahead⟩ s else .jump s (pastOpen 0 passed (b :: ahead))
    else match s.symbol b with
      | .done t => .next ⟨b :: passed, ahead⟩ t
      | e => .over e

/-- The ending reached within a number of steps, if any. -/
def run : Nat → Position → Snapshot → Option Ending
  | 0, _, _ => none
  | steps + 1, pos, s =>
    match step pos s with
    | .next pos s => run steps pos s
    | .over e => some e
    | .stuck => none

/-- Whether a text, run from its start on a blank tape, ends in a way. -/
def Ends (text input : Bytes) (e : Ending) : Prop :=
  ∃ steps, run steps ⟨[], text⟩ (.fresh input) = some e

/-! ### Jumps -/

private theorem ne_open {b : UInt8} (hplain : Source.IsPlain (.symbol b)) : b ≠ byte '[' := by
  rintro rfl
  exact hplain.1 (by decide)

private theorem ne_close {b : UInt8} (hplain : Source.IsPlain (.symbol b)) : b ≠ byte ']' := by
  rintro rfl
  exact hplain.2 (by decide)

private theorem close_ne_open : byte ']' ≠ byte '[' := by decide

/-- Looking for a closing bracket passes over plain source trees. -/
private theorem pastClose_texts : (trees : List Source) → Source.ArePlain trees → (depth : Nat) →
    (passed ahead : Bytes) → pastClose depth passed (Source.texts trees ++ ahead) =
      pastClose depth ((Source.texts trees).reverse ++ passed) ahead
  | [], _, _, _, _ => rfl
  | .symbol b :: rest, hplain, depth, passed, ahead => by
    rw [Source.texts_cons, Source.text_symbol, List.singleton_append, List.cons_append, pastClose,
      if_neg (ne_open hplain.1), if_neg (ne_close hplain.1), pastClose_texts rest hplain.2]
    simp
  | .loop body :: rest, hplain, depth, passed, ahead => by
    have hbody : Source.ArePlain body := hplain.1
    simp only [Source.texts_cons, Source.text_loop, List.cons_append, List.append_assoc,
      List.nil_append]
    rw [pastClose, if_pos rfl, pastClose_texts body hbody, pastClose, if_neg close_ne_open,
      if_pos rfl, if_neg (Nat.succ_ne_zero depth), Nat.add_sub_cancel,
        pastClose_texts rest hplain.2]
    simp

/-- Looking back for an opening bracket passes over plain source trees. -/
private theorem pastOpen_texts : (trees : List Source) → Source.ArePlain trees → (depth : Nat) →
    (passed ahead : Bytes) → pastOpen depth ((Source.texts trees).reverse ++ passed) ahead =
      pastOpen depth passed (Source.texts trees ++ ahead)
  | [], _, _, _, _ => rfl
  | .symbol b :: rest, hplain, depth, passed, ahead => by
    simp only [Source.texts_cons, Source.text_symbol, List.reverse_append, List.append_assoc]
    rw [pastOpen_texts rest hplain.2, List.reverse_singleton, List.singleton_append, pastOpen,
      if_neg (ne_close hplain.1), if_neg (ne_open hplain.1), List.singleton_append]
  | .loop body :: rest, hplain, depth, passed, ahead => by
    have hbody : Source.ArePlain body := hplain.1
    simp only [Source.texts_cons, Source.text_loop, List.reverse_append, List.reverse_cons,
      List.append_assoc, List.nil_append, List.cons_append]
    rw [pastOpen_texts rest hplain.2, pastOpen, if_pos rfl, pastOpen_texts body hbody, pastOpen,
      if_neg close_ne_open.symm, if_pos rfl, if_neg (Nat.succ_ne_zero depth), Nat.add_sub_cancel]

/-! ### Runs over source trees -/

/-- A run has an effect and goes on from a position with no more steps than before, or it stops
within the effect. -/
private def Continues (a : Effect) (steps : Nat) (pos : Position) (s : Snapshot) (e : Ending) :
    Prop := (∃ t k, k ≤ steps ∧ a s (.done t) ∧ run k pos t = some e) ∨ (a s e ∧ e.IsStop)

private theorem Continues.seq {a b : Effect} {steps : Nat} {mid pos : Position} {s : Snapshot}
    {e : Ending} (ha : Continues a steps mid s e)
    (hb : ∀ t k, k ≤ steps → run k mid t = some e → Continues b k pos t e) :
    Continues (a.seq b) steps pos s e := by
  obtain ⟨t, k, hk, hdone, hrun⟩ | ⟨hstop, he⟩ := ha
  · obtain ⟨u, j, hj, hdone', hrun'⟩ | ⟨hstop, he⟩ := hb t k hk hrun
    · exact Or.inl ⟨u, j, Nat.le_trans hj hk, Effect.seq_of_done hdone hdone', hrun'⟩
    · exact Or.inr ⟨Effect.seq_of_done hdone hstop, he⟩
  · exact Or.inr ⟨Effect.seq_of_stop hstop he, he⟩

/-- Fewer steps are left for what comes later. -/
private theorem Continues.mono {a : Effect} {steps steps' : Nat} {pos : Position} {s : Snapshot}
    {e : Ending} (hle : steps ≤ steps') (h : Continues a steps pos s e) :
    Continues a steps' pos s e :=
  h.imp_left fun ⟨t, k, hk, hrest⟩ => ⟨t, k, Nat.le_trans hk hle, hrest⟩

private theorem continues_symbol {b : UInt8} (hplain : Source.IsPlain (.symbol b)) {steps : Nat}
    {passed ahead : Bytes} {s : Snapshot} {e : Ending}
    (h : run steps ⟨passed, b :: ahead⟩ s = some e) :
    Continues (Effect.of (Snapshot.symbol b)) steps ⟨b :: passed, ahead⟩ s e := by
  cases steps with
  | zero => cases h
  | succ steps =>
    -- No bracket, so that the step is that of the symbol alone.
    rw [run, step, if_neg (ne_open hplain), if_neg (ne_close hplain)] at h
    cases hsymbol : s.symbol b with
    | done t =>
      simp only [hsymbol] at h
      exact Or.inl ⟨t, steps, Nat.le_succ steps, hsymbol, h⟩
    | outOfInput t =>
      simp only [hsymbol] at h
      cases h
      exact Or.inr ⟨hsymbol, trivial⟩
    | offTape =>
      simp only [hsymbol] at h
      cases h
      exact Or.inr ⟨hsymbol, trivial⟩

/-- Inside a loop: the body is run, and the closing bracket leads on or back. -/
private theorem continues_inside {body : List Source} (hplain : Source.ArePlain body)
    (hbody : ∀ {steps passed ahead s e}, run steps ⟨passed, Source.texts body ++ ahead⟩ s = some e →
      Continues (Source.effects body) steps ⟨(Source.texts body).reverse ++ passed, ahead⟩ s e)
    {passed ahead : Bytes} {e : Ending} (steps : Nat) : ∀ {s : Snapshot},
      run steps ⟨byte '[' :: passed, Source.texts body ++ byte ']' :: ahead⟩ s = some e →
        Continues ((Source.effects body).seq (Effect.loop (Source.effects body))) steps
          ⟨byte ']' :: ((Source.texts body).reverse ++ byte '[' :: passed), ahead⟩ s e := by
  -- Strong induction on the steps: the body may take none, but the closing bracket takes one.
  induction steps using Nat.strongRecOn with
  | ind steps ih =>
    intro s h
    refine (hbody h).seq fun t k hk hclose => ?_
    cases k with
    | zero => cases hclose
    | succ k =>
      rw [run, step, if_neg close_ne_open, if_pos rfl] at hclose
      by_cases hzero : t.here = 0
      · rw [if_pos hzero] at hclose
        exact Or.inl ⟨t, k, Nat.le_succ k, .exit hzero, hclose⟩
      · -- Going back finds the bracket before the body, whose own brackets pair up.
        have hopen : pastOpen 0 ((Source.texts body).reverse ++ byte '[' :: passed)
            (byte ']' :: ahead) =
              some ⟨byte '[' :: passed, Source.texts body ++ byte ']' :: ahead⟩ := by
          rw [pastOpen_texts body hplain, pastOpen, if_neg close_ne_open.symm, if_pos rfl,
            if_pos rfl]
        rw [if_neg hzero, hopen] at hclose
        have hpass := (ih k (by omega) hclose).mono (Nat.le_succ k)
        unfold Continues at hpass ⊢
        simpa only [← Effect.loop_of_ne_zero hzero] using hpass

/-- A run over the text of plain source trees has their effect. -/
private theorem continues_texts : (trees : List Source) → Source.ArePlain trees →
    {steps : Nat} → {passed ahead : Bytes} → {s : Snapshot} → {e : Ending} →
      run steps ⟨passed, Source.texts trees ++ ahead⟩ s = some e →
        Continues (Source.effects trees) steps ⟨(Source.texts trees).reverse ++ passed, ahead⟩ s e
  | [], _, steps, _, _, s, _, h => Or.inl ⟨s, steps, Nat.le_refl steps, rfl, h⟩
  | .symbol b :: rest, hplain, steps, passed, ahead, s, e, h => by
    rw [Source.effects_cons, Source.effect_symbol]
    refine (continues_symbol hplain.1 h).seq fun t k _ hrest => ?_
    simpa using continues_texts rest hplain.2 hrest
  | .loop body :: rest, hplain, steps, passed, ahead, s, e, h => by
    have hbody : Source.ArePlain body := hplain.1
    rw [Source.effects_cons, Source.effect_loop]
    have hpast : Continues (Effect.loop (Source.effects body)) steps
        ⟨byte ']' :: ((Source.texts body).reverse ++ byte '[' :: passed),
          Source.texts rest ++ ahead⟩ s e := by
      simp only [Source.texts_cons, Source.text_loop, List.cons_append, List.append_assoc,
        List.nil_append] at h
      -- The opening bracket takes a step, and leads past the loop or into it.
      cases steps with
      | zero => cases h
      | succ steps =>
        rw [run, step, if_pos rfl] at h
        by_cases hzero : s.here = 0
        · rw [if_pos hzero, pastClose_texts body hbody, pastClose, if_neg close_ne_open, if_pos rfl,
            if_pos rfl] at h
          exact Or.inl ⟨s, steps, Nat.le_succ steps, .exit hzero, h⟩
        · rw [if_neg hzero] at h
          have hinside := (continues_inside hbody (continues_texts body hbody) steps h).mono
            (Nat.le_succ steps)
          unfold Continues at hinside ⊢
          simpa only [Effect.loop_of_ne_zero hzero] using hinside
    refine hpast.seq fun t k _ hrest => ?_
    simpa using continues_texts rest hplain.2 hrest

/-- The endings of a text are endings of its source trees. -/
theorem effects_of_ends {text input : Bytes} {trees : List Source} {e : Ending}
    (htrees : Source.ofText text = .ok trees) (h : Ends text input e) :
    Source.effects trees (.fresh input) e := by
  obtain ⟨hplain, rfl⟩ := Source.ofText_eq_ok_iff.mp htrees
  obtain ⟨steps, hrun⟩ := h
  rw [← List.append_nil (Source.texts trees)] at hrun
  obtain ⟨t, k, -, hdone, hend⟩ | ⟨hstop, -⟩ := continues_texts trees hplain hrun
  · cases k with
    | zero => cases hend
    | succ k =>
      cases hend
      exact hdone
  · exact hstop

end SymbolMachine

/-! ### Parsing keeps the endings -/

/-- Every ending that the symbol machine has on the tape, the program of the text has too. -/
theorem Machine.reaches_of_ends {text input : Bytes} {trees : List Source} {m : Machine}
    {sink : Nat} {memory : Memory} {e : Ending} (htrees : Source.ofText text = .ok trees)
    (hm : m.Ready sink memory input) (hne : e ≠ .offTape)
    (hends : SymbolMachine.Ends text input e) :
    m.Reaches sink memory (Source.condense trees) e := by
  refine exec_of_effect _ hm.unhindered ?_
  have hstart : OnTape (m.view sink).cursor := by
    rw [hm.view_eq]
    exact onTape_zero
  refine Source.effects_refines_condense trees hstart hne ?_
  rw [hm.view_eq]
  exact SymbolMachine.effects_of_ends htrees hends

/-- A `text` that `IsBalanced` can be parsed. If the `SymbolMachine` reaches the end of the `text`
or runs out of `input`, so does a machine `m` that runs the `program`, with the same cursor, cells
and output and with the same bytes left to be read; only bounded `memory` can keep it from that. -/
theorem Machine.exec_parse_of_ends {text input : Bytes} {m : Machine} {sink : Nat} {memory : Memory}
    (hbalanced : text.IsBalanced) (hm : m.Ready sink memory input) :
    ∃ program, Program.parse text = .ok program ∧
      (∀ s, SymbolMachine.Ends text input (.done s) → ∃ fuel,
        (∃ m', m.exec .endless fuel program = .finished m' ∧ m'.view sink = s) ∨
          (m.exec .endless fuel program).Exhausts memory) ∧
      (∀ s, SymbolMachine.Ends text input (.outOfInput s) → ∃ fuel,
        (∃ m', m.exec .endless fuel program = .stopped (.input .endOfFile) m' ∧ m'.view sink = s) ∨
          (m.exec .endless fuel program).Exhausts memory) := by
  obtain ⟨trees, htrees⟩ := Source.exists_ofText_of_isBalanced hbalanced
  refine ⟨Source.condense trees, by rw [Program.parse, htrees]; rfl, fun s hends => ?_,
    fun s hends => ?_⟩
  · obtain ⟨fuel, hfuel⟩ := Machine.reaches_of_ends htrees hm (by simp) hends
    exact ⟨fuel, hfuel.imp_left Outcome.ending_eq_done_iff.mp⟩
  · obtain ⟨fuel, hfuel⟩ := Machine.reaches_of_ends htrees hm (by simp) hends
    exact ⟨fuel, hfuel.imp_left Outcome.ending_eq_outOfInput_iff.mp⟩

/-- The program `,[.,]` echoes two letters, without the newline between them, until its input ends.
-/
theorem Machine.exec_parse_of_ends_echo :
    (utf8 ",[.,]").IsBalanced ∧
      (Machine.forInput .endless (utf8 "h\ni")).Ready 0 .endless (utf8 "h\ni") ∧
      ∃ program, Program.parse (utf8 ",[.,]") = .ok program ∧ ∃ fuel m',
        (Machine.forInput .endless (utf8 "h\ni")).exec .endless fuel program =
          .stopped (.input .endOfFile) m' ∧ (m'.view 0).output = utf8 "hi" := by
  have hbalanced : (utf8 ",[.,]").IsBalanced := by decide
  have hready := Machine.ready_forInput .endless (utf8 "h\ni")
  obtain ⟨program, hparse, -, hinput⟩ := Machine.exec_parse_of_ends hbalanced hready
  obtain ⟨fuel, ⟨m', hexec, hview⟩ | ⟨hmemory, -⟩⟩ := hinput _ ⟨8, rfl⟩
  · exact ⟨hbalanced, hready, program, hparse, fuel, m', hexec, by rw [hview]; rfl⟩
  · cases hmemory

/-- Where the brackets of a text are not balanced, the `SymbolMachine` may run out of input before
it comes to a bracket without a partner, while `Program.parse` fails. -/
theorem SymbolMachine.ends_of_parse_eq_error :
    SymbolMachine.Ends (utf8 ",]") [] (.outOfInput (.fresh [])) ∧
      Program.parse (utf8 ",]") = .error (.unmatchedClose 1) :=
  ⟨⟨1, rfl⟩, rfl⟩

end TapeMachine
