import TapeMachine.Program.Cancellation
import TapeMachine.Proofs.Condensation
import TapeMachine.Proofs.MemoryUse
import TapeMachine.Proofs.SourceText

/-!
# Cancelling moves keeps the meaning of a text

Moves that cancel are removed pair by pair. A pair stands in one list of source trees, since no
bracket is a move, and without it the symbols around it come together: runs of additions merge and
may vanish, a loop may become empty or turn into one that clears its cell. None of this loses an
ending of the condensed program, and none of it accesses a cell that was not accessed before.

The module introduces:

* `ProgramText.cancelMoves_induction`: what one removal keeps, all of them keep;
* `Source.DropsPair`: source trees with one pair of moves less;
* `Source.exists_dropsPair`: removing a pair from a text removes one from its source trees;
* `Source.DropsPair.effectWithin_le`: the condensed program loses no ending with the pair.
-/

namespace TapeMachine

/-! ### Texts -/

namespace ProgramText

theorem cancels_iff {a b : UInt8} : cancels a b = true ↔
    (a = byte '<' ∧ b = byte '>') ∨ (a = byte '>' ∧ b = byte '<') := by
  simp [cancels]

/-- What holds of a text, and is kept whenever a pair of moves that cancel is removed, holds when no
such pair is left. -/
theorem cancelMoves_induction {P : Bytes → Prop}
    (hstep : ∀ (before : Bytes) (a b : UInt8) (behind : Bytes), cancels a b = true →
      P (before ++ a :: b :: behind) → P (before ++ behind))
    {text : Bytes} (h : P text) : P (cancelMoves text) := by
  -- The stack and the symbols ahead make up a text from which pairs have been removed.
  have hfold : ∀ (rest stack : Bytes), P (stack.reverse ++ rest) →
      P (rest.foldl push stack).reverse := by
    intro rest
    induction rest with
    | nil =>
      intro stack h
      simpa using h
    | cons b rest ih =>
      intro stack h
      rw [List.foldl_cons]
      cases stack with
      | nil => exact ih [b] (by simpa using h)
      | cons a stack =>
        by_cases hab : cancels a b = true
        · rw [push, if_pos hab]
          exact ih stack (hstep stack.reverse a b rest hab (by simpa using h))
        · rw [push, if_neg hab]
          exact ih (b :: a :: stack) (by simpa using h)
  exact hfold text [] h

end ProgramText

/-! ### Source trees -/

namespace Source

open ProgramText

/-- One list of source trees is another one without two neighbouring moves that cancel. -/
inductive DropsPair : List Source → List Source → Prop
  | here {a b : UInt8} {rest : List Source} (hab : cancels a b = true) :
      DropsPair (.symbol a :: .symbol b :: rest) rest
  | behind {tree : Source} {rest rest' : List Source} (hrest : DropsPair rest rest') :
      DropsPair (tree :: rest) (tree :: rest')
  | inside {body body' rest : List Source} (hbody : DropsPair body body') :
      DropsPair (.loop body :: rest) (.loop body' :: rest)

theorem isPlain_of_cancels {a b : UInt8} (hab : cancels a b = true) :
    IsPlain (.symbol a) ∧ IsPlain (.symbol b) := by
  simp only [isPlain_symbol]
  obtain ⟨rfl, rfl⟩ | ⟨rfl, rfl⟩ := cancels_iff.mp hab
  · decide
  · decide

/-- A pair of moves in the text of source trees stands in one list of them. -/
theorem exists_dropsPair {a b : UInt8} (hab : cancels a b = true) : (trees : List Source) →
    ArePlain trees → {before behind : Bytes} → texts trees = before ++ a :: b :: behind →
      ∃ trees', DropsPair trees trees' ∧ ArePlain trees' ∧ texts trees' = before ++ behind
  | [], _, before, behind, htext => by
    cases before <;> cases htext
  | .symbol c :: rest, hplain, before, behind, htext => by
    rw [texts_cons, text_symbol, List.singleton_append] at htext
    cases before with
    | nil =>
      obtain ⟨rfl, hrest⟩ := List.cons.inj htext
      cases rest with
      | nil => cases hrest
      | cons tree rest =>
        cases tree with
        | symbol d =>
          obtain ⟨rfl, hbehind⟩ := List.cons.inj hrest
          exact ⟨rest, .here hab, hplain.2.2, hbehind⟩
        | loop body =>
          obtain ⟨rfl, -⟩ := List.cons.inj hrest
          exact absurd rfl (ne_bracket_of_isPlain (isPlain_of_cancels hab).2).1
    | cons d before =>
      obtain ⟨rfl, hrest⟩ := List.cons.inj htext
      obtain ⟨rest', hdrop, hplain', htext'⟩ := exists_dropsPair hab rest hplain.2 hrest
      exact ⟨.symbol c :: rest', .behind hdrop, ⟨hplain.1, hplain'⟩, by simp [htext']⟩
  | .loop body :: rest, hplain, before, behind, htext => by
    obtain ⟨⟨hopen, hclose⟩, -, hclose'⟩ :=
      (isPlain_of_cancels hab).imp ne_bracket_of_isPlain ne_bracket_of_isPlain
    rw [texts_cons, text_loop, List.cons_append, List.append_assoc, List.singleton_append] at htext
    cases before with
    | nil =>
      obtain ⟨rfl, -⟩ := List.cons.inj htext
      exact absurd rfl hopen
    | cons d before =>
      obtain ⟨rfl, hinner⟩ := List.cons.inj htext
      -- The pair stands behind the loop or inside it, since it does not hold its last bracket.
      obtain ⟨gap, rfl, hgap⟩ | ⟨gap, hbody, hgap⟩ := List.append_eq_append_iff.mp hinner
      · cases gap with
        | nil =>
          obtain ⟨rfl, -⟩ := List.cons.inj hgap
          exact absurd rfl hclose
        | cons d gap =>
          obtain ⟨rfl, hrest⟩ := List.cons.inj hgap
          obtain ⟨rest', hdrop, hplain', htext'⟩ := exists_dropsPair hab rest hplain.2 hrest
          exact ⟨.loop body :: rest', .behind hdrop, ⟨hplain.1, hplain'⟩, by simp [htext']⟩
      · match gap with
        | [] =>
          obtain ⟨rfl, -⟩ := List.cons.inj hgap
          exact absurd rfl hclose
        | [c] =>
          obtain ⟨-, htail⟩ := List.cons.inj hgap
          obtain ⟨rfl, -⟩ := List.cons.inj htail
          exact absurd rfl hclose'
        | c :: d :: gap =>
          obtain ⟨rfl, htail⟩ := List.cons.inj hgap
          obtain ⟨rfl, rfl⟩ := List.cons.inj htail
          obtain ⟨body', hdrop, hplain', htext'⟩ := exists_dropsPair hab body hplain.1 hbody
          exact ⟨.loop body' :: rest, .inside hdrop, ⟨hplain', hplain.2⟩, by simp [htext']⟩

end Source

/-! ### Runs that come together -/

section Runs

variable {ok : Int → Prop}

/-- What a finished run of additions does. Only a run that does something accesses its cell. -/
theorem Run.effectWithin_finish_adding {amount : Int64} {s : Snapshot} {e : Ending} :
    Program.effectWithin ok ((Run.adding amount).finish []) s e ↔
      s.add amount.toInt = e ∧ (amount ≠ 0 → ok s.cursor) := by
  rw [Run.finish]
  split
  · next hzero =>
    have hadd : s.add (0 : Int64).toInt = .done s := by
      have hsame : s.here + UInt8.ofInt (Int64.toInt 0) = s.here := UInt8.add_zero s.here
      rw [Snapshot.add, hsame, Snapshot.put_here]
    subst hzero
    rw [Program.effectWithin_nil, Effect.skip_iff, hadd, eq_comm]
    exact (and_iff_left fun hne => absurd rfl hne).symm
  · next hne => simp [hne]

/-- Two runs of additions do together what one run of their sum does. -/
theorem Run.effectWithin_finish_add_le (n m : Int64) :
    (Program.effectWithin ok ((Run.adding n).finish [])).seq
        (Program.effectWithin ok ((Run.adding m).finish [])) ≤
      Program.effectWithin ok ((Run.adding (n + m)).finish []) := by
  intro s e h
  have hsum : UInt8.ofInt (n + m).toInt = UInt8.ofInt n.toInt + UInt8.ofInt m.toInt := by
    rw [Int64.toInt_add, ← UInt8.ofInt_add]
    exact ofInt_wrap _
  rw [Run.effectWithin_finish_adding]
  obtain ⟨t, hn, hm⟩ | ⟨hn, hstop⟩ := h
  · rw [Run.effectWithin_finish_adding] at hn hm
    obtain ⟨hn, hokn⟩ := hn
    obtain ⟨hm, hokm⟩ := hm
    cases hn
    refine ⟨?_, fun hne => ?_⟩
    · rw [← hm, Snapshot.add, Snapshot.add, Snapshot.here_put, Snapshot.put_put, hsum,
        UInt8.add_assoc]
    -- If neither run did something, the sum would be zero.
    · by_cases hzero : n = 0
      · subst hzero
        exact hokm (by simpa using hne)
      · exact hokn hzero
  · rw [Run.effectWithin_finish_adding] at hn
    rw [← hn.1] at hstop
    exact hstop.elim

end Runs

namespace Source

open ProgramText

variable {ok : Int → Prop}

/-- A run of moves that cancel out is no run. -/
theorem condenseFrom_moving_zero (trees : List Source) :
    condenseFrom [] (.moving 0) trees = condenseFrom [] .none trees := by
  match trees with
  | [] =>
    rw [condenseFrom_nil, condenseFrom_nil]
    rfl
  | .loop body :: rest =>
    rw [condenseFrom_loop, condenseFrom_loop]
    rfl
  | .symbol b :: rest =>
    have hsymbol : Run.symbol b [] (.moving 0) = Run.symbol b [] .none := by
      unfold Run.symbol
      split <;> rfl
    rw [condenseFrom_symbol, condenseFrom_symbol, hsymbol]

/-- A run of additions goes on with the next symbol, or is finished. -/
theorem condenseFrom_adding (trees : List Source) :
    (∀ amount, condenseFrom [] (.adding amount) trees =
      (Run.adding amount).finish [] ++ condenseFrom [] .none trees) ∨
    ∃ (b : UInt8) (rest : List Source) (step : Int64), trees = .symbol b :: rest ∧
      condenseFrom [] .none trees = condenseFrom [] (.adding step) rest ∧
      ∀ amount, condenseFrom [] (.adding amount) trees =
        condenseFrom [] (.adding (amount + step)) rest := by
  match trees with
  | [] => exact Or.inl fun amount => by rw [condenseFrom_nil, condenseFrom_nil]; simp [Run.finish]
  | .loop body :: rest =>
    refine Or.inl fun amount => ?_
    rw [condenseFrom_loop, condenseFrom_loop]
    rfl
  | .symbol b :: rest =>
    -- Only an addition goes on with a run of additions; any other symbol finishes it.
    have hsymbol : (∀ amount, ((Run.adding amount).symbol b []).1 =
          (Run.none.symbol b []).1 ++ (Run.adding amount).finish [] ∧
          ((Run.adding amount).symbol b []).2 = (Run.none.symbol b []).2) ∨
        ∃ step, Run.none.symbol b [] = ([], .adding step) ∧
          ∀ amount, (Run.adding amount).symbol b [] = ([], .adding (amount + step)) := by
      unfold Run.symbol
      split
      · exact Or.inr ⟨1, rfl, fun _ => rfl⟩
      · exact Or.inr ⟨-1, rfl, fun _ => rfl⟩
      all_goals exact Or.inl fun _ => ⟨rfl, rfl⟩
    obtain hend | ⟨step, hnone, hstep⟩ := hsymbol
    · refine Or.inl fun amount => ?_
      obtain ⟨hnodes, hrun⟩ := hend amount
      rw [condenseFrom_symbol, condenseFrom_symbol, hnodes, hrun, List.reverse_append,
        Run.finish_reverse, List.append_assoc]
    · refine Or.inr ⟨b, rest, step, rfl, ?_, fun amount => ?_⟩
      · rw [condenseFrom_symbol, hnone]
        rfl
      · rw [condenseFrom_symbol, hstep]
        rfl

/-- A run of additions that cancel out is no run. -/
theorem condenseFrom_adding_zero (trees : List Source) :
    condenseFrom [] (.adding 0) trees = condenseFrom [] .none trees := by
  obtain hend | ⟨b, rest, step, rfl, hnone, hstep⟩ := condenseFrom_adding trees
  · rw [hend 0]
    rfl
  · rw [hstep 0, hnone, Int64.zero_add]

/-- An addition in front of a run may join it. -/
theorem adding_append_le : (trees : List Source) → (n m : Int64) →
    Program.effectWithin ok
        ((Run.adding n).finish [] ++ condenseFrom [] (.adding m) trees) ≤
      Program.effectWithin ok (condenseFrom [] (.adding (n + m)) trees)
  | trees, n, m => by
    obtain hend | ⟨b, rest, step, htrees, -, hstep⟩ := condenseFrom_adding trees
    · rw [hend m, hend (n + m), Program.effectWithin_append, Program.effectWithin_append,
        Program.effectWithin_append, ← Effect.seq_assoc]
      exact Effect.seq_mono (Run.effectWithin_finish_add_le n m) le_rfl
    · rw [hstep m, hstep (n + m), Int64.add_assoc]
      exact adding_append_le rest n (m + step)
termination_by trees => trees.length
decreasing_by simp [htrees]

/-! ### Without a pair -/

/-- Two moves that cancel finish a run of additions, and are no part of what follows. -/
theorem condenseFrom_pair {a b : UInt8} (hab : cancels a b = true) (rest : List Source)
    (run : Run) :
    condenseFrom [] run (.symbol a :: .symbol b :: rest) = match run with
      | .adding amount => (Run.adding amount).finish [] ++ condenseFrom [] .none rest
      | run => condenseFrom [] run rest := by
  have hzero := condenseFrom_moving_zero rest
  rw [condenseFrom_symbol, condenseFrom_symbol]
  -- The second symbol takes back the step of the first one.
  obtain ⟨step, hstep⟩ : ∃ step : Int64, ∀ run : Run,
      run.symbol a [] = run.move step [] ∧ run.symbol b [] = run.move (-step) [] := by
    obtain ⟨rfl, rfl⟩ | ⟨rfl, rfl⟩ := cancels_iff.mp hab
    · exact ⟨-1, fun run => ⟨rfl, rfl⟩⟩
    · exact ⟨1, fun run => ⟨rfl, rfl⟩⟩
  have hback : step + -step = 0 := Int64.add_right_neg step
  simp only [hstep]
  cases run with
  | none => simpa [Run.move, Run.finish, hback] using hzero
  | adding amount => simpa [Run.move, Run.finish_reverse, hback] using hzero
  | moving amount => simp [Run.move, Int64.add_assoc, hback]

/-- A loop has no node exactly if its body has none. -/
theorem loopNodes_eq_nil_iff {body : List Source} :
    loopNodes body = [] ↔ condenseFrom [] .none body = [] := by
  rw [loopNodes]
  split
  · next hminus =>
    have hbody : body = [.symbol (byte '-')] := by
      unfold isSingleMinus at hminus
      split at hminus
      · rw [beq_iff_eq.mp hminus]
      · cases hminus
    rw [hbody, condenseFrom_symbol, condenseFrom_nil]
    exact iff_of_false (List.cons_ne_nil _ _) (List.cons_ne_nil _ _)
  · split <;> simp_all

/-- A loop that counts its cell down clears it. -/
theorem loopWithin_add_neg_one_le :
    Effect.loopWithin ok (Program.effectWithin ok [{ op := .add, amount := -1 }]) ≤
      Program.effectWithin ok [{ op := .clear }] := by
  intro s e h
  have hok := (Effect.loopWithin_iff.mp h).1
  have hminus : Program.effect [{ op := .add, amount := -1 }] = effects [.symbol (byte '-')] := by
    rw [Program.effect_cons, Program.effect_nil, Effect.seq_skip, Node.effect_add, effects_cons,
      effects_nil, Effect.seq_skip, effect_symbol]
    rfl
  have hloop : Effect.loop (effects [.symbol (byte '-')]) s e := by
    rw [← hminus]
    exact Effect.loop_mono (Program.effectWithin_le _) s e (Effect.loopWithin_le_loop s e h)
  rw [loop_minus] at hloop
  simpa using ⟨hloop, hok⟩

/-- Without the pair, source trees that condensed to nothing still do. -/
theorem DropsPair.condenseFrom_eq_nil {trees trees' : List Source} (h : DropsPair trees trees') :
    ∀ {run : Run}, condenseFrom [] run trees = [] → condenseFrom [] run trees' = [] := by
  induction h with
  | @here a b rest hab =>
    intro run hnil
    rw [condenseFrom_pair hab] at hnil
    cases run with
    | none => exact hnil
    | moving amount => exact hnil
    | adding amount =>
      -- The additions in front have left no node, so they cancel out.
      obtain ⟨hfinish, hrest⟩ := List.append_eq_nil_iff.mp hnil
      obtain rfl : amount = 0 := by
        by_contra hne
        simp [Run.finish, hne] at hfinish
      rw [condenseFrom_adding_zero, hrest]
  | @behind tree rest rest' _ ih =>
    intro run hnil
    cases tree with
    | symbol b =>
      rw [condenseFrom_symbol] at hnil ⊢
      obtain ⟨hnodes, hrest⟩ := List.append_eq_nil_iff.mp hnil
      rw [hnodes, ih hrest, List.append_nil]
    | loop body =>
      rw [condenseFrom_loop] at hnil ⊢
      simp only [List.append_eq_nil_iff] at hnil ⊢
      exact ⟨hnil.1, hnil.2.1, ih hnil.2.2⟩
  | @inside body body' rest _ ih =>
    intro run hnil
    rw [condenseFrom_loop] at hnil ⊢
    simp only [List.append_eq_nil_iff, loopNodes_eq_nil_iff] at hnil ⊢
    exact ⟨hnil.1, ih hnil.2.1, hnil.2.2⟩

/-- Without a pair in its body, a loop loses no ending. -/
private theorem loopNodes_le {body body' : List Source} (h : DropsPair body body')
    (hbody : Program.effectWithin ok (condenseFrom [] .none body) ≤
      Program.effectWithin ok (condenseFrom [] .none body')) :
    Program.effectWithin ok (loopNodes body) ≤ Program.effectWithin ok (loopNodes body') := by
  obtain ⟨hnodes, hempty⟩ | ⟨rfl, -⟩ | hnodes := loopNodes_cases body
  · rw [hnodes, loopNodes_eq_nil_iff.mpr (h.condenseFrom_eq_nil hempty)]
  · -- There is no pair in a single `-`.
    cases h with
    | behind hrest => cases hrest
  rw [hnodes, Program.effectWithin_cons, Program.effectWithin_nil, Effect.seq_skip,
    Node.effectWithin_loop]
  obtain ⟨hnodes', hempty'⟩ | ⟨hminus, hnodes'⟩ | hnodes' := loopNodes_cases body'
  · -- The body has become empty: it did nothing, so the loop was left at once.
    rw [hnodes']
    rw [hempty'] at hbody
    exact le_trans (Effect.loopWithin_mono hbody)
      (le_trans Effect.loopWithin_le_loop fun s e he => (loop_skip he).symm)
  · -- The body has become a single `-`, and the loop clears its cell in one step.
    rw [hnodes']
    rw [hminus, condenseFrom_symbol, condenseFrom_nil] at hbody
    exact le_trans (Effect.loopWithin_mono hbody) loopWithin_add_neg_one_le
  · rw [hnodes', Program.effectWithin_cons, Program.effectWithin_nil, Effect.seq_skip,
      Node.effectWithin_loop]
    exact Effect.loopWithin_mono hbody

/-- Without a pair of moves that cancel, the condensed program loses no ending. -/
theorem DropsPair.effectWithin_le {trees trees' : List Source} (h : DropsPair trees trees') :
    ∀ run : Run, Program.effectWithin ok (condenseFrom [] run trees) ≤
      Program.effectWithin ok (condenseFrom [] run trees') := by
  induction h with
  | @here a b rest hab =>
    intro run
    rw [condenseFrom_pair hab]
    cases run with
    | none => exact le_rfl
    | moving amount => exact le_rfl
    | adding amount =>
      -- The pair kept the additions apart from those that follow; now they come together.
      have hjoin := @adding_append_le ok rest amount 0
      rwa [condenseFrom_adding_zero, Int64.add_zero] at hjoin
  | @behind tree rest rest' _ ih =>
    intro run
    cases tree with
    | symbol b =>
      rw [condenseFrom_symbol, condenseFrom_symbol, Program.effectWithin_append,
        Program.effectWithin_append]
      exact Effect.seq_mono le_rfl (ih _)
    | loop body =>
      simp only [condenseFrom_loop, Program.effectWithin_append]
      exact Effect.seq_mono le_rfl (Effect.seq_mono le_rfl (ih _))
  | @inside body body' rest hdrop ih =>
    intro run
    simp only [condenseFrom_loop, Program.effectWithin_append]
    exact Effect.seq_mono le_rfl (Effect.seq_mono (loopNodes_le hdrop (ih .none)) le_rfl)

end Source

end TapeMachine
