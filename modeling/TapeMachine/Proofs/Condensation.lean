import TapeMachine.Program.Parser
import TapeMachine.Proofs.Execution

/-!
# Condensing keeps the meaning of a text

A source tree has an effect of its own, one symbol at a time. Condensing it happens in two steps
here: first the loops that condense to nothing are replaced by comments, then runs of symbols are
collapsed. Neither loses an ending that keeps the cursor on the tape.

The module introduces:

* `Source.effects`: the endings that source trees have, symbol by symbol;
* `Source.prune`: source trees without the loops that condense to nothing; it changes nothing about
  the condensed program (`Source.condenseFrom_prune`);
* `Run.symbol_step`: how a symbol changes the run that is being read;
* `Source.effects_refines_condense`: what a text does symbol by symbol, its condensed program does.
-/

namespace TapeMachine

/-- What one symbol does. Dumps show the machine to its owner, not to the program; all other symbols
are comments. -/
def Snapshot.symbol (b : UInt8) (s : Snapshot) : Ending :=
  match Bytes.char b with
  | '+' => s.add 1
  | '-' => s.add (-1)
  | '>' => s.move 1
  | '<' => s.move (-1)
  | '.' => s.write
  | ',' => s.read
  | _ => .done s

namespace Source

mutual

/-- The endings that a source tree has. -/
def effect : Source → Effect
  | .symbol b => Effect.of (Snapshot.symbol b)
  | .loop body => Effect.loop (effects body)

/-- The endings that source trees have one after another. -/
def effects : List Source → Effect
  | [] => Effect.skip
  | tree :: rest => tree.effect.seq (effects rest)

end

/-- A symbol does what it stands for. -/
@[simp] theorem effect_symbol (b : UInt8) :
    effect (.symbol b) = Effect.of (Snapshot.symbol b) := rfl

/-- A loop repeats what its `body` does. -/
@[simp] theorem effect_loop (body : List Source) :
    effect (.loop body) = Effect.loop (effects body) := rfl

/-- No source trees do nothing. -/
@[simp] theorem effects_nil : effects [] = Effect.skip := rfl

/-- Source trees do one thing after another. -/
@[simp] theorem effects_cons (tree : Source) (rest : List Source) :
    effects (tree :: rest) = tree.effect.seq (effects rest) := rfl

/-- Source trees in a row do things in a row. -/
theorem effects_append (first second : List Source) :
    effects (first ++ second) = (effects first).seq (effects second) := by
  induction first with
  | nil => simp
  | cons tree rest ih => simp [ih, Effect.seq_assoc]

/-- Source trees have at most one ending from each snapshot. -/
theorem effects_isFunctional : (trees : List Source) → (effects trees).IsFunctional
  | [] => Effect.isFunctional_of _
  | .symbol _ :: rest => (Effect.isFunctional_of _).seq (effects_isFunctional rest)
  | .loop body :: rest => (effects_isFunctional body).loop.seq (effects_isFunctional rest)

end Source

/-! ### Staying on the tape -/

section Stays

variable {s t : Snapshot}

/-- A move that does not stop ends on the tape. -/
theorem Snapshot.onTape_of_move {amount : Int} (h : s.move amount = .done t) : OnTape t.cursor := by
  unfold Snapshot.move at h
  split at h
  · cases h
    assumption
  · cases h

/-- A read that does not stop puts the next byte that is no control. -/
theorem Snapshot.eq_of_read (h : s.read = .done t) :
    ∃ b rest, nextVisible s.input = some (b, rest) ∧ t = { s with input := rest }.put b := by
  unfold Snapshot.read at h
  split at h
  · cases h
  · next b rest hnext =>
    cases h
    exact ⟨b, rest, hnext, rfl⟩

/-- A read does not move the cursor. -/
theorem Snapshot.read_cursor (h : s.read = .done t) : t.cursor = s.cursor := by
  obtain ⟨b, rest, -, rfl⟩ := Snapshot.eq_of_read h
  rfl

/-- A symbol keeps the cursor on the tape, or stops. -/
private theorem stays_symbol (b : UInt8) : (Effect.of (Snapshot.symbol b)).Stays := by
  intro s t hs h
  rw [Effect.of_iff] at h
  unfold Snapshot.symbol at h
  split at h
  · cases h
    exact hs
  · cases h
    exact hs
  · exact Snapshot.onTape_of_move h
  · exact Snapshot.onTape_of_move h
  · cases h
    exact hs
  · exact Snapshot.read_cursor h ▸ hs
  · cases h
    exact hs

/-- Source trees keep the cursor on the tape, or stop. -/
theorem Source.effects_stays : (trees : List Source) → (Source.effects trees).Stays
  | [] => Effect.stays_skip
  | .symbol b :: rest => (stays_symbol b).seq (Source.effects_stays rest)
  | .loop body :: rest => (Source.effects_stays body).loop.seq (Source.effects_stays rest)

/-- A source tree keeps the cursor on the tape, or stops. -/
theorem Source.effect_stays : (tree : Source) → tree.effect.Stays
  | .symbol b => stays_symbol b
  | .loop body => (Source.effects_stays body).loop

end Stays

/-! ### Loops that condense to nothing -/

/-- The nodes of a finished run come behind those before it. -/
private theorem Run.finish_append (done : List Node) (run : Run) :
    run.finish done = run.finish [] ++ done := by
  cases run with
  | none => rfl
  | adding amount =>
    simp only [Run.finish]
    split <;> rfl
  | moving amount =>
    simp only [Run.finish]
    split <;> rfl

/-- A finished run has one node at most. -/
theorem Run.finish_reverse (run : Run) : (run.finish []).reverse = run.finish [] := by
  cases run with
  | none => rfl
  | adding amount =>
    simp only [Run.finish]
    split <;> rfl
  | moving amount =>
    simp only [Run.finish]
    split <;> rfl

namespace Source

mutual

/-- Replaces a loop by a comment if it condenses to nothing, and the loops in it too. -/
def pruned : Source → Source
  | .symbol b => .symbol b
  | .loop body => if loopNodes body = [] then .symbol (byte ' ') else .loop (prune body)

/-- Replaces loops that condense to nothing by comments. -/
def prune : List Source → List Source
  | [] => []
  | tree :: rest => tree.pruned :: prune rest

end

/-- There is nothing to prune in nothing. -/
@[simp] theorem prune_nil : prune [] = [] := rfl

/-- Source trees are pruned one by one. -/
@[simp] theorem prune_cons (tree : Source) (rest : List Source) :
    prune (tree :: rest) = tree.pruned :: prune rest := rfl

/-- Source trees in a row are pruned in a row. -/
theorem prune_append (first second : List Source) :
    prune (first ++ second) = prune first ++ prune second := by
  induction first with
  | nil => rfl
  | cons tree rest ih => rw [List.cons_append, prune_cons, prune_cons, ih, List.cons_append]

/-- Symbols are kept. -/
@[simp] theorem pruned_symbol (b : UInt8) : pruned (.symbol b) = .symbol b := rfl

/-- A loop that condenses to nothing becomes a blank, and others are pruned inside. -/
theorem pruned_loop (body : List Source) : pruned (.loop body) =
    if loopNodes body = [] then .symbol (byte ' ') else .loop (prune body) := rfl

/-- Pruning makes and breaks no loop around a single `-`. -/
private theorem isSingleMinus_prune (body : List Source) :
    isSingleMinus (prune body) = isSingleMinus body := by
  match body with
  | [] => rfl
  | [.symbol b] => rfl
  | [.loop inner] =>
    have hspace : (byte ' ' == byte '-') = false := by decide
    rw [prune_cons, prune_nil, pruned_loop]
    split <;> simp [isSingleMinus, hspace]
  | first :: second :: rest => cases first <;> cases second <;> simp [isSingleMinus]

/-- A symbol is read with the nodes before it. -/
private theorem condenseFrom_cons_symbol (done : List Node) (run : Run) (b : UInt8)
    (rest : List Source) : condenseFrom done run (.symbol b :: rest) =
      condenseFrom (run.symbol b done).1 (run.symbol b done).2 rest := by
  rw [condenseFrom]

/-- A loop has no node, or clears a cell, or is a loop around what its body condenses to. -/
theorem loopNodes_cases (body : List Source) :
    (loopNodes body = [] ∧ condenseFrom [] .none body = []) ∨
      (body = [.symbol (byte '-')] ∧ loopNodes body = [{ op := .clear }]) ∨
      loopNodes body = [{ op := .loop, body := condenseFrom [] .none body }] := by
  rw [loopNodes]
  by_cases hminus : isSingleMinus body = true
  · have hbody : body = [.symbol (byte '-')] := by
      unfold isSingleMinus at hminus
      split at hminus
      · rw [beq_iff_eq.mp hminus]
      · cases hminus
    exact Or.inr (Or.inl ⟨hbody, if_pos hminus⟩)
  · rw [if_neg hminus]
    cases condenseFrom [] .none body with
    | nil => exact Or.inl ⟨rfl, rfl⟩
    | cons node rest => exact Or.inr (Or.inr rfl)

/-- Only a loop whose body condenses to nothing has no node. -/
theorem condenseFrom_eq_nil {body : List Source} (h : loopNodes body = []) :
    condenseFrom [] .none body = [] := by
  obtain ⟨-, hempty⟩ | ⟨-, hnodes⟩ | hnodes := loopNodes_cases body
  · exact hempty
  · cases h.symm.trans hnodes
  · cases h.symm.trans hnodes

/-- Pruning changes nothing about the condensed program: a loop that condenses to nothing ends a
run, and so does a comment. -/
theorem condenseFrom_prune : (trees : List Source) → (done : List Node) → (run : Run) →
    condenseFrom done run (prune trees) = condenseFrom done run trees
  | [], done, run => rfl
  | .symbol b :: rest, done, run => by
    rw [prune_cons, pruned_symbol, condenseFrom_cons_symbol, condenseFrom_cons_symbol,
      condenseFrom_prune rest]
  | .loop body :: rest, done, run => by
    have hspace : run.symbol (byte ' ') done = (run.finish done, .none) := rfl
    rw [prune_cons, pruned_loop]
    split
    · next hidle =>
      -- The comment in its place finishes the run, as the loop does.
      rw [condenseFrom_cons_symbol, condenseFrom, hspace, hidle, condenseFrom_prune rest,
        List.nil_append]
    · have hbody : loopNodes (prune body) = loopNodes body := by
        rw [loopNodes, loopNodes, isSingleMinus_prune, condenseFrom_prune body]
      rw [condenseFrom, condenseFrom, hbody, condenseFrom_prune rest]

/-- Nodes read before stay in front of the others. -/
theorem condenseFrom_eq (trees : List Source) : ∀ (done : List Node) (run : Run),
    condenseFrom done run trees = done.reverse ++ condenseFrom [] run trees := by
  -- What a symbol finishes is put in front of the nodes before, whatever they are.
  have hsymbol : ∀ (b : UInt8) (done : List Node) (run : Run),
      run.symbol b done = ((run.symbol b []).1 ++ done, (run.symbol b []).2) := by
    intro b done run
    unfold Run.symbol
    split
    all_goals first
      | simp [Run.finish_append done run]
      | cases run <;> simp [Run.add, Run.move, Run.finish_append done]
  induction trees with
  | nil =>
    intro done run
    simp [condenseFrom, Run.finish_append done run]
  | cons tree rest ih =>
    intro done run
    cases tree with
    | symbol b =>
      rw [condenseFrom_cons_symbol, condenseFrom_cons_symbol, hsymbol b done run, ih,
        ih (run.symbol b []).1]
      simp
    | loop body =>
      rw [condenseFrom, condenseFrom, Run.finish_append done run, ih,
        ih (loopNodes body ++ run.finish [])]
      simp

/-- At the end, the run before it is finished. -/
theorem condenseFrom_nil (run : Run) : condenseFrom [] run [] = run.finish [] := by
  rw [condenseFrom, Run.finish_reverse]

/-- A symbol yields the nodes that it finishes, and goes on with a run. -/
theorem condenseFrom_symbol (run : Run) (b : UInt8) (rest : List Source) :
    condenseFrom [] run (.symbol b :: rest) =
      (run.symbol b []).1.reverse ++ condenseFrom [] (run.symbol b []).2 rest := by
  rw [condenseFrom_cons_symbol, condenseFrom_eq]

/-- A loop ends a run. -/
theorem condenseFrom_loop (run : Run) (body rest : List Source) :
    condenseFrom [] run (.loop body :: rest) =
      run.finish [] ++ (loopNodes body ++ condenseFrom [] .none rest) := by
  have hloop : (loopNodes body).reverse = loopNodes body := by
    rw [loopNodes]
    split
    · rfl
    · split <;> rfl
  rw [condenseFrom, condenseFrom_eq, List.reverse_append, Run.finish_reverse, hloop,
    List.append_assoc]

end Source

/-! ### Runs -/

/-- What an unfinished run does. -/
def Run.act : Run → Snapshot → Ending
  | .none, s => .done s
  | .adding amount, s => s.add amount.toInt
  | .moving amount, s => s.move amount.toInt

namespace Run

section Act

variable {run : Run} {s t : Snapshot}

/-- A run that does not stop ends on the tape. -/
theorem onTape_of_act (hs : OnTape s.cursor) (hrun : run.act s = .done t) : OnTape t.cursor := by
  cases run with
  | none =>
    cases hrun
    exact hs
  | adding amount =>
    cases hrun
    exact hs
  | moving amount => exact Snapshot.onTape_of_move hrun

/-- A run reads nothing, so it reaches its end unless the cursor leaves the tape. -/
theorem exists_of_act {e : Ending} (hrun : run.act s = e) (hne : e ≠ .offTape) :
    ∃ t, e = .done t := by
  cases run with
  | none => exact ⟨s, hrun.symm⟩
  | adding amount => exact ⟨_, hrun.symm⟩
  | moving amount =>
    simp only [act, Snapshot.move] at hrun
    split at hrun
    · exact ⟨_, hrun.symm⟩
    · exact absurd hrun.symm hne

/-- The node of a run does what the run does. -/
private theorem effect_finish (hs : OnTape s.cursor) (hrun : run.act s = .done t) :
    Program.effect (run.finish []).reverse s (.done t) := by
  rw [finish_reverse]
  cases run with
  | none =>
    cases hrun
    exact rfl
  | adding amount =>
    rw [finish]
    split
    -- A run that cancels out has no node, and changes nothing.
    · next hzero =>
      subst hzero
      have hsame : s.here + UInt8.ofInt (Int64.toInt 0) = s.here := UInt8.add_zero s.here
      simp only [act, Snapshot.add, hsame, Snapshot.put_here] at hrun
      cases hrun
      exact rfl
    · simp only [Program.effect_cons, Program.effect_nil, Effect.seq_skip, Node.effect_add]
      exact hrun
  | moving amount =>
    rw [finish]
    split
    · next hzero =>
      subst hzero
      have hsame : s.cursor + Int64.toInt 0 = s.cursor := by simp
      simp only [act, Snapshot.move, hsame, if_pos hs] at hrun
      cases hrun
      exact rfl
    · simp only [Program.effect_cons, Program.effect_nil, Effect.seq_skip, Node.effect_move]
      exact hrun

/-- Adding to a run. -/
private theorem add_step (amount : Int64) (hs : OnTape s.cursor) (hrun : run.act s = .done t) :
    ((Program.effect (run.add amount []).1.reverse).seq (.of (run.add amount []).2.act)) s
      (t.add amount.toInt) := by
  cases run with
  | adding sofar =>
    cases hrun
    -- The sum of the amounts may wrap around, but cells do not see that.
    have hsum : UInt8.ofInt (sofar + amount).toInt =
        UInt8.ofInt sofar.toInt + UInt8.ofInt amount.toInt := by
      rw [Int64.toInt_add, ← UInt8.ofInt_add]
      exact ofInt_wrap _
    refine Effect.seq_of_done rfl ?_
    simp only [Effect.of_iff, add, act, Snapshot.add, hsum, Snapshot.here_put, Snapshot.put_put,
      UInt8.add_assoc]
  | none => exact Effect.seq_of_done (effect_finish hs hrun) rfl
  | moving sofar => exact Effect.seq_of_done (effect_finish hs hrun) rfl

/-- Moving in a run. As long as the cursor is on the tape, the net amount is no larger than a
word. -/
private theorem move_step (amount : Int64) (hs : OnTape s.cursor) (hrun : run.act s = .done t)
    (htape : OnTape (t.cursor + amount.toInt)) :
    ((Program.effect (run.move amount []).1.reverse).seq (.of (run.move amount []).2.act)) s
      (t.move amount.toInt) := by
  cases run with
  | moving sofar =>
    simp only [act, Snapshot.move] at hrun
    split at hrun
    · cases hrun
      -- Both ends of the run are on the tape, so the sum of the amounts does not wrap around.
      have hsum : (sofar + amount).toInt = sofar.toInt + amount.toInt := by
        rw [Int64.toInt_add]
        unfold OnTape Register.lastPosition at hs htape
        rw [Snapshot.goTo_cursor] at htape
        exact Int.bmod_eq_of_le (by omega) (by omega)
      refine Effect.seq_of_done rfl ?_
      simp only [Effect.of_iff, move, act, Snapshot.move, hsum, Snapshot.goTo_cursor, Int.add_assoc]
      rfl
    · cases hrun
  | none => exact Effect.seq_of_done (effect_finish hs hrun) rfl
  | adding sofar => exact Effect.seq_of_done (effect_finish hs hrun) rfl

/-- A step that takes a run off the tape at its end leaves a run that goes off the tape. -/
private theorem exists_move_off (hs : OnTape s.cursor) (hrun : run.act s = .done t)
    (hoff : ¬ OnTape (t.cursor + 1)) : ∃ u amount,
      Program.effect (run.move 1 []).1.reverse s (.done u) ∧
        (run.move 1 []).2 = .moving amount ∧ amount ≠ 0 ∧ u.move amount.toInt = .offTape := by
  have hone : (1 : Int64).toInt = 1 := rfl
  have hstep : t.move (Int64.toInt 1) = .offTape := if_neg hoff
  cases run with
  | none => exact ⟨t, 1, effect_finish hs hrun, rfl, by decide, hstep⟩
  | adding sofar => exact ⟨t, 1, effect_finish hs hrun, rfl, by decide, hstep⟩
  | moving sofar =>
    simp only [act, Snapshot.move] at hrun
    split at hrun
    · cases hrun
      -- Also where the sum of the amounts wraps around, no cell is that far away.
      have hfar : ¬ OnTape (s.cursor + (sofar + 1).toInt) := by
        have hwrap : (sofar + 1).toInt = sofar.toInt + 1 ∨
            (sofar + 1).toInt < -Register.lastPosition := by
          have hle := sofar.le_toInt
          have hlt := sofar.toInt_lt
          rw [Int64.toInt_add, hone, Int.bmod_def]
          unfold Register.lastPosition
          omega
        unfold OnTape at *
        rw [Snapshot.goTo_cursor] at hoff
        omega
      refine ⟨s, sofar + 1, rfl, rfl, ?_, if_neg hfar⟩
      intro hzero
      rw [hzero] at hfar
      exact hfar (by simpa using hs)
    · cases hrun

/-- What a symbol adds to the nodes and to the run does what the symbol does behind the run. -/
private theorem symbol_step (b : UInt8) (hs : OnTape s.cursor) (hrun : run.act s = .done t)
    (htape : t.symbol b ≠ .offTape) :
    ((Program.effect (run.symbol b []).1.reverse).seq (.of (run.symbol b []).2.act)) s
      (t.symbol b) := by
  have hfinish := effect_finish hs hrun
  -- A symbol that is no part of a run comes behind the finished one.
  have hbehind : ∀ {node : Node} {f : Snapshot → Ending}, node.effect = Effect.of f →
      ((Program.effect (node :: run.finish []).reverse).seq (.of (Run.none.act))) s (f t) := by
    intro node f hnode
    have hskip : Effect.of Run.none.act = Effect.skip := rfl
    rw [hskip, Effect.seq_skip, List.reverse_cons, Program.effect_append]
    refine Effect.seq_of_done hfinish ?_
    simp [hnode]
  unfold Snapshot.symbol at htape ⊢
  unfold symbol
  generalize Bytes.char b = c at htape ⊢
  have hmove : ∀ amount : Int64, t.move amount.toInt ≠ .offTape →
      OnTape (t.cursor + amount.toInt) := by
    intro amount h
    by_contra hoff
    exact h (if_neg hoff)
  split
  · exact add_step 1 hs hrun
  · exact add_step (-1) hs hrun
  · exact move_step 1 hs hrun (hmove 1 htape)
  · exact move_step (-1) hs hrun (hmove (-1) htape)
  · exact hbehind (Node.effect_write 0 [])
  · exact hbehind (Node.effect_read 0 [])
  · exact hbehind (Node.effect_dump 0 [])
  · split
    all_goals first
      | contradiction
      | exact Effect.seq_of_done hfinish rfl

end Act

/-- A run keeps the cursor on the tape, or stops. -/
theorem stays_act (run : Run) : (Effect.of run.act).Stays :=
  fun _ _ => onTape_of_act

/-- A finished run does what the unfinished one did. -/
theorem act_refines_finish (run : Run) :
    (Effect.of run.act).Refines (Program.effect (run.finish [])) := by
  intro s e hs hne h
  obtain ⟨t, rfl⟩ := exists_of_act h hne
  exact finish_reverse run ▸ effect_finish hs h

/-- A symbol behind a run: the nodes that it finishes and the run that it leaves do together what
the run and the symbol do. -/
theorem act_symbol_refines (run : Run) (b : UInt8) :
    ((Effect.of run.act).seq (.of (Snapshot.symbol b))).Refines
      ((Program.effect (run.symbol b []).1.reverse).seq (.of (run.symbol b []).2.act)) := by
  rintro s e hs hne (⟨t, hrun, hsymbol⟩ | ⟨hrun, hstop⟩)
  · rw [Effect.of_iff] at hsymbol
    subst hsymbol
    exact symbol_step b hs hrun hne
  · obtain ⟨t, rfl⟩ := exists_of_act hrun hne
    exact hstop.elim

end Run

/-! ### Condensing -/

/-- A program keeps the cursor on the tape, or stops. -/
theorem Program.effect_stays : (program : List Node) → (Program.effect program).Stays
  | [] => Effect.stays_skip
  | ⟨op, amount, body⟩ :: rest => by
    refine Effect.Stays.seq ?_ (Program.effect_stays rest)
    by_cases hop : op = .loop
    · rw [Node.effect_of_loop hop]
      exact (Program.effect_stays body).loop
    · rw [Node.effect_of_ne_loop hop]
      -- Only a move takes the cursor elsewhere, and then it ends on the tape.
      intro s t hs h
      simp only [Node.act] at h
      split at h
      · cases h
        exact hs
      · exact Snapshot.read_cursor (Option.some.inj h) ▸ hs
      · exact Snapshot.onTape_of_move (Option.some.inj h)
      · cases h
        exact hs
      · cases h
        exact hs
      · cases h
        exact hs
      · cases h

namespace Source

/-- A loop around a single `-` counts its cell down to zero. -/
theorem loop_minus : Effect.loop (effects [.symbol (byte '-')]) =
    Effect.of fun s => .done (s.put 0) := by
  have hsymbol : Snapshot.symbol (byte '-') = Snapshot.add (-1) := rfl
  have hloop : ∀ s, Effect.loop (effects [.symbol (byte '-')]) s (.done (s.put 0)) := by
    intro s
    have hpass : ∀ v, v ≠ 0 → effects [.symbol (byte '-')] (s.put v) (.done (s.put (v - 1))) := by
      intro v _
      simp only [effects_cons, effects_nil, Effect.seq_skip, effect_symbol, hsymbol, Effect.of_iff,
        Snapshot.add, Snapshot.here_put, Snapshot.put_put, add_ofInt_neg_one]
    simpa using Effect.loop_countdown s.put (fun v => Snapshot.here_put s v) hpass s.here
  -- The countdown is an ending of the loop, and there is only one.
  funext s e
  refine propext ⟨fun h => ?_, fun h => ?_⟩
  · exact (effects_isFunctional _).loop (hloop s) h
  · cases h
    exact hloop s

/-- What a loop does once its body is pruned, its node does. -/
private theorem loop_refines_loopNodes {body : List Source}
    (hbody : (effects (prune body)).Refines (Program.effect (condenseFrom [] .none body))) :
    (effect (pruned (.loop body))).Refines (Program.effect (loopNodes body)) := by
  have hspace : effect (.symbol (byte ' ')) = Effect.skip := rfl
  obtain ⟨hnodes, -⟩ | ⟨hminus, hnodes⟩ | hnodes := loopNodes_cases body
  · rw [pruned_loop, if_pos hnodes, hnodes, hspace, Program.effect_nil]
    exact Effect.Refines.refl _
  · rw [pruned_loop, if_neg (by simp [hnodes]), hnodes, hminus]
    simp only [prune_cons, prune_nil, pruned_symbol, effect_loop, loop_minus, Program.effect_cons,
      Program.effect_nil, Effect.seq_skip, Node.effect_clear]
    exact Effect.Refines.refl _
  · rw [pruned_loop, if_neg (by simp [hnodes]), hnodes]
    simp only [Program.effect_cons, Program.effect_nil, Effect.seq_skip, effect_loop,
      Node.effect_loop]
    exact hbody.loop (effects_stays _)

/-- What pruned source trees do behind a run, the condensed program does. -/
theorem prune_refines_condenseFrom : (trees : List Source) → (run : Run) →
    ((Effect.of run.act).seq (effects (prune trees))).Refines
      (Program.effect (condenseFrom [] run trees))
  | [], run => by
    rw [prune_nil, effects_nil, Effect.seq_skip, condenseFrom_nil]
    exact run.act_refines_finish
  | .symbol b :: rest, run => by
    rw [prune_cons, effects_cons, pruned_symbol, effect_symbol, ← Effect.seq_assoc,
      condenseFrom_symbol, Program.effect_append]
    -- The symbol goes over from the trees to the run.
    have hrest := prune_refines_condenseFrom rest (run.symbol b []).2
    have hsymbol := run.act_symbol_refines b
    refine Effect.Refines.trans (hsymbol.seq (run.stays_act.seq (stays_symbol b))
      (Effect.Refines.refl _)) ?_
    rw [Effect.seq_assoc]
    exact (Effect.Refines.refl _).seq (Program.effect_stays _) hrest
  | .loop body :: rest, run => by
    -- A loop finishes the run, and the trees in it and behind it start without one.
    have hskip : Effect.of Run.none.act = Effect.skip := rfl
    have hbody := prune_refines_condenseFrom body .none
    have hrest := prune_refines_condenseFrom rest .none
    rw [hskip, Effect.skip_seq] at hbody hrest
    rw [prune_cons, effects_cons, condenseFrom_loop, Program.effect_append, Program.effect_append]
    refine run.act_refines_finish.seq run.stays_act ?_
    exact (loop_refines_loopNodes hbody).seq (effect_stays _) hrest

/-- A step off the tape with an addition behind it goes off the tape in the condensed program, too:
the run of moves ends there. -/
theorem condenseFrom_fall_iff {run : Run} {s t : Snapshot} {e : Ending} {rest : List Source}
    (hs : OnTape s.cursor) (hrun : run.act s = .done t) (hoff : ¬ OnTape (t.cursor + 1)) :
    Program.effect (condenseFrom [] run
      (.symbol (byte '>') :: .symbol (byte '+') :: rest)) s e ↔ e = .offTape := by
  have hright : run.symbol (byte '>') [] = run.move 1 [] := rfl
  obtain ⟨u, amount, hnodes, hmoving, hne, hfall⟩ := Run.exists_move_off hs hrun hoff
  have hplus : (Run.moving amount).symbol (byte '+') [] =
      ((Run.moving amount).finish [], .adding 1) := rfl
  rw [condenseFrom_symbol, hright, hmoving, condenseFrom_symbol, hplus, Run.finish, if_neg hne,
    Program.effect_append, (Program.effect_isFunctional _).seq_of_done_iff hnodes,
    List.reverse_singleton, List.singleton_append, Program.effect_cons, Node.effect_move,
    (Effect.isFunctional_of _).seq_of_stop_iff hfall trivial]

/-- What pruned source trees do, the condensed program does. -/
theorem prune_refines_condense (trees : List Source) :
    (effects (prune trees)).Refines (Program.effect (condense trees)) := by
  have hskip : Effect.of Run.none.act = Effect.skip := rfl
  have h := prune_refines_condenseFrom trees .none
  rwa [hskip, Effect.skip_seq] at h

/-- A loop that does nothing while its cell is not zero can only end where the cell is zero. -/
theorem loop_skip {s : Snapshot} {e : Ending} (h : Effect.loop Effect.skip s e) :
    e = .done s := by
  induction h with
  | exit hzero => rfl
  | pass hcell hpass _ ih =>
    cases hpass
    exact ih
  | stop hcell hpass hstop =>
    cases hpass
    exact hstop.elim

/-- Pruning loses no ending: a loop that condenses to nothing is left at once or never. -/
theorem effects_refines_prune : (trees : List Source) →
    (effects trees).Refines (effects (prune trees))
  | [] => Effect.Refines.refl _
  | .symbol b :: rest =>
    (Effect.Refines.refl _).seq (effect_stays _) (effects_refines_prune rest)
  | .loop body :: rest => by
    rw [prune_cons, effects_cons, effects_cons, pruned_loop]
    refine Effect.Refines.seq (effect_stays _) ?_ (effects_refines_prune rest)
    split
    · next hidle =>
      -- Without nodes the body does nothing, whenever it ends at all.
      have hbody := (effects_refines_prune body).trans (prune_refines_condense body)
      rw [condense, condenseFrom_eq_nil hidle, Program.effect_nil] at hbody
      intro s e hs hne h
      exact (loop_skip (hbody.loop (effects_stays body) hs hne h)).symm
    · exact (effects_refines_prune body).loop (effects_stays body)

/-- What a text does symbol by symbol, its condensed program does, unless the cursor leaves the
tape. -/
theorem effects_refines_condense (trees : List Source) :
    (effects trees).Refines (Program.effect (condense trees)) :=
  (effects_refines_prune trees).trans (prune_refines_condense trees)

/-- Where a text has an ending, its condensed program has no other one. -/
theorem effect_condense_iff {trees : List Source} {s : Snapshot} {e e' : Ending}
    (hs : OnTape s.cursor) (hne : e ≠ .offTape) (h : effects trees s e) :
    Program.effect (condense trees) s e' ↔ e = e' := by
  have hcondensed := effects_refines_condense trees hs hne h
  refine ⟨Program.effect_isFunctional _ hcondensed, ?_⟩
  rintro rfl
  exact hcondensed

/-- A loop separates what comes before it from what comes behind it. -/
theorem condense_append_loop (before body behind : List Source) :
    condense (before ++ .loop body :: behind) =
      condense before ++ (loopNodes body ++ condense behind) := by
  have hrun : ∀ run, condenseFrom [] run (before ++ .loop body :: behind) =
      condenseFrom [] run before ++ (loopNodes body ++ condenseFrom [] .none behind) := by
    induction before with
    | nil => exact fun run => by rw [List.nil_append, condenseFrom_loop, condenseFrom_nil]
    | cons tree rest ih =>
      intro run
      cases tree with
      | symbol b =>
        rw [List.cons_append, condenseFrom_symbol, condenseFrom_symbol, ih, List.append_assoc]
      | loop inner =>
        rw [List.cons_append, condenseFrom_loop, condenseFrom_loop, ih]
        simp only [List.append_assoc]
  exact hrun .none

/-- The node of a loop whose passes always end, and change something, has the endings of the loop
and no others. -/
theorem effect_loopNodes_iff {body : List Source} {f : Snapshot → Ending} (inv : Snapshot → Prop)
    (htape : ∀ s, inv s → OnTape s.cursor)
    (hbody : ∀ s, inv s → s.here ≠ 0 → effects body s (f s) ∧ f s ≠ .offTape)
    (hinv : ∀ s t, inv s → s.here ≠ 0 → f s = .done t → inv t)
    (hchange : ∃ s, inv s ∧ s.here ≠ 0 ∧ f s ≠ .done s) {s : Snapshot} {e : Ending} (hs : inv s) :
    Program.effect (loopNodes body) s e ↔ Effect.loop (Effect.of f) s e := by
  have hcondensed : ∀ s e, inv s → s.here ≠ 0 → (f s = e ↔ Program.effect (condense body) s e) := by
    intro s e hs hcell
    obtain ⟨hpass, hne⟩ := hbody s hs hcell
    exact (effect_condense_iff (htape s hs) hne hpass).symm
  obtain ⟨-, hempty⟩ | ⟨hminus, hnodes⟩ | hnodes := loopNodes_cases body
  -- A body without nodes would never change anything.
  · obtain ⟨busy, hbusy, hcell, hne⟩ := hchange
    refine absurd ((hcondensed busy _ hbusy hcell).mpr ?_) hne
    rw [condense, hempty]
    rfl
  · have hsource : ∀ s e, inv s → s.here ≠ 0 → (f s = e ↔ effects body s e) := by
      refine fun s e hs hcell => ⟨?_, effects_isFunctional body (hbody s hs hcell).1⟩
      rintro rfl
      exact (hbody s hs hcell).1
    have hclear : Program.effect (loopNodes body) = Effect.loop (effects body) := by
      rw [hnodes, hminus, loop_minus, Program.effect_cons, Program.effect_nil, Effect.seq_skip,
        Node.effect_clear]
    rw [hclear]
    exact (Effect.loop_congr inv hsource hinv hs).symm
  · rw [hnodes, Program.effect_cons, Program.effect_nil, Effect.seq_skip, Node.effect_loop]
    exact (Effect.loop_congr inv hcondensed hinv hs).symm

end Source

end TapeMachine
