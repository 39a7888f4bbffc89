import TapeMachine.Proofs.Condensation
import TapeMachine.Proofs.ImageRoundTrip
import TapeMachine.Proofs.RunHistory

/-!
# Running checked programs

Whatever is read from text passes the check, since condensing yields no node that it would reject.
And a checked program stays one while it is run: a loop that begins a pass puts its body in front of
the nodes still to be run, and the body of a checked loop is checked, too. So no run of it comes to
a node without a meaning.

A cursor is a signed word that is never negative. Moving adds signed words and goes on exactly if
the sum, wrapped around as the sum of words is, has not become negative.

The module introduces:

* `Source.firstFault_condense`, `Program.check_of_parse`: programs read from text pass the check;
* `Machine.cursorWord`, `Machine.move_of_neg`, `Machine.move_of_nonneg`: moves as additions of
  words;
* `Progress.IsSound`: operations that leave the cursor at a position and have a meaning;
* `Phase.IsChecked`: the phases of running a checked program (`Phase.IsChecked.step`);
* `Phase.step_of_move`: what a move does to the cursor in the course of a run.
-/

namespace TapeMachine

/-! ### Programs read from text -/

/-- Nodes in a row have no fault if neither part has one. -/
theorem Node.firstFault_append_eq_none {first second : List Node} :
    Node.firstFault (first ++ second) = none ↔
      Node.firstFault first = none ∧ Node.firstFault second = none := by
  induction first with
  | nil => simp [Node.firstFault]
  | cons node rest ih =>
    rw [List.cons_append, Node.firstFault_cons_eq_none, Node.firstFault_cons_eq_none, ih, and_assoc]

/-- A finished run has a node only if its amount is not zero. -/
theorem Node.firstFault_finish (run : Run) : Node.firstFault (run.finish []) = none := by
  cases run with
  | none => rfl
  | adding amount =>
    rw [Run.finish]
    split
    · rfl
    · next hamount => exact Node.firstFault_cons_eq_none.mpr ⟨if_neg hamount, rfl⟩
  | moving amount =>
    rw [Run.finish]
    split
    · rfl
    · next hamount => exact Node.firstFault_cons_eq_none.mpr ⟨if_neg hamount, rfl⟩

/-- A symbol finishes the run before it, or is a node of its own behind it. -/
theorem Node.firstFault_symbol (run : Run) (b : UInt8) :
    Node.firstFault (run.symbol b []).1.reverse = none := by
  have hfinish : Node.firstFault (run.finish []).reverse = none := by
    rw [Run.finish_reverse]
    exact Node.firstFault_finish run
  have hadd : ∀ amount, Node.firstFault (run.add amount []).1.reverse = none := by
    intro amount
    cases run with
    | adding sofar => rfl
    | none => exact hfinish
    | moving sofar => exact hfinish
  have hmove : ∀ amount, Node.firstFault (run.move amount []).1.reverse = none := by
    intro amount
    cases run with
    | moving sofar => rfl
    | none => exact hfinish
    | adding sofar => exact hfinish
  -- Writes, reads and dumps have no amount and no body, which is all that is asked of them.
  have hleaf : ∀ node : Node, node.fault = none →
      Node.firstFault (node :: run.finish []).reverse = none := by
    intro node hnode
    rw [List.reverse_cons, Node.firstFault_append_eq_none, Node.firstFault_cons_eq_none]
    exact ⟨hfinish, hnode, rfl⟩
  unfold Run.symbol
  split
  · exact hadd 1
  · exact hadd (-1)
  · exact hmove 1
  · exact hmove (-1)
  · exact hleaf _ rfl
  · exact hleaf _ rfl
  · exact hleaf _ rfl
  · exact hfinish

namespace Source

/-- Condensing yields well-formed nodes only; a loop around nothing has no node. -/
theorem firstFault_condenseFrom : (trees : List Source) → (run : Run) →
    Node.firstFault (condenseFrom [] run trees) = none
  | [], run => by
    rw [condenseFrom_nil]
    exact Node.firstFault_finish run
  | .symbol b :: rest, run => by
    rw [condenseFrom_symbol, Node.firstFault_append_eq_none]
    exact ⟨Node.firstFault_symbol run b, firstFault_condenseFrom rest _⟩
  | .loop body :: rest, run => by
    have hbody := firstFault_condenseFrom body .none
    rw [condenseFrom_loop, Node.firstFault_append_eq_none, Node.firstFault_append_eq_none]
    refine ⟨Node.firstFault_finish run, ?_, firstFault_condenseFrom rest .none⟩
    rw [loopNodes]
    split
    · rfl
    · cases hnodes : condenseFrom [] .none body with
      | nil => rfl
      -- A loop with a node has a body, which is without a fault by induction.
      | cons node nodes =>
        rw [hnodes] at hbody
        exact Node.firstFault_cons_eq_none.mpr ⟨hbody, rfl⟩

/-- What is condensed from source trees has no fault. -/
theorem firstFault_condense (trees : List Source) : Node.firstFault (condense trees) = none :=
  firstFault_condenseFrom trees .none

end Source

/-- Programs read from text pass the check. -/
theorem Program.check_of_parse {text : Bytes} {program : Program}
    (h : Program.parse text = .ok program) : program.check = .ok () := by
  rw [Program.parse] at h
  cases htrees : Source.ofText text with
  | error fault =>
    rw [htrees] at h
    cases h
  | ok trees =>
    rw [htrees] at h
    cases h
    exact Program.check_eq_ok_iff.mpr (Source.firstFault_condense trees)

/-- Stored programs pass the check when they are restored. -/
theorem Image.check_of_decode {contents : Bytes} {program : Program}
    (h : Image.decode contents = .ok program) : program.check = .ok () := by
  unfold Image.decode at h
  split at h
  · cases h
  · split at h
    · split at h
      · cases h
      · next hcheck =>
        cases h
        exact hcheck
    · cases h

/-! ### Moves -/

namespace Machine

/-- The cursor as a signed word. -/
def cursorWord (m : Machine) : Int64 :=
  Int64.ofNat m.cursor

/-- The cursor fits into a word as long as it is on the tape. -/
theorem toInt_cursorWord {m : Machine} (h : m.cursor ≤ Register.lastPosition) :
    m.cursorWord.toInt = m.cursor := by
  rw [Register.lastPosition] at h
  rw [cursorWord, Int64.toInt_ofNat_of_lt (by omega)]

/-- The sum of words is the sum of what they stand for, unless this leaves the positions: then it is
negative. -/
private theorem cursorWord_add {m : Machine} (h : m.cursor ≤ Register.lastPosition)
    (amount : Int64) :
    (0 ≤ m.cursorWord + amount ∧ (m.cursorWord + amount).toInt = m.cursor + amount.toInt ∧
        0 ≤ (m.cursor : Int) + amount.toInt ∧
        ((m.cursor : Int) + amount.toInt).toNat ≤ Register.lastPosition) ∨
      (m.cursorWord + amount < 0 ∧ ¬ (0 ≤ (m.cursor : Int) + amount.toInt ∧
        ((m.cursor : Int) + amount.toInt).toNat ≤ Register.lastPosition)) := by
  have hsum := Int64.toInt_add m.cursorWord amount
  rw [toInt_cursorWord h] at hsum
  have hlow := amount.le_toInt
  have hhigh := amount.toInt_lt
  rw [Int64.le_iff_toInt_le, Int64.lt_iff_toInt_lt, hsum, Int64.toInt_zero]
  rw [Register.lastPosition] at h ⊢
  rw [Int.bmod_def]
  omega

/-- A move goes to the sum of the words if that is not negative. -/
theorem move_of_nonneg {m : Machine} (h : m.cursor ≤ Register.lastPosition) {amount : Int64}
    (hsum : 0 ≤ m.cursorWord + amount) :
    ∃ m', m.move amount = .next () m' ∧ m'.cursor ≤ Register.lastPosition ∧
      m'.cursorWord = m.cursorWord + amount := by
  obtain ⟨-, htoInt, htarget⟩ | ⟨hneg, -⟩ := cursorWord_add h amount
  · refine ⟨_, if_pos htarget, htarget.2, Int64.toInt_inj.mp ?_⟩
    rw [toInt_cursorWord htarget.2, htoInt]
    exact Int.toNat_of_nonneg htarget.1
  · exact absurd hsum (Int64.not_le.mpr hneg)

/-- A move to a negative word is none: the run stops where it is. -/
theorem move_of_neg {m : Machine} (h : m.cursor ≤ Register.lastPosition) {amount : Int64}
    (hsum : m.cursorWord + amount < 0) : m.move amount = .stop (.underflow m.cursor amount) m := by
  obtain ⟨hnonneg, -⟩ | ⟨-, htarget⟩ := cursorWord_add h amount
  · exact absurd hsum (Int64.not_lt.mpr hnonneg)
  · exact if_neg htarget

end Machine

/-! ### Operations -/

/-- Whether an operation leaves the cursor at a position and, if it stops, does so for a reason
other than a missing meaning. -/
structure Progress.IsSound {α : Type} (progress : Progress α) : Prop where
  /-- The cursor is at a position. -/
  cursor : progress.machine.cursor ≤ Register.lastPosition
  /-- There is another reason for a stop. -/
  cause : ∀ op m, progress ≠ .stop (.unknownOp op) m

namespace Progress

variable {α β : Type}

/-- Going on is sound with the cursor on the tape. -/
theorem isSound_next {value : α} {m : Machine} (h : m.cursor ≤ Register.lastPosition) :
    (Progress.next value m).IsSound :=
  ⟨h, fun _ _ hstop => by cases hstop⟩

/-- Stopping is sound with the cursor on the tape, for any other cause than an unknown operation. -/
theorem isSound_stop {cause : Stop} {m : Machine} (h : m.cursor ≤ Register.lastPosition)
    (hcause : ∀ op, cause ≠ .unknownOp op) : (Progress.stop cause m : Progress α).IsSound := by
  refine ⟨h, fun op m' hstop => hcause op ?_⟩
  rw [Progress.stop.injEq] at hstop
  exact hstop.1

/-- Sound operations one after another are sound. -/
theorem IsSound.andThen {progress : Progress α} {goOn : α → Machine → Progress β}
    (h : progress.IsSound)
    (hgoOn : ∀ value m, m.cursor ≤ Register.lastPosition → (goOn value m).IsSound) :
    (progress.andThen goOn).IsSound := by
  cases progress with
  | next value m => exact hgoOn value m h.cursor
  | stop cause m => exact isSound_stop h.cursor fun op hop => h.cause op m (by rw [hop])

end Progress

namespace Machine

open Progress

variable {m : Machine} (h : m.cursor ≤ Register.lastPosition)
include h

/-- Tracing keeps the cursor on the tape. -/
private theorem trace_onTape (event : Event) : (m.trace event).cursor ≤ Register.lastPosition := by
  rwa [trace_cursor]

/-- A load is sound. -/
theorem load_isSound : m.load.IsSound := by
  unfold load
  split
  · next fault _ => exact isSound_stop h fun op hop => by cases fault <;> cases hop
  · exact isSound_next h

/-- A store is sound. -/
theorem store_isSound (value : UInt8) : (m.store value).IsSound := by
  unfold store
  split
  · next fault _ => exact isSound_stop h fun op hop => by cases fault <;> cases hop
  · exact isSound_next (by rwa [trace_cursor])

/-- A move is sound by any amount, as it stops where it would leave the tape. -/
theorem move_isSound (amount : Int64) : (m.move amount).IsSound := by
  by_cases hsum : 0 ≤ m.cursorWord + amount
  · obtain ⟨m', hmove, hcursor, -⟩ := move_of_nonneg h hsum
    rw [hmove]
    exact isSound_next hcursor
  · rw [move_of_neg h (Int64.not_le.mp hsum)]
    exact isSound_stop h fun op hop => by cases hop

/-- An addition is sound. -/
theorem add_isSound (amount : Int64) : (m.add amount).IsSound := by
  rw [add_eq]
  exact (load_isSound h).andThen fun value m' h' => store_isSound h' _

/-- Writing a byte is sound. -/
theorem writeByte_isSound (b : UInt8) : (m.writeByte b).IsSound := by
  simp only [writeByte]
  split
  · exact isSound_stop (trace_onTape h _) fun op hop => by cases hop
  · exact isSound_next (trace_onTape h _)

/-- A write is sound. -/
theorem write_isSound : m.write.IsSound := by
  rw [write_eq]
  exact (load_isSound h).andThen fun value m' h' => writeByte_isSound h' value

/-- Reading a byte from the input is sound. -/
theorem readVisible_isSound : m.readVisible.IsSound := by
  -- Each byte that is skipped is traced, and tracing keeps the cursor.
  fun_induction readVisible m with
  | case1 m fault input hread => exact isSound_stop h fun op hop => by cases hop
  | case2 m b input hread hcontrol ih => exact ih (by rwa [trace_cursor])
  | case3 m b input hread hvisible => exact isSound_next (by rwa [trace_cursor])

/-- A read is sound. -/
theorem read_isSound : m.read.IsSound := by
  rw [read_eq]
  refine Progress.IsSound.andThen ?_ fun b m' h' => store_isSound h' b
  simp only [fetch]
  split
  · exact isSound_stop h fun op hop => by cases hop
  · exact readVisible_isSound h

/-- Dumping the status is sound. -/
theorem dumpStatus_isSound : m.dumpStatus.IsSound := by
  have htraced : m.traceStatus.cursor ≤ Register.lastPosition :=
    traceStatus_induction (p := (·.cursor ≤ Register.lastPosition)) m h fun m' event h' =>
      trace_onTape h' event
  rw [dumpStatus_eq]
  dsimp only
  split
  · exact isSound_stop htraced fun op hop => by cases hop
  · exact isSound_next htraced

/-- Counting passes is sound. -/
theorem tick_isSound (patience : Patience) : (m.tick patience).IsSound := by
  simp only [tick]
  split
  · split
    · exact isSound_stop h fun op hop => by cases hop
    · exact isSound_next h
  · exact isSound_next h

/-- A well-formed node that is no loop has a meaning. -/
theorem perform_isSound {node : Node} (hfault : node.fault = none) (hop : node.op ≠ .loop) :
    (m.perform node).IsSound := by
  obtain ⟨op, amount, body⟩ := node
  have hleaf : Node.leafFault op amount (!body.isEmpty) = none := by
    rw [Node.fault] at hfault
    · exact hfault
    · exact hop
  unfold perform
  split
  · exact write_isSound h
  · exact read_isSound h
  · exact move_isSound h _
  · exact add_isSound h _
  · exact store_isSound h 0
  · exact dumpStatus_isSound h
  · next hwrite hread hmove hadd hclear hdump =>
    -- The check would have reported the node.
    rw [Node.leafFault] at hleaf
    · cases hleaf
    all_goals assumption

end Machine

/-! ### Runs -/

/-- Whether a phase is one of running a checked program: the nodes still to be run are well formed,
the cursor is at a position, and if the run has stopped it was not for a missing meaning. -/
def Phase.IsChecked : Phase → Prop
  | .running todo m => Node.firstFault todo = none ∧ m.cursor ≤ Register.lastPosition
  | .finished m => m.cursor ≤ Register.lastPosition
  | .stopped cause m => (∀ op, cause ≠ .unknownOp op) ∧ m.cursor ≤ Register.lastPosition

/-- A sound operation leads to a checked phase, if all that it goes on with is checked. -/
theorem Progress.IsSound.isChecked {α : Type} {progress : Progress α} {goOn : α → Machine → Phase}
    (h : progress.IsSound)
    (hgoOn : ∀ value m, m.cursor ≤ Register.lastPosition → (goOn value m).IsChecked) :
    (progress.phase goOn).IsChecked := by
  cases progress with
  | next value m => exact hgoOn value m h.cursor
  | stop cause m => exact ⟨fun op hop => h.cause op m (by rw [hop]), h.cursor⟩

namespace Phase

variable {phase : Phase} (patience : Patience)

/-- The cursor of a checked phase is on the tape. -/
theorem IsChecked.cursor (h : phase.IsChecked) : phase.machine.cursor ≤ Register.lastPosition := by
  cases phase with
  | running todo m => exact h.2
  | finished m => exact h
  | stopped cause m => exact h.2

/-- A step leads from one such phase to another. -/
theorem IsChecked.step (h : phase.IsChecked) : (phase.step patience).IsChecked := by
  cases phase with
  | finished m => exact h
  | stopped cause m => exact h
  | running todo m =>
    obtain ⟨hfault, hcursor⟩ := h
    cases todo with
    | nil => exact hcursor
    | cons node rest =>
      obtain ⟨hnode, hrest⟩ := Node.firstFault_cons_eq_none.mp hfault
      by_cases hop : node.op = .loop
      · rw [step_of_loop patience hop]
        refine (Machine.load_isSound hcursor).isChecked fun value m₁ h₁ => ?_
        split
        · exact ⟨hrest, h₁⟩
        · refine (Machine.tick_isSound h₁ patience).isChecked fun _ m₂ h₂ => ⟨?_, h₂⟩
          -- The body comes in front of the loop, and both are well formed.
          have hbody : Node.firstFault node.body = none := by
            obtain ⟨op, amount, body⟩ := node
            obtain ⟨-, -, hbody⟩ | ⟨hne, -⟩ := Node.body_of_fault_eq_none hnode
            · exact hbody
            · exact absurd hop hne
          exact Node.firstFault_append_eq_none.mpr ⟨hbody, hfault⟩
      · rw [step_of_ne_loop patience hop]
        exact (Machine.perform_isSound hcursor hnode hop).isChecked fun _ m₁ h₁ => ⟨hrest, h₁⟩

/-- A step that is a move adds words, and stops the run where it is if the sum is negative. -/
theorem step_of_move {node : Node} (hop : node.op = .move) (rest : List Node) {m : Machine}
    (hcursor : m.cursor ≤ Register.lastPosition) :
    if 0 ≤ m.cursorWord + node.amount then
      ∃ m', step patience (.running (node :: rest) m) = .running rest m' ∧
        m'.cursorWord = m.cursorWord + node.amount
    else step patience (.running (node :: rest) m) =
      .stopped (.underflow m.cursor node.amount) m := by
  have hstep : step patience (.running (node :: rest) m) =
      (m.move node.amount).phase fun _ m => .running rest m := by
    rw [step_of_ne_loop patience (by rw [hop]; decide), Machine.perform, hop]
    rfl
  rw [hstep]
  split
  · next hsum =>
    obtain ⟨m', hmove, -, hword⟩ := Machine.move_of_nonneg hcursor hsum
    exact ⟨m', by rw [hmove, Progress.phase_next], hword⟩
  · next hsum =>
    rw [Machine.move_of_neg hcursor (Int64.not_le.mp hsum)]
    rfl

/-- What the run of a checked program comes to, step by step. -/
theorem IsChecked.after (h : phase.IsChecked) (t : Nat) : (phase.after patience t).IsChecked := by
  induction t with
  | zero => exact h
  | succ t ih =>
    rw [after_succ]
    exact ih.step patience

end Phase

end TapeMachine
