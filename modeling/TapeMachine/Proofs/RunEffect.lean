import TapeMachine.Proofs.TapeLimit
import TapeMachine.Proofs.Timeline

/-!
# The effect of a run on any machine

`Machine.effect_of_exec` tells what a run leads to where nothing hinders the machine. Here nothing
is asked of the machine: readers and writers may fail, the tape may have a limit, the run may be
interrupted. Where a run gets past some nodes nevertheless, it has done to the cells what the nodes
say, for the bytes that it happened to read.

The module introduces:

* `Machine.seen`: the cells of a machine with an input and an output of one's choice;
* `Machine.Follows`: a machine got from another one as an effect says;
* `Phase.follows_of_after`: a run to the end of its nodes has their effect;
* `Phase.exists_completed`: a run gets to what is behind some nodes only by way of their end;
* `Phase.visits_invariant`: what every pass of a loop keeps holds whenever the loop is about to test
  its cell.
-/

namespace TapeMachine

namespace Machine

/-- What a program sees of a machine, but for the input and the output. -/
def seen (m : Machine) (input output : Bytes) : Snapshot where
  cursor := m.cursor
  cells pos := if pos < 0 then 0 else m.tape.peek pos.toNat
  input := input
  output := output

/-- Whether a machine got from another one as an effect says, given the bytes that were read and
written on the way. -/
def Follows (effect : Effect) (m m' : Machine) : Prop :=
  ∃ read written : Bytes, ∀ input output : Bytes,
    effect (m.seen (read ++ input) output) (.done (m'.seen input (output ++ written)))

variable {m m' m'' : Machine} {input output : Bytes}

/-- The cell under the cursor is seen. -/
theorem here_seen : (m.seen input output).here = m.tape.peek m.cursor := by
  have hcursor : ¬ (m.cursor : Int) < 0 := by omega
  simp [Snapshot.here, seen, hcursor]

/-- Nothing but the cells and the cursor is seen. -/
theorem seen_congr (hcursor : m'.cursor = m.cursor)
    (htape : ∀ pos, m'.tape.peek pos = m.tape.peek pos) :
    m'.seen input output = m.seen input output := by
  simp only [seen, hcursor, htape]

/-- Two runs in a row follow two effects in a row. -/
theorem Follows.seq {first second : Effect} (h : Follows first m m') (h' : Follows second m' m'') :
    Follows (first.seq second) m m'' := by
  -- The first part is given the input of the second one too, and leaves it.
  obtain ⟨read, written, hfirst⟩ := h
  obtain ⟨read', written', hsecond⟩ := h'
  refine ⟨read ++ read', written ++ written', fun input output => ?_⟩
  have hbefore := hfirst (read' ++ input) output
  have hbehind := hsecond input (output ++ written)
  rw [← List.append_assoc] at hbefore
  rw [List.append_assoc] at hbehind
  exact Effect.seq_of_done hbefore hbehind

/-- What leaves the streams alone. -/
theorem Follows.of_silent {f : Snapshot → Ending}
    (h : ∀ input output, f (m.seen input output) = .done (m'.seen input output)) :
    Follows (Effect.of f) m m' :=
  ⟨[], [], fun input output => by rw [List.append_nil]; exact h input output⟩

/-! ### Operations -/

/-- A load tells the cell under the cursor, and nothing changes. -/
theorem seen_of_load {value : UInt8} (h : m.load = .next value m') :
    value = m.tape.peek m.cursor ∧ m'.seen input output = m.seen input output := by
  unfold load at h
  split at h
  · cases h
  · cases h
    exact ⟨rfl, seen_congr rfl (Tape.peek_touch m.tape m.cursor)⟩

/-- A tick is not seen. -/
theorem seen_of_tick {patience : Patience} (h : m.tick patience = .next () m') :
    m'.seen input output = m.seen input output := by
  simp only [tick] at h
  split at h
  · split at h
    · cases h
    · cases h
      rfl
  · cases h
    rfl

/-- Tracing is not seen. -/
theorem seen_trace (m : Machine) (event : Event) :
    (m.trace event).seen input output = m.seen input output :=
  seen_congr (trace_cursor m event) fun _ => by rw [trace_tape]

/-- A store is seen as putting the `value`. -/
theorem seen_of_store {value : UInt8} (h : m.store value = .next () m') :
    m'.seen input output = (m.seen input output).put value := by
  unfold store at h
  split at h
  · cases h
  cases h
  rw [seen_trace]
  refine Snapshot.ext rfl ?_ rfl rfl
  funext pos
  rw [Snapshot.put, Snapshot.set_cells, Function.update_apply]
  exact m.tape.peek_toNat_record m.cursor value pos

/-- What is written is not seen in the machine itself. -/
theorem seen_of_writeByte {b : UInt8} (h : m.writeByte b = .next () m') :
    m'.seen input output = m.seen input output := by
  simp only [writeByte] at h
  split at h
  · cases h
  · cases h
    exact seen_trace m (.wrote b)

/-- What is read is no control, and reading it changes no cell. -/
theorem seen_of_fetch {b : UInt8} (h : m.fetch = .next b m') :
    ¬ b < 0x20 ∧ m'.seen input output = m.seen input output := by
  -- Controls are skipped before a byte is given.
  have hvisible : ∀ m : Machine, ∀ b m', m.readVisible = .next b m' → ¬ b < 0x20 := by
    intro m
    fun_induction readVisible m with
    | case1 m fault input hread =>
      intro b m' h
      cases h
    | case2 m b input hread hcontrol ih => exact ih
    | case3 m b input hread hnot =>
      intro c m' h
      cases h
      exact hnot
  obtain ⟨htape, hcursor⟩ := m.fetch_tape
  rw [h] at htape hcursor
  refine ⟨?_, seen_congr hcursor fun pos => congrArg (Tape.peek · pos) htape⟩
  simp only [fetch] at h
  split at h
  · cases h
  · exact hvisible _ b m' h

/-- A dump is not seen. -/
theorem seen_of_dumpStatus (h : m.dumpStatus = .next () m') :
    m'.seen input output = m.seen input output := by
  have htrace : m.traceStatus.seen input output = m.seen input output :=
    @traceStatus_induction (fun m' => m'.seen input output = m.seen input output) m rfl
      fun m' event h => (m'.seen_trace event).trans h
  rw [dumpStatus_eq] at h
  dsimp only at h
  split at h
  · cases h
  · cases h
    exact htrace

/-- Two operations go on only if each of them does. -/
theorem Progress.andThen_eq_next {α β : Type} {progress : Progress α}
    {goOn : α → Machine → Progress β} {value : β} (h : progress.andThen goOn = .next value m') :
    ∃ first m₁, progress = .next first m₁ ∧ goOn first m₁ = .next value m' := by
  cases progress with
  | next first m₁ => exact ⟨first, m₁, rfl, h⟩
  | stop cause m₁ => cases h

/-- An addition follows its effect. -/
theorem follows_add {amount : Int64} (h : m.add amount = .next () m') :
    Follows (Effect.of (Snapshot.add amount.toInt)) m m' := by
  rw [add_eq] at h
  obtain ⟨value, m₁, hload, hstore⟩ := Progress.andThen_eq_next h
  refine Follows.of_silent fun input output => ?_
  obtain ⟨rfl, hseen⟩ := @seen_of_load m m₁ input output value hload
  rw [seen_of_store hstore, hseen, Snapshot.add, here_seen]

/-- A write follows its effect. -/
theorem follows_write (h : m.write = .next () m') : Follows (Effect.of Snapshot.write) m m' := by
  rw [write_eq] at h
  obtain ⟨value, m₁, hload, hwrite⟩ := Progress.andThen_eq_next h
  refine ⟨[], [value], fun input output => ?_⟩
  obtain ⟨rfl, -⟩ := @seen_of_load m m₁ input output value hload
  have hseen : ∀ output, m'.seen input output = m.seen input output := fun output =>
    (seen_of_writeByte hwrite).trans (seen_of_load hload).2
  rw [hseen]
  exact congrArg (fun b => Ending.done ((m.seen input output).emit [b])) here_seen

/-- A read follows its effect. -/
theorem follows_read (h : m.read = .next () m') : Follows (Effect.of Snapshot.read) m m' := by
  rw [read_eq] at h
  obtain ⟨b, m₁, hfetch, hstore⟩ := Progress.andThen_eq_next h
  -- The byte read is the whole input that the effect needs: what was skipped is left out.
  refine ⟨[b], [], fun input output => ?_⟩
  obtain ⟨hvisible, hseen⟩ := @seen_of_fetch m m₁ input output b hfetch
  rw [List.append_nil, seen_of_store hstore, hseen, Effect.of_iff, Snapshot.read]
  have hnext : nextVisible (m.seen ([b] ++ input) output).input = some (b, input) :=
    if_neg hvisible
  rw [hnext]
  rfl

/-- A move follows its effect. -/
theorem follows_move {amount : Int64} (h : m.move amount = .next () m') :
    Follows (Effect.of (Snapshot.move amount.toInt)) m m' := by
  simp only [move] at h
  split at h
  case isFalse => cases h
  case isTrue htarget =>
  cases h
  refine Follows.of_silent fun input output => ?_
  have honTape : OnTape ((m.cursor : Int) + amount.toInt) := ⟨htarget.1, by omega⟩
  refine (if_pos honTape).trans (congrArg Ending.done ?_)
  refine Snapshot.ext (Int.toNat_of_nonneg htarget.1).symm ?_ rfl rfl
  simp only [seen, Snapshot.goTo_cells, trace_tape]

/-- A node that is no loop does what it says, if the run goes on behind it. -/
theorem follows_perform {node : Node} (h : m.perform node = .next () m') :
    Follows node.effect m m' := by
  obtain ⟨op, amount, body⟩ := node
  unfold perform at h
  split at h
  · next hop =>
    obtain rfl : op = .write := hop
    exact Node.effect_write amount body ▸ follows_write h
  · next hop =>
    obtain rfl : op = .read := hop
    exact Node.effect_read amount body ▸ follows_read h
  · next hop =>
    obtain rfl : op = .move := hop
    exact Node.effect_move amount body ▸ follows_move h
  · next hop =>
    obtain rfl : op = .add := hop
    exact Node.effect_add amount body ▸ follows_add h
  · next hop =>
    obtain rfl : op = .clear := hop
    exact Node.effect_clear amount body ▸ Follows.of_silent fun _ _ =>
      congrArg Ending.done (seen_of_store h).symm
  · next hop =>
    obtain rfl : op = .dump := hop
    exact Node.effect_dump amount body ▸ Follows.of_silent fun _ _ =>
      congrArg Ending.done (seen_of_dumpStatus h).symm
  · cases h

/-! ### Runs -/

/-- A loop that is left. -/
theorem Follows.exit {body rest : Effect} (hzero : m.tape.peek m.cursor = 0)
    (h : Follows rest m m') : Follows ((Effect.loop body).seq rest) m m' := by
  obtain ⟨read, written, hrest⟩ := h
  exact ⟨read, written, fun input output =>
    Effect.seq_of_done (.exit (here_seen.trans hzero)) (hrest input output)⟩

/-- A loop that begins a pass. -/
theorem Follows.pass {body rest : Effect} (hcell : m.tape.peek m.cursor ≠ 0)
    (h : Follows (body.seq ((Effect.loop body).seq rest)) m m') :
    Follows ((Effect.loop body).seq rest) m m' := by
  obtain ⟨read, written, hfollows⟩ := h
  refine ⟨read, written, fun input output => ?_⟩
  obtain ⟨s, hpass, hbehind⟩ := Effect.seq_done_iff.mp (hfollows input output)
  obtain ⟨t, hmore, hrest⟩ := Effect.seq_done_iff.mp hbehind
  exact Effect.seq_of_done (.pass (mt here_seen.symm.trans hcell) hpass hmore) hrest

/-- A run may begin with any machine that looks the same. -/
theorem Follows.of_seen {effect : Effect} (h : Follows effect m' m'')
    (hseen : ∀ input output, m'.seen input output = m.seen input output) :
    Follows effect m m'' := by
  obtain ⟨read, written, heffect⟩ := h
  exact ⟨read, written, fun input output => hseen _ _ ▸ heffect input output⟩

end Machine

namespace Phase

variable {patience : Patience} {nodes rest todo : List Node} {node : Node} {m m' : Machine}
  {t : Nat}

/-- A phase that leads to a running one is not over. -/
theorem not_isOver_of_after {phase : Phase} (h : phase.after patience t = .running todo m) :
    ¬ phase.IsOver := by
  intro hover
  rw [after_of_isOver patience hover] at h
  rw [h] at hover
  exact hover

/-- How a run goes on behind a node that is no loop. -/
theorem after_of_ne_loop (hop : node.op ≠ .loop)
    (h : (running (node :: rest) m).after patience (t + 1) = .running todo m') :
    ∃ m₁, m.perform node = .next () m₁ ∧ (running rest m₁).after patience t = .running todo m' := by
  rw [← after_step, step_of_ne_loop patience hop] at h
  cases hperform : m.perform node with
  | stop cause m₁ =>
    rw [hperform] at h
    exact (not_isOver_of_after h trivial).elim
  | next _ m₁ =>
    rw [hperform] at h
    exact ⟨m₁, rfl, h⟩

/-- How a run goes on from a loop: behind it if the cell is zero, and with a pass if it is not.
Testing the cell changes none. -/
theorem after_of_loop (hop : node.op = .loop)
    (h : (running (node :: rest) m).after patience (t + 1) = .running todo m') :
    ∃ m₁, (∀ input output, m₁.seen input output = m.seen input output) ∧
      ((m.tape.peek m.cursor = 0 ∧ (running rest m₁).after patience t = .running todo m') ∨
        (m.tape.peek m.cursor ≠ 0 ∧
          (running (node.body ++ node :: rest) m₁).after patience t = .running todo m')) := by
  -- A load or a tick that stops would be over, but the phase after it is running.
  rw [← after_step, step_of_loop patience hop] at h
  cases hload : m.load with
  | stop cause m₁ =>
    rw [hload] at h
    exact (not_isOver_of_after h trivial).elim
  | next value m₁ =>
    rw [hload, Progress.phase_next] at h
    obtain ⟨rfl, -⟩ := @Machine.seen_of_load m m₁ [] [] value hload
    have hseen₁ : ∀ input output, m₁.seen input output = m.seen input output :=
      fun _ _ => (Machine.seen_of_load hload).2
    split at h
    · next hzero => exact ⟨m₁, hseen₁, Or.inl ⟨hzero, h⟩⟩
    · next hcell =>
      cases htick : m₁.tick patience with
      | stop cause m₂ =>
        rw [htick] at h
        exact (not_isOver_of_after h trivial).elim
      | next _ m₂ =>
        rw [htick] at h
        have hseen₂ : ∀ input output, m₂.seen input output = m.seen input output :=
          fun input output => (Machine.seen_of_tick htick).trans (hseen₁ input output)
        exact ⟨m₂, hseen₂, Or.inr ⟨hcell, h⟩⟩

/-- A run to the end of its nodes has done what they say, whatever the machine. -/
theorem follows_of_after (h : (running nodes m).after patience t = .running [] m') :
    Machine.Follows (Program.effect nodes) m m' := by
  induction t generalizing nodes m with
  | zero =>
    obtain ⟨rfl, rfl⟩ := Phase.running.inj h
    exact .of_silent fun _ _ => rfl
  | succ t ih =>
    cases nodes with
    | nil =>
      rw [← after_step] at h
      exact (not_isOver_of_after h trivial).elim
    | cons node rest =>
      rw [Program.effect_cons]
      by_cases hop : node.op = .loop
      · rw [Node.effect_of_loop hop]
        obtain ⟨m₁, hseen, ⟨hzero, hrest⟩ | ⟨hcell, hpass⟩⟩ := after_of_loop hop h
        · exact .exit hzero ((ih hrest).of_seen hseen)
        · -- The nodes of the pass and the loop behind them are run to the end in fewer steps.
          have hfollows := (ih hpass).of_seen hseen
          rw [Program.effect_append, Program.effect_cons, Node.effect_of_loop hop] at hfollows
          exact .pass hcell hfollows
      · obtain ⟨m₁, hperform, hrest⟩ := after_of_ne_loop hop h
        exact (Machine.follows_perform hperform).seq (ih hrest)

/-- The phase with more nodes to be run in the end. -/
def append (rest : List Node) : Phase → Phase
  | .running todo m => .running (todo ++ rest) m
  | phase => phase

/-- A step does not depend on the nodes to be run in the end. -/
theorem step_append (patience : Patience) (node : Node) (nodes rest : List Node) (m : Machine) :
    step patience (.running (node :: (nodes ++ rest)) m) =
      (step patience (.running (node :: nodes) m)).append rest := by
  by_cases hop : node.op = .loop
  · rw [step_of_loop patience hop, step_of_loop patience hop]
    cases m.load with
    | stop cause m₁ => rfl
    | next value m₁ =>
      rw [Progress.phase_next, Progress.phase_next]
      split
      · rfl
      · cases m₁.tick patience with
        | stop cause m₂ => rfl
        | next _ m₂ =>
          rw [Progress.phase_next, Progress.phase_next, append, List.append_assoc, List.cons_append]
  · rw [step_of_ne_loop patience hop, step_of_ne_loop patience hop]
    cases m.perform node <;> rfl

/-- A run gets to what is behind some nodes only by way of their end. -/
theorem exists_completed (h : (running (nodes ++ rest) m).after patience t = .running rest m') :
    ∃ s ≤ t, ∃ m₁, (running nodes m).after patience s = .running [] m₁ ∧
      (running rest m₁).after patience (t - s) = .running rest m' := by
  induction t generalizing nodes m with
  | zero =>
    obtain ⟨hnodes, rfl⟩ := Phase.running.inj h
    obtain rfl : nodes = [] := by simpa using hnodes
    exact ⟨0, Nat.le_refl 0, m, rfl, rfl⟩
  | succ t ih =>
    cases nodes with
    | nil => exact ⟨0, Nat.zero_le _, m, rfl, h⟩
    | cons node nodes =>
      -- The first step is the same without the nodes behind.
      rw [← after_step, List.cons_append, step_append] at h
      cases hstep : step patience (running (node :: nodes) m) with
      | running todo m₁ =>
        rw [hstep] at h
        obtain ⟨s, hle, m₂, hend, hthen⟩ := ih h
        refine ⟨s + 1, Nat.succ_le_succ hle, m₂, ?_, ?_⟩
        · rw [← after_step, hstep, hend]
        · rwa [Nat.succ_sub_succ]
      | finished m₁ =>
        rw [hstep] at h
        exact (not_isOver_of_after h trivial).elim
      | stopped cause m₁ =>
        rw [hstep] at h
        exact (not_isOver_of_after h trivial).elim

/-- Nodes without loops are taken off one by one. -/
theorem suffix_of_after (hnodes : ∀ node ∈ nodes, node.op ≠ .loop)
    (h : (running nodes m).after patience t = .running todo m') : todo <:+ nodes := by
  induction t generalizing nodes m with
  | zero =>
    obtain ⟨rfl, -⟩ := Phase.running.inj h
    exact List.suffix_refl _
  | succ t ih =>
    cases nodes with
    | nil =>
      rw [← after_step] at h
      exact (not_isOver_of_after h trivial).elim
    | cons node nodes =>
      obtain ⟨hop, hrest⟩ := List.forall_mem_cons.mp hnodes
      obtain ⟨m₁, -, h₁⟩ := after_of_ne_loop hop h
      exact (ih hrest h₁).trans (List.suffix_cons node nodes)

/-- What every pass of a loop keeps holds whenever the loop is about to test its cell, if no loop
follows it. -/
theorem visits_invariant (inv : Machine → Prop) (hop : node.op = .loop)
    (hrest : ∀ node ∈ rest, node.op ≠ .loop)
    (hpass : ∀ m m' : Machine, inv m → m.tape.peek m.cursor ≠ 0 →
      Machine.Follows (Program.effect node.body) m m' → inv m')
    (hm : inv m) (h : (running (node :: rest) m).after patience t = .running (node :: rest) m') :
    inv m' := by
  -- A visit is the first one, or follows a pass that began at an earlier one.
  induction t using Nat.strongRecOn generalizing m with
  | ind t ih =>
  cases t with
  | zero =>
    obtain ⟨-, rfl⟩ := Phase.running.inj h
    exact hm
  | succ t =>
    obtain ⟨m₁, hseen, ⟨-, hleft⟩ | ⟨hcell, hbegun⟩⟩ := after_of_loop hop h
    · -- The loop is left, and nothing leads back to it.
      have hlength := (suffix_of_after hrest hleft).length_le
      rw [List.length_cons] at hlength
      omega
    · obtain ⟨s, hle, m₂, hend, hthen⟩ := exists_completed hbegun
      have hbody := (follows_of_after hend).of_seen hseen
      exact ih (t - s) (by omega) (hpass m m₂ hm hcell hbody) hthen

end Phase

end TapeMachine
