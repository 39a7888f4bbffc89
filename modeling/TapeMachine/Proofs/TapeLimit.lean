import TapeMachine.Proofs.RunHistory

/-!
# Runs on a limited tape

A limit matters only where a cell is accessed. As long as no access goes to the limit or beyond, a
run with the limit is step by step the run without one; and the first access that does stops it,
whatever the run without a limit does then.

The module introduces:

* `Tape.withLimit`, `Machine.withLimit`, `Phase.withLimit`: the same with another limit;
* `Machine.accesses`, `Runner.accesses`: the accesses that a step, and a run, makes to the tape;
* `Phase.step_withLimit`, `Phase.step_of_le`: a step with a limit, by the accesses it makes;
* `Runner.returns_setLimit`: what a limit does to a run.
-/

namespace TapeMachine

/-! ### The tape -/

namespace Tape

variable {tape : Tape} {limit a : Nat}

/-- The tape with another limit. -/
def withLimit (tape : Tape) (limit : Nat) : Tape :=
  { tape with limit }

/-- Giving a tape the limit that it has changes nothing. -/
theorem withLimit_of_eq (h : tape.limit = limit) : tape.withLimit limit = tape := by
  rw [withLimit, ← h]

/-- Touching a cell has nothing to do with the limit. -/
theorem touch_withLimit (tape : Tape) (limit a : Nat) :
    (tape.withLimit limit).touch a = (tape.touch a).withLimit limit := by
  have hcell : (tape.withLimit limit).cell? a = tape.cell? a := rfl
  rw [touch, touch, hcell]
  split <;> rfl

/-- Below the limit an access fails only if it fails without a limit. -/
theorem fault?_withLimit (htape : tape.limit = 0) (h : limit ≠ 0 → a < limit) (access : Access) :
    (tape.withLimit limit).fault? access a = tape.fault? access a := by
  have hbelow : ¬ (limit ≠ 0 ∧ limit ≤ a) := fun ⟨hne, hle⟩ => absurd (h hne) (Nat.not_lt_of_le hle)
  have hfree : ¬ (tape.limit ≠ 0 ∧ tape.limit ≤ a) := fun ⟨hne, _⟩ => hne htape
  rw [fault?, fault?, if_neg hfree]
  exact if_neg hbelow

/-- At the limit and beyond every access fails. -/
theorem fault?_of_le (hlimit : limit ≠ 0) (hle : limit ≤ a) (access : Access) :
    (tape.withLimit limit).fault? access a = some (.limit ⟨a, limit, access⟩) :=
  if_pos ⟨hlimit, hle⟩

/-- Touching a cell makes a tape no longer than to this cell. -/
theorem length_touch_le (tape : Tape) (a : Nat) :
    (tape.touch a).length ≤ max tape.length (a + 1) := by
  rw [touch]
  split
  · exact Nat.le_max_left ..
  · exact Nat.le_refl _

end Tape

/-! ### Operations -/

/-- The machine with another limit of its tape. -/
def Machine.withLimit (m : Machine) (limit : Nat) : Machine :=
  { m with tape := m.tape.withLimit limit }

/-- What an operation gives, with another limit. -/
def Progress.withLimit {α : Type} (limit : Nat) : Progress α → Progress α
  | .next value m => .next value (m.withLimit limit)
  | .stop cause m => .stop cause (m.withLimit limit)

namespace Machine

variable {m m' : Machine} {limit : Nat}

/-- Giving a machine the limit that it has changes nothing. -/
theorem withLimit_of_eq (h : m.tape.limit = limit) : m.withLimit limit = m := by
  rw [withLimit, Tape.withLimit_of_eq h]

/-- Tracing has nothing to do with the limit. -/
theorem trace_withLimit (m : Machine) (limit : Nat) (event : Event) :
    (m.withLimit limit).trace event = (m.trace event).withLimit limit := by
  have htracing : (m.withLimit limit).tracing = m.tracing := rfl
  rw [trace, trace, htracing]
  split <;> rfl

/-- Loading keeps the limit and the cursor. -/
theorem load_next {value : UInt8} (h : m.load = .next value m') :
    m'.tape.limit = m.tape.limit ∧ m'.cursor = m.cursor := by
  unfold load at h
  split at h
  · cases h
  · cases h
    exact ⟨Tape.touch_limit _ _, rfl⟩

section Below

variable (hm : m.tape.limit = 0)
include hm

/-- Below the limit, a load is what it is without one. -/
theorem load_withLimit (h : limit ≠ 0 → m.cursor < limit) :
    (m.withLimit limit).load = m.load.withLimit limit := by
  have hfault : (m.withLimit limit).tape.fault? .load (m.withLimit limit).cursor =
      m.tape.fault? .load m.cursor := Tape.fault?_withLimit hm h .load
  rw [load, load, hfault]
  cases m.tape.fault? .load m.cursor with
  | some fault => rfl
  | none =>
    have htouch := m.tape.touch_withLimit limit m.cursor
    simp only [Progress.withLimit, withLimit, htouch]
    rfl

/-- Below the limit, a store is what it is without one. -/
theorem store_withLimit (h : limit ≠ 0 → m.cursor < limit) (value : UInt8) :
    (m.withLimit limit).store value = (m.store value).withLimit limit := by
  have hfault : (m.withLimit limit).tape.fault? .store (m.withLimit limit).cursor =
      m.tape.fault? .store m.cursor := Tape.fault?_withLimit hm h .store
  rw [store, store, hfault]
  cases m.tape.fault? .store m.cursor with
  | some fault => rfl
  | none =>
    exact congrArg (Progress.next ()) (trace_withLimit
      { m with tape := m.tape.record m.cursor value } limit (.stored m.cursor value))

/-- Below the limit, an addition is what it is without one. -/
theorem add_withLimit (h : limit ≠ 0 → m.cursor < limit) (amount : Int64) :
    (m.withLimit limit).add amount = (m.add amount).withLimit limit := by
  rw [add_eq, add_eq, load_withLimit hm h]
  cases hload : m.load with
  | stop cause m₁ => rfl
  | next value m₁ =>
    obtain ⟨hlimit, hcursor⟩ := load_next hload
    exact store_withLimit (hlimit.trans hm) (hcursor.symm ▸ h) _

end Below

/-- A move has nothing to do with the limit. -/
theorem move_withLimit (m : Machine) (limit : Nat) (amount : Int64) :
    (m.withLimit limit).move amount = (m.move amount).withLimit limit := by
  have hcursor : (m.withLimit limit).cursor = m.cursor := rfl
  simp only [move, hcursor]
  split
  · rw [trace_withLimit]
    rfl
  · rfl

/-- Writing a byte to the output has nothing to do with the limit. -/
theorem writeByte_withLimit (m : Machine) (limit : Nat) (b : UInt8) :
    (m.withLimit limit).writeByte b = (m.writeByte b).withLimit limit := by
  simp only [writeByte, trace_withLimit]
  have houtput : ((m.trace (.wrote b)).withLimit limit).output = (m.trace (.wrote b)).output := rfl
  have hsinks : ((m.trace (.wrote b)).withLimit limit).sinks = (m.trace (.wrote b)).sinks := rfl
  rw [houtput, hsinks]
  split <;> rfl

/-- Below the limit, a write is what it is without one. -/
theorem write_withLimit (hm : m.tape.limit = 0) (h : limit ≠ 0 → m.cursor < limit) :
    (m.withLimit limit).write = m.write.withLimit limit := by
  rw [write_eq, write_eq, load_withLimit hm h]
  cases m.load with
  | stop cause m₁ => rfl
  | next value m₁ => exact m₁.writeByte_withLimit limit value

/-- Reading a byte from the input has nothing to do with the limit. -/
theorem readVisible_withLimit (m : Machine) (limit : Nat) :
    (m.withLimit limit).readVisible = m.readVisible.withLimit limit := by
  fun_induction readVisible m with
  | case1 m fault input hread =>
    rw [readVisible]
    split
    · next heq =>
      cases hread.symm.trans heq
      rfl
    · next heq => cases hread.symm.trans heq
  -- The same input is read, so the controls passed over are the same.
  | case2 m b input hread hcontrol ih =>
    rw [readVisible]
    split
    · next heq => cases hread.symm.trans heq
    · next heq =>
      cases hread.symm.trans heq
      rw [if_pos hcontrol, ← ih, ← trace_withLimit]
      rfl
  | case3 m b input hread hvisible =>
    rw [readVisible]
    split
    · next heq => cases hread.symm.trans heq
    · next heq =>
      cases hread.symm.trans heq
      rw [if_neg hvisible]
      exact congrArg (Progress.next b) (trace_withLimit { m with input } limit (.read b))

/-- Fetching a byte has nothing to do with the limit. -/
theorem fetch_withLimit (m : Machine) (limit : Nat) :
    (m.withLimit limit).fetch = m.fetch.withLimit limit := by
  have houtput : (m.withLimit limit).output = m.output := rfl
  have hsinks : (m.withLimit limit).sinks = m.sinks := rfl
  simp only [fetch, houtput, hsinks]
  split
  · rfl
  · exact readVisible_withLimit
      { m with output := (m.output.flush m.sinks).2.1, sinks := (m.output.flush m.sinks).2.2 } limit

/-- Fetching a byte leaves the tape and the cursor alone. -/
theorem fetch_tape (m : Machine) :
    m.fetch.machine.tape = m.tape ∧ m.fetch.machine.cursor = m.cursor := by
  have hvisible : ∀ m : Machine,
      m.readVisible.machine.tape = m.tape ∧ m.readVisible.machine.cursor = m.cursor := by
    intro m
    fun_induction readVisible m with
    | case1 m fault input hread => exact ⟨rfl, rfl⟩
    | case2 m b input hread hcontrol ih => simpa using ih
    | case3 m b input hread hvisible => exact ⟨trace_tape _ _, trace_cursor _ _⟩
  simp only [fetch]
  split
  · exact ⟨rfl, rfl⟩
  · exact hvisible _

/-- Tracing the status has nothing to do with the limit. -/
theorem traceStatus_withLimit (m : Machine) (limit : Nat) :
    (m.withLimit limit).traceStatus = m.traceStatus.withLimit limit := by
  have htracing : (m.withLimit limit).tracing = m.tracing := rfl
  have hstatus : (m.withLimit limit).status = m.status := rfl
  rw [traceStatus, traceStatus, htracing, hstatus]
  split
  · exact List.foldl_hom (withLimit · limit) fun m line => m.trace_withLimit limit (.status line)
  · rfl

/-- Dumping the status has nothing to do with the limit. -/
theorem dumpStatus_withLimit (m : Machine) (limit : Nat) :
    (m.withLimit limit).dumpStatus = m.dumpStatus.withLimit limit := by
  have hstatus : (m.withLimit limit).status = m.status := rfl
  have hdump : (m.traceStatus.withLimit limit).dump = m.traceStatus.dump := rfl
  have hsinks : (m.traceStatus.withLimit limit).sinks = m.traceStatus.sinks := rfl
  simp only [dumpStatus_eq, traceStatus_withLimit, hstatus, hdump, hsinks]
  split <;> rfl

/-- Counting passes has nothing to do with the limit. -/
theorem tick_withLimit (m : Machine) (limit : Nat) (patience : Patience) :
    (m.withLimit limit).tick patience = (m.tick patience).withLimit limit := by
  have hticks : (m.withLimit limit).ticks = m.ticks := rfl
  simp only [tick, hticks]
  split
  · split <;> rfl
  · rfl

/-- The accesses to the cell under the cursor that a node makes, or a loop when it looks at its
cell, in order. A cell that cannot be loaded is not stored, and a read stores nothing without a
byte. -/
def accesses (m : Machine) (node : Node) : List Access :=
  match node.op with
  | .loop => [.load]
  | .write => [.load]
  | .add =>
    .load :: match m.load with
      | .next _ _ => [.store]
      | .stop _ _ => []
  | .clear => [.store]
  | .read =>
    match m.fetch with
    | .next _ _ => [.store]
    | .stop _ _ => []
  | _ => []

/-- A loop accesses the cell that it tests. -/
theorem accesses_of_loop {node : Node} (hop : node.op = .loop) : m.accesses node = [.load] := by
  rw [accesses, hop]
  rfl

/-- A node that makes no access at the limit or beyond does not depend on the limit. -/
theorem perform_withLimit (hm : m.tape.limit = 0) {node : Node}
    (h : m.accesses node ≠ [] → limit ≠ 0 → m.cursor < limit) :
    (m.withLimit limit).perform node = (m.perform node).withLimit limit := by
  unfold perform
  split
  · next hop => exact write_withLimit hm (h (by simp [accesses, hop]))
  -- The fetch does not touch the tape, so the store accesses the cell under the same cursor.
  · next hop =>
    rw [read_eq, read_eq, fetch_withLimit]
    cases hfetch : m.fetch with
    | stop cause m₁ => rfl
    | next b m₁ =>
      obtain ⟨htape, hcursor⟩ := m.fetch_tape
      rw [hfetch] at htape hcursor
      change m₁.tape = m.tape at htape
      change m₁.cursor = m.cursor at hcursor
      refine store_withLimit (htape ▸ hm) (hcursor.symm ▸ h ?_) b
      simp [accesses, hop, hfetch]
  · exact m.move_withLimit limit node.amount
  · next hop => exact add_withLimit hm (h (by simp [accesses, hop])) node.amount
  · next hop => exact store_withLimit hm (h (by simp [accesses, hop])) 0
  · exact m.dumpStatus_withLimit limit
  · rfl

/-- A load at the limit or beyond is refused. -/
theorem load_of_le (hlimit : limit ≠ 0) (hle : limit ≤ m.cursor) :
    (m.withLimit limit).load = .stop (.limit ⟨m.cursor, limit, .load⟩) (m.withLimit limit) := by
  have hfault : (m.withLimit limit).tape.fault? .load (m.withLimit limit).cursor =
      some (.limit ⟨m.cursor, limit, .load⟩) := Tape.fault?_of_le hlimit hle .load
  rw [load, hfault]
  rfl

/-- A store at the limit or beyond is refused. -/
theorem store_of_le (hlimit : limit ≠ 0) (hle : limit ≤ m.cursor) (value : UInt8) :
    (m.withLimit limit).store value =
      .stop (.limit ⟨m.cursor, limit, .store⟩) (m.withLimit limit) := by
  have hfault : (m.withLimit limit).tape.fault? .store (m.withLimit limit).cursor =
      some (.limit ⟨m.cursor, limit, .store⟩) := Tape.fault?_of_le hlimit hle .store
  rw [store, hfault]
  rfl

/-- The first access of a node stops the run if it is at the limit or beyond. Nothing is written
then that is not written without a limit, and no cell is accessed. -/
theorem perform_of_le (hlimit : limit ≠ 0) (hle : limit ≤ m.cursor) {node : Node}
    (hop : node.op ≠ .loop) {access : Access} {more : List Access}
    (h : m.accesses node = access :: more) :
    ∃ m₁, (m.withLimit limit).perform node =
        .stop (.limit ⟨m.cursor, limit, access⟩) (m₁.withLimit limit) ∧
      m.Precedes m₁ ∧ m₁.Precedes (m.perform node).machine ∧ m₁.tape = m.tape := by
  unfold perform
  split
  · next hwrite =>
    simp only [accesses, hwrite, List.cons.injEq] at h
    refine ⟨m, ?_, .refl m, m.leads_write.precedes, rfl⟩
    rw [write_eq, load_of_le hlimit hle, ← h.1]
    rfl
  · next hread =>
    -- The byte is taken from the input before the access fails.
    obtain ⟨htape, hcursor⟩ := m.fetch_tape
    have hfetched := m.leads_fetch.precedes
    simp only [accesses, hread] at h
    rw [read_eq, read_eq, fetch_withLimit]
    cases hfetch : m.fetch with
    | stop cause m₁ =>
      rw [hfetch] at h
      cases h
    | next b m₁ =>
      rw [hfetch] at h htape hcursor hfetched
      change m₁.cursor = m.cursor at hcursor
      rw [List.cons.injEq] at h
      refine ⟨m₁, ?_, hfetched, (m₁.leads_store b).precedes, htape⟩
      rw [← hcursor] at hle ⊢
      rw [← h.1]
      exact store_of_le hlimit hle b
  · next hmove =>
    simp only [accesses, hmove] at h
    cases h
  · next hadd =>
    simp only [accesses, hadd, List.cons.injEq] at h
    refine ⟨m, ?_, .refl m, (m.leads_add node.amount).precedes, rfl⟩
    rw [add_eq, load_of_le hlimit hle, ← h.1]
    rfl
  · next hclear =>
    simp only [accesses, hclear, List.cons.injEq] at h
    refine ⟨m, ?_, .refl m, (m.leads_store 0).precedes, rfl⟩
    rw [store_of_le hlimit hle, ← h.1]
  · next hdump =>
    simp only [accesses, hdump] at h
    cases h
  · next hwrite hread _ hadd hclear _ =>
    simp only [accesses] at h
    split at h
    · next hloop => exact absurd hloop hop
    · next hop' => exact absurd hop' hwrite
    · next hop' => exact absurd hop' hadd
    · next hop' => exact absurd hop' hclear
    · next hop' => exact absurd hop' hread
    · cases h

section Length

/-- A load below the limit keeps the tape within it. -/
theorem load_length (hm : m.tape.length ≤ limit) (hcursor : m.cursor < limit) :
    m.load.machine.tape.length ≤ limit := by
  unfold load
  split
  · exact hm
  · exact Nat.le_trans (m.tape.length_touch_le m.cursor) (Nat.max_le.mpr ⟨hm, hcursor⟩)

/-- A store below the limit keeps the tape within it. -/
theorem store_length (hm : m.tape.length ≤ limit) (hcursor : m.cursor < limit) (value : UInt8) :
    (m.store value).machine.tape.length ≤ limit := by
  unfold store
  split
  · exact hm
  · simp only [Progress.machine, trace_tape]
    exact Nat.max_le.mpr ⟨hm, hcursor⟩

variable (m : Machine)

/-- Writing a byte leaves the tape alone. -/
theorem writeByte_tape (b : UInt8) : (m.writeByte b).machine.tape = m.tape := by
  simp only [writeByte]
  split <;> exact trace_tape _ _

/-- A move leaves the tape alone. -/
theorem move_tape (amount : Int64) : (m.move amount).machine.tape = m.tape := by
  simp only [move]
  split
  · exact trace_tape _ _
  · rfl

/-- Counting passes leaves the tape alone. -/
theorem tick_tape (patience : Patience) : (m.tick patience).machine.tape = m.tape := by
  simp only [tick]
  split
  · split <;> rfl
  · rfl

/-- Dumping the status leaves the tape alone. -/
theorem dumpStatus_tape : m.dumpStatus.machine.tape = m.tape := by
  have htrace : m.traceStatus.tape = m.tape :=
    @traceStatus_induction (·.tape = m.tape) m rfl fun m' event h => (m'.trace_tape event).trans h
  rw [dumpStatus_eq]
  dsimp only
  split <;> exact htrace

end Length

/-- A node whose accesses are below the limit leaves the tape no longer than the limit. -/
theorem perform_length (hm : m.tape.length ≤ limit) {node : Node}
    (h : m.accesses node ≠ [] → m.cursor < limit) :
    (m.perform node).machine.tape.length ≤ limit := by
  unfold perform
  split
  · next hop =>
    have hcursor := h (by simp [accesses, hop])
    rw [write_eq]
    refine Progress.machine_andThen (p := (·.tape.length ≤ limit)) (load_length hm hcursor)
      fun value m₁ _ h₁ => ?_
    rwa [writeByte_tape]
  -- The fetch does not touch the tape; only the store may make it longer.
  · next hop =>
    obtain ⟨htape, hcursor⟩ := m.fetch_tape
    rw [read_eq]
    refine Progress.machine_andThen (p := (·.tape.length ≤ limit)) (htape ▸ hm)
      fun b m₁ hfetch h₁ => ?_
    rw [hfetch] at hcursor
    exact store_length h₁ (Nat.lt_of_le_of_lt (Nat.le_of_eq hcursor) (h (by
      simp [accesses, hop, hfetch]))) b
  · rwa [move_tape]
  · next hop =>
    have hcursor := h (by simp [accesses, hop])
    rw [add_eq]
    refine Progress.machine_andThen (p := (·.tape.length ≤ limit)) (load_length hm hcursor)
      fun value m₁ hload h₁ => ?_
    exact store_length h₁ ((load_next hload).2 ▸ hcursor) _
  · next hop => exact store_length hm (h (by simp [accesses, hop])) 0
  · rwa [dumpStatus_tape]
  · exact hm

end Machine

/-! ### Steps -/

/-- The phase with another limit. -/
def Phase.withLimit (limit : Nat) : Phase → Phase
  | .running todo m => .running todo (m.withLimit limit)
  | .finished m => .finished (m.withLimit limit)
  | .stopped cause m => .stopped cause (m.withLimit limit)

/-- The limit can be set before or after an operation is taken on. -/
theorem Progress.phase_withLimit {α : Type} {goOn : α → Machine → Phase} {limit : Nat}
    (progress : Progress α)
    (h : ∀ value m, goOn value (m.withLimit limit) = (goOn value m).withLimit limit) :
    (progress.withLimit limit).phase goOn = (progress.phase goOn).withLimit limit := by
  cases progress with
  | next value m => exact h value m
  | stop cause m => rfl

namespace Phase

variable {limit : Nat} (patience : Patience)

/-- The accesses that the next step makes, and the cells they go to. -/
def accesses : Phase → List (Access × Nat)
  | .running (node :: _) m => (m.accesses node).map (·, m.cursor)
  | _ => []

/-- The limit of a phase is that of its machine. -/
theorem machine_withLimit (limit : Nat) (phase : Phase) :
    (phase.withLimit limit).machine = phase.machine.withLimit limit := by
  cases phase <;> rfl

/-- Giving a phase the limit that it has changes nothing. -/
theorem withLimit_of_eq {phase : Phase} (h : phase.machine.tape.limit = limit) :
    phase.withLimit limit = phase := by
  cases phase with
  | running todo m => exact congrArg (running todo) (Machine.withLimit_of_eq h)
  | finished m => exact congrArg finished (Machine.withLimit_of_eq h)
  | stopped cause m => exact congrArg (stopped cause) (Machine.withLimit_of_eq h)

/-- If all accesses are below the limit and there is one, the cursor is below it. -/
private theorem cursor_lt_of_accesses {node : Node} {rest : List Node} {m : Machine} {p : Prop}
    (h : ∀ x ∈ (running (node :: rest) m).accesses, p → x.2 < limit) (hne : m.accesses node ≠ [])
    (hp : p) : m.cursor < limit := by
  obtain ⟨access, hmem⟩ := List.exists_mem_of_ne_nil _ hne
  exact h (access, m.cursor) (List.mem_map_of_mem hmem) hp

/-- A step that makes no access at the limit or beyond does not depend on the limit. -/
theorem step_withLimit {phase : Phase} (hphase : phase.machine.tape.limit = 0)
    (h : ∀ x ∈ phase.accesses, limit ≠ 0 → x.2 < limit) :
    (phase.withLimit limit).step patience = (phase.step patience).withLimit limit := by
  cases phase with
  | finished m => rfl
  | stopped cause m => rfl
  | running todo m =>
    cases todo with
    | nil => rfl
    | cons node rest =>
      change m.tape.limit = 0 at hphase
      -- By `h` the cell that the step accesses, if any, is below the limit.
      have hcursor := cursor_lt_of_accesses h
      rw [withLimit]
      by_cases hop : node.op = .loop
      · rw [step_of_loop _ hop, step_of_loop _ hop,
          Machine.load_withLimit hphase (hcursor (by simp [Machine.accesses_of_loop hop]))]
        refine Progress.phase_withLimit m.load fun value m₁ => ?_
        split
        · rfl
        · rw [Machine.tick_withLimit]
          exact Progress.phase_withLimit _ fun _ _ => rfl
      · rw [step_of_ne_loop _ hop, step_of_ne_loop _ hop,
          Machine.perform_withLimit hphase hcursor]
        exact Progress.phase_withLimit _ fun _ _ => rfl

/-- The first access at the limit or beyond stops a step. Nothing is written then that is not
written without a limit, and no cell is accessed. -/
theorem step_of_le (hlimit : limit ≠ 0) {phase : Phase} {access : Access} {a : Nat}
    (h : phase.accesses.find? (limit ≤ ·.2) = some (access, a)) :
    ∃ m₁, (phase.withLimit limit).step patience =
        .stopped (.limit ⟨a, limit, access⟩) (m₁.withLimit limit) ∧
      phase.machine.Precedes m₁ ∧ m₁.Precedes (phase.step patience).machine ∧
      m₁.tape = phase.machine.tape := by
  have hle : limit ≤ a := by simpa using List.find?_some h
  obtain ⟨node, rest, m, rfl⟩ : ∃ node rest m, phase = .running (node :: rest) m := by
    unfold accesses at h
    split at h
    · next node rest m => exact ⟨node, rest, m, rfl⟩
    · cases h
  -- All accesses of a step go to one cell, so that the first of them is the one found.
  have hmem : (access, a) ∈ (m.accesses node).map (·, m.cursor) := List.mem_of_find?_eq_some h
  obtain ⟨_, _, hpair⟩ := List.mem_map.mp hmem
  obtain ⟨-, rfl⟩ := Prod.mk.inj hpair
  obtain ⟨more, haccesses⟩ : ∃ more, m.accesses node = access :: more := by
    cases hlist : m.accesses node with
    | nil =>
      rw [hlist] at hmem
      cases hmem
    | cons first more =>
      have hfirst : first = access := by simpa [accesses, hlist, hle] using h
      exact ⟨more, by rw [hfirst]⟩
  rw [withLimit]
  by_cases hop : node.op = .loop
  · rw [Machine.accesses_of_loop hop, List.cons.injEq] at haccesses
    refine ⟨m, ?_, .refl m, precedes_step patience (.running (node :: rest) m), rfl⟩
    rw [step_of_loop _ hop, Machine.load_of_le hlimit hle, ← haccesses.1]
    rfl
  · obtain ⟨m₁, hperform, hbefore, hafter, htape⟩ := Machine.perform_of_le hlimit hle hop haccesses
    refine ⟨m₁, ?_, hbefore, ?_, htape⟩
    · rw [step_of_ne_loop _ hop, hperform]
      rfl
    · rwa [step_of_ne_loop _ hop, Progress.machine_phase _ fun _ _ => rfl]

/-- A step whose accesses are below the limit leaves the tape no longer than the limit. -/
theorem length_step {phase : Phase} (hphase : phase.machine.tape.length ≤ limit)
    (h : ∀ x ∈ phase.accesses, x.2 < limit) :
    (phase.step patience).machine.tape.length ≤ limit := by
  cases phase with
  | finished m => exact hphase
  | stopped cause m => exact hphase
  | running todo m =>
    cases todo with
    | nil => exact hphase
    | cons node rest =>
      have hcursor := fun hne => cursor_lt_of_accesses (fun x hx (_ : True) => h x hx) hne trivial
      refine machine_step (p := (·.tape.length ≤ limit)) patience rest (fun hop => ?_)
        (fun m' h' => ?_) (fun _ => Machine.perform_length hphase hcursor)
      · refine Machine.load_length hphase (hcursor ?_)
        rw [Machine.accesses_of_loop hop]
        exact List.cons_ne_nil _ _
      · rwa [m'.tick_tape]

end Phase

/-! ### Running the program loaded -/

namespace Runner

variable {r : Runner} {patience : Patience} {limit t : Nat}

/-- The accesses of the first steps of a run, and the cells they go to. -/
def accesses (r : Runner) (patience : Patience) (t : Nat) : List (Access × Nat) :=
  r.observed patience Phase.accesses t

/-- A step adds its accesses to those before it. -/
theorem accesses_succ (r : Runner) (patience : Patience) (t : Nat) :
    r.accesses patience (t + 1) = r.accesses patience t ++ (r.phase patience t).accesses :=
  r.observed_succ patience Phase.accesses t

/-- The first access at a limit or beyond is made by one step, and no earlier step makes any. -/
theorem accesses_find? {x : Access × Nat}
    (h : (r.accesses patience t).find? (limit ≤ ·.2) = some x) :
    ∃ s, (∀ y ∈ r.accesses patience s, y.2 < limit) ∧
      (r.phase patience s).accesses.find? (limit ≤ ·.2) = some x := by
  induction t with
  | zero => cases h
  | succ t ih =>
    rw [accesses_succ, List.find?_append] at h
    cases hearlier : (r.accesses patience t).find? (limit ≤ ·.2) with
    | some y =>
      rw [hearlier] at h
      exact ih (hearlier.trans h)
    | none =>
      rw [hearlier] at h
      refine ⟨t, fun y hy => ?_, h⟩
      simpa using List.find?_eq_none.mp hearlier y hy

/-- A run without a limit gets none. -/
theorem limit_phase (r : Runner) (patience : Patience) (t : Nat) :
    ((r.setLimit 0).phase patience t).machine.tape.limit = 0 := by
  induction t with
  | zero => rfl
  | succ t ih =>
    have hstep := Phase.step_withLimit patience ih fun x _ (hne : 0 ≠ 0) => absurd rfl hne
    rw [Phase.withLimit_of_eq ih] at hstep
    rw [phase_succ, hstep, Phase.machine_withLimit]
    rfl

/-- As long as no access goes to the limit or beyond, a run does not depend on it. -/
theorem phase_setLimit (h : ∀ x ∈ (r.setLimit 0).accesses patience t, x.2 < limit) :
    (r.setLimit limit).phase patience t = ((r.setLimit 0).phase patience t).withLimit limit := by
  induction t with
  | zero => rfl
  | succ t ih =>
    rw [accesses_succ] at h
    rw [phase_succ, phase_succ, ih fun x hx => h x (List.mem_append_left _ hx)]
    exact Phase.step_withLimit patience (limit_phase r patience t)
      fun x hx _ => h x (List.mem_append_right _ hx)

/-- As long as no access goes to the limit or beyond, the tape is no longer than the limit. -/
theorem length_phase (h : ∀ x ∈ r.accesses patience t, x.2 < limit) :
    (r.phase patience t).machine.tape.length ≤ limit := by
  induction t with
  | zero => exact Nat.zero_le limit
  | succ t ih =>
    rw [accesses_succ] at h
    rw [phase_succ]
    exact Phase.length_step patience (ih fun x hx => h x (List.mem_append_left _ hx))
      fun x hx => h x (List.mem_append_right _ hx)

/-- Halting a machine leaves its tape alone. -/
theorem halt_tape (m : Machine) (cause : Stop) : (halt m cause).tape = m.tape := by
  rw [halt]
  split
  · rfl
  · exact Machine.trace_tape _ _

/-- Halting a machine has nothing to do with the limit. -/
theorem halt_withLimit (m : Machine) (limit : Nat) (cause : Stop) :
    halt (m.withLimit limit) cause = (halt m cause).withLimit limit := by
  rw [halt, halt]
  split
  · rfl
  · exact Machine.trace_withLimit m.flush.2 limit _

/-- What a run gives does not depend on the limit but for the limit itself. -/
theorem result?_withLimit (r : Runner) (limit : Nat) (phase : Phase) :
    (r.setLimit limit).result? (phase.withLimit limit) =
      ((r.setLimit 0).result? phase).map fun outcome => (outcome.1, outcome.2.setLimit limit) := by
  -- The answer is made from the cause alone, and the limit is kept.
  have hconcluded : ∀ cause m, (r.setLimit limit).concluded cause (m.withLimit limit) =
      (((r.setLimit 0).concluded cause m).1,
        ((r.setLimit 0).concluded cause m).2.setLimit limit) := by
    intro cause m
    simp only [concluded]
    split <;> rfl
  cases phase with
  | running todo m => rfl
  | finished m =>
    refine congrArg some ?_
    have hflush : (m.withLimit limit).flush = (m.flush.1, m.flush.2.withLimit limit) := rfl
    rw [completed, completed, hflush]
    rcases m.flush with ⟨_ | fault, m₁⟩
    · rfl
    · exact hconcluded (.output fault) m₁
  | stopped cause m =>
    refine congrArg some ?_
    rw [halt_withLimit]
    exact hconcluded cause (halt m cause)

/-- If the run without a limit `accesses` a cell at the `limit` or beyond, then the run with the
`limit` stops at the first such access with a fault that names it. The tape has then no cell beyond
the `limit`; and where output `IsInMemory`, what a sink `i` has received is what the run without a
limit writes there first. Otherwise both runs come to the same results, if to any, and leave the
same but for the `limit`. -/
theorem returns_setLimit (hloaded : r.program.isSome) (hmemory : r.machine.IsInMemory)
    (patience : Patience) (hlimit : 0 < limit) :
    (∀ t access a, ((r.setLimit 0).accesses patience t).find? (limit ≤ ·.2) = some (access, a) →
        ∃ r', (r.setLimit limit).Returns patience
            (.error (.stopped (.limit ⟨a, limit, access⟩))) r' ∧
          r'.machine.tape.length ≤ limit ∧
          ∀ i, (∀ handler ∈ r.machine.logger, handler.sink ≠ i) → ∃ least, ∀ fuel ≥ least,
            r'.machine.sinks.received i <+:
              ((r.setLimit 0).run fuel patience).2.machine.sinks.received i) ∧
      ((∀ t, ∀ x ∈ (r.setLimit 0).accesses patience t, x.2 < limit) →
        ∀ result r', (r.setLimit limit).Returns patience result r' ↔
          ∃ r₀, (r.setLimit 0).Returns patience result r₀ ∧ r' = r₀.setLimit limit) := by
  have hloaded' : ∀ limit, (r.setLimit limit).program.isSome := fun _ => hloaded
  constructor
  · intro t access a hfind
    -- Up to the step `s` with that access the runs are the same but for the limit.
    obtain ⟨s, hbelow, hfirst⟩ := accesses_find? hfind
    obtain ⟨m, hstep, hbefore, hafter, htape⟩ :=
      Phase.step_of_le patience (Nat.ne_of_gt hlimit) hfirst
    rw [← phase_setLimit hbelow, ← phase_succ] at hstep
    rw [← phase_succ] at hafter
    refine ⟨{ r with
      machine := halt (m.withLimit limit) (.limit ⟨a, limit, access⟩), halted := false },
      (returns_iff (hloaded' limit)).mpr ⟨s + 1, by rw [hstep]; rfl⟩, ?_,
      fun i hi => ⟨s + 1, fun fuel hfuel => ?_⟩⟩
    · rw [halt_tape]
      exact (congrArg Tape.length htape).trans_le (length_phase hbelow)
    -- What the machine `m` has written by then, the run without a limit has, too.
    · have hstart : (start (r.setLimit 0).machine).Precedes m :=
        (Phase.precedes_after patience _ (Nat.zero_le s)).trans hbefore
      have hreceived : (halt (m.withLimit limit) (.limit ⟨a, limit, access⟩)).sinks.received i =
          m.sinks.received i := by
        rw [halt_withLimit]
        exact received_halt (hstart.isInMemory hmemory) (hstart.logger ▸ hi) _
      rw [hreceived]
      exact (hafter.received i).trans (received_run (hloaded' 0) hfuel i)
  · intro hbelow result r'
    rw [returns_iff (hloaded' limit)]
    constructor
    · rintro ⟨t, ht⟩
      rw [phase_setLimit (hbelow t), result?_withLimit, Option.map_eq_some_iff] at ht
      obtain ⟨⟨result₀, r₀⟩, hresult, hpair⟩ := ht
      obtain ⟨rfl, rfl⟩ := Prod.mk.inj hpair
      exact ⟨r₀, (returns_iff (hloaded' 0)).mpr ⟨t, hresult⟩, rfl⟩
    · rintro ⟨r₀, hreturns, rfl⟩
      obtain ⟨t, ht⟩ := (returns_iff (hloaded' 0)).mp hreturns
      refine ⟨t, ?_⟩
      rw [phase_setLimit (hbelow t), result?_withLimit, ht]
      rfl

/-- Writes a byte to memory, goes two cells further and reads. -/
def advancing : Runner :=
  { ((fresh [{ kind := .memory }]).setOutput (some 0)).addInput
      { name := utf8 "letters", data := utf8 "A" } with
    program := some [⟨.add, 65, []⟩, ⟨.write, 0, []⟩, ⟨.move, 2, []⟩, ⟨.read, 0, []⟩] }

/-- The run of `advancing` with a limit of two stops at the cell two. -/
theorem returns_setLimit_advancing :
    advancing.program.isSome ∧ advancing.machine.IsInMemory ∧ 0 < 2 ∧
      ((advancing.setLimit 0).accesses .endless 4).find? (2 ≤ ·.2) = some (.store, 2) ∧
      ∃ r', (advancing.setLimit 2).Returns .endless
          (.error (.stopped (.limit ⟨2, 2, .store⟩))) r' ∧
        r'.machine.tape.length ≤ 2 ∧
        ∃ least, ∀ fuel ≥ least, r'.machine.sinks.received 0 <+:
          ((advancing.setLimit 0).run fuel .endless).2.machine.sinks.received 0 := by
  have hloaded : advancing.program.isSome := rfl
  have hmemory : advancing.machine.IsInMemory := by decide
  have hfind : ((advancing.setLimit 0).accesses .endless 4).find? (2 ≤ ·.2) = some (.store, 2) := by
    decide +kernel
  obtain ⟨r', hreturns, hlength, hreceived⟩ :=
    (returns_setLimit hloaded hmemory .endless (by decide : 0 < 2)).1 4 .store 2 hfind
  exact ⟨hloaded, hmemory, by decide, hfind, r', hreturns, hlength, hreceived 0 nofun⟩

end Runner

end TapeMachine
