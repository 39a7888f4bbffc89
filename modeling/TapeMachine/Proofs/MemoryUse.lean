import Mathlib.Order.Basic
import TapeMachine.Proofs.Execution

/-!
# Runs and the memory they use

Where memory is bounded, a run also depends on which cells it accesses: there is memory for those up
to some address and for none beyond. The effect of a program is refined accordingly, so that it has
no ending where a cell is accessed that there is no memory for. With this, the endings of a program
are exactly those of its runs.

The module introduces:

* `Tape.Affords`: there is memory for a cell, whatever was accessed before;
* `Effect.test`, `Effect.loopWithin`: effects that access the cell under the cursor;
* `Program.effectWithin`: the endings that a program has within some cells;
* `Machine.ending_iff_effectWithin`: the endings of a program, and those of its runs.
-/

namespace TapeMachine

/-! ### Memory for cells -/

namespace Tape

/-- Whether there is memory for a cell. -/
def Affords (tape : Tape) (a : Nat) : Prop :=
  tape.memory = .addressable →
    tape.pageSize ≤ Memory.reach ∧ a / tape.pageSize < Memory.reach / Memory.placeSize

/-- Whether there was memory for what the tape holds. -/
def IsHoused (tape : Tape) : Prop :=
  tape.memory = .addressable →
    tape.places ≤ Memory.reach / Memory.placeSize ∧ (0 < tape.places → tape.pageSize ≤ Memory.reach)

variable {tape : Tape}

/-- A tape that was reset has no pages to be afforded. -/
theorem isHoused_reset (tape : Tape) : tape.reset.IsHoused :=
  fun _ => ⟨Nat.zero_le _, fun h => absurd h (Nat.lt_irrefl 0)⟩

/-- Recording a cell that can be afforded keeps the tape housed. -/
theorem isHoused_record {a : Nat} (h : tape.IsHoused) (ha : tape.Affords a) (value : UInt8) :
    (tape.record a value).IsHoused := by
  intro hmemory
  obtain ⟨hplaces, -⟩ := h hmemory
  obtain ⟨hsize, hindex⟩ := ha hmemory
  exact ⟨Nat.max_le.mpr ⟨hplaces, hindex⟩, fun _ => hsize⟩

/-- Touching a cell that can be afforded keeps the tape housed. -/
theorem isHoused_touch {a : Nat} (h : tape.IsHoused) (ha : tape.Affords a) :
    (tape.touch a).IsHoused := by
  rw [touch]
  split
  · exact h
  · exact isHoused_record h ha 0

/-- Touching a cell does not change the size of pages. -/
@[simp] theorem touch_pageSize (tape : Tape) (a : Nat) :
    (tape.touch a).pageSize = tape.pageSize := by
  rw [touch]
  split <;> rfl

/-- Touching a cell does not change which cells can be afforded. -/
@[simp] theorem affords_touch {a b : Nat} : (tape.touch a).Affords b ↔ tape.Affords b := by
  simp [Affords]

/-- Recording a cell does not change which cells can be afforded. -/
@[simp] theorem affords_record {a b : Nat} {value : UInt8} :
    (tape.record a value).Affords b ↔ tape.Affords b := Iff.rfl

/-- A list of pages can grow up to an index exactly if addresses reach that far. -/
private theorem growthFault?_eq_none_iff {places index : Nat} (hplaces : places ≤ index)
    (hindex : index < Word.signBound) :
    Memory.growthFault? places index = none ↔ index < Memory.reach / Memory.placeSize := by
  have hcount : Word.count = 0x10000000000000000 := rfl
  have hsign : Word.signBound = 0x8000000000000000 := rfl
  have hreach : Memory.reach / Memory.placeSize = 0x200000000000 := rfl
  have hwanted : (index + 1 + (Word.count - places)) % Word.count = index + 1 - places := by
    have hsplit : index + 1 + (Word.count - places) = index + 1 - places + Word.count := by omega
    rw [hsplit, Nat.add_mod_right, Nat.mod_eq_of_lt (by omega)]
  simp only [Memory.growthFault?, hwanted, hreach]
  split
  · next hsize => exact iff_of_false nofun (by omega)
  · split
    · next hgrowth => exact iff_of_false nofun (by omega)
    · rw [if_neg (by omega)]
      exact iff_of_true rfl (by omega)

/-- On a tape without a limit, an access fails exactly if there is no memory for the cell. -/
theorem fault?_eq_none_iff (h : tape.IsHoused) (hlimit : tape.limit = 0) (access : Access) {a : Nat}
    (ha : a ≤ Register.lastPosition) : tape.fault? access a = none ↔ tape.Affords a := by
  rw [fault?, if_neg (by simp [hlimit]), Option.map_eq_none_iff]
  cases hmemory : tape.memory with
  | endless => exact iff_of_true rfl fun h => by cases hmemory.symm.trans h
  | addressable =>
    obtain ⟨hplaces, hsize⟩ := h hmemory
    have hindex : a / tape.pageSize < Word.signBound :=
      Nat.lt_of_le_of_lt (Nat.div_le_self a tape.pageSize) (Nat.lt_of_le_of_lt ha (by decide))
    simp only [Affords, hmemory, forall_const, Memory.fault?]
    by_cases hplace : a / tape.pageSize < tape.places
    · -- The page has a place already, so there was memory for a page.
      rw [if_pos hplace]
      exact iff_of_true rfl ⟨hsize (Nat.zero_lt_of_lt hplace), Nat.lt_of_lt_of_le hplace hplaces⟩
    · rw [if_neg hplace]
      have hgrowth := growthFault?_eq_none_iff (Nat.le_of_not_lt hplace) hindex
      cases hfault : Memory.growthFault? tape.places (a / tape.pageSize) with
      | some fault =>
        have hfar := mt hgrowth.mpr (by simp [hfault])
        exact iff_of_false (fun h => by cases h) fun h => hfar h.2
      | none =>
        have hnear := hgrowth.mp hfault
        simp [Option.orElse, hnear]

end Tape

/-! ### Effects within some cells -/

namespace Effect

variable {a a' b b' body body' : Effect} {ok : Int → Prop} {s t : Snapshot} {e : Ending}

/-- Effects in a row have more endings if each of them has. -/
theorem seq_mono (ha : a ≤ a') (hb : b ≤ b') : a.seq b ≤ a'.seq b' := by
  rintro s e (⟨t, ht, he⟩ | ⟨he, hstop⟩)
  · exact seq_of_done (ha s _ ht) (hb t e he)
  · exact seq_of_stop (ha s e he) hstop

/-- A loop has more endings if its `body` has. -/
theorem loop_mono (hbody : body ≤ body') : loop body ≤ loop body' := by
  intro s e h
  induction h with
  | exit hzero => exact .exit hzero
  | pass hcell hpass _ ih => exact .pass hcell (hbody _ _ hpass) ih
  | stop hcell hpass hstop => exact .stop hcell (hbody _ _ hpass) hstop

/-- Looks at the cell under the cursor, which has no ending for other cells than those given. -/
def test (ok : Int → Prop) : Effect :=
  fun s e => ok s.cursor ∧ e = .done s

/-- An effect repeated as long as the cell under the cursor, which is looked at before every pass,
is not zero. -/
def loopWithin (ok : Int → Prop) (body : Effect) : Effect :=
  (test ok).seq (loop (body.seq (test ok)))

/-- A test does nothing where it succeeds. -/
theorem test_le_skip : test ok ≤ skip :=
  fun _ _ h => h.2.symm

/-- A test is passed over where it succeeds. -/
@[simp] theorem test_seq_iff : ((test ok).seq a) s e ↔ ok s.cursor ∧ a s e := by
  constructor
  · rintro (⟨t, ⟨hok, ht⟩, he⟩ | ⟨⟨hok, he⟩, hstop⟩)
    · cases ht
      exact ⟨hok, he⟩
    · subst he
      exact hstop.elim
  · rintro ⟨hok, he⟩
    exact seq_of_done ⟨hok, rfl⟩ he

/-- A loop tests its cell, and then does nothing or begins with a pass. -/
theorem loopWithin_iff : loopWithin ok body s e ↔ ok s.cursor ∧
    ((s.here = 0 ∧ e = .done s) ∨ (s.here ≠ 0 ∧ (body.seq (loopWithin ok body)) s e)) := by
  rw [loopWithin, test_seq_iff, loop_iff, seq_assoc]

/-- A loop within some cells has more endings if its `body` has. -/
theorem loopWithin_mono (hbody : body ≤ body') : loopWithin ok body ≤ loopWithin ok body' :=
  seq_mono le_rfl (loop_mono (seq_mono hbody le_rfl))

/-- A loop within some cells has no endings beyond those of the loop. -/
theorem loopWithin_le_loop : loopWithin ok body ≤ loop body := by
  refine le_trans (seq_mono test_le_skip (loop_mono (seq_mono le_rfl test_le_skip))) ?_
  rw [skip_seq, seq_skip]

end Effect

/-- Whether a node that is no loop accesses the cell under the cursor. A read that comes to the end
of the input does not. -/
def Node.Accesses (node : Node) (s : Snapshot) : Prop :=
  match node.op with
  | .write | .add | .clear => True
  | .read => nextVisible s.input ≠ none
  | _ => False

mutual

/-- The endings that a node has if it accesses none but some cells. -/
def Node.effectWithin (ok : Int → Prop) : Node → Effect
  | ⟨op, amount, body⟩ =>
    if op = .loop then Effect.loopWithin ok (Program.effectWithin ok body)
    else fun s e => Node.act { op, amount, body } s = some e ∧
      (Node.Accesses { op, amount, body } s → ok s.cursor)

/-- The endings that nodes have when they are run one after another, if they access none but some
cells. -/
def Program.effectWithin (ok : Int → Prop) : List Node → Effect
  | [] => Effect.skip
  | node :: rest => (node.effectWithin ok).seq (Program.effectWithin ok rest)

end

section EffectWithin

variable {ok : Int → Prop}

/-- A loop tests the cells that it looks at. -/
theorem Node.effectWithin_of_loop {node : Node} (h : node.op = .loop) :
    node.effectWithin ok = Effect.loopWithin ok (Program.effectWithin ok node.body) := by
  cases node
  exact (Node.effectWithin.eq_1 ..).trans (if_pos h)

/-- Any other node tests the cell under the cursor if it accesses it. -/
theorem Node.effectWithin_of_ne_loop {node : Node} (h : node.op ≠ .loop) :
    node.effectWithin ok = fun s e => node.act s = some e ∧ (node.Accesses s → ok s.cursor) := by
  cases node
  exact (Node.effectWithin.eq_1 ..).trans (if_neg h)

section Operations

variable (amount : Int64) (body : List Node)

/-- An addition accesses the cell under the cursor. -/
@[simp] theorem Node.effectWithin_add : Node.effectWithin ok ⟨.add, amount, body⟩ =
    fun s e => s.add amount.toInt = e ∧ ok s.cursor := by
  rw [Node.effectWithin_of_ne_loop (show Op.add ≠ Op.loop from by decide)]
  funext s e
  exact propext (and_congr Option.some_inj ⟨fun h => h trivial, fun h _ => h⟩)

/-- Clearing accesses the cell under the cursor. -/
@[simp] theorem Node.effectWithin_clear : Node.effectWithin ok ⟨.clear, amount, body⟩ =
    fun s e => .done (s.put 0) = e ∧ ok s.cursor := by
  rw [Node.effectWithin_of_ne_loop (show Op.clear ≠ Op.loop from by decide)]
  funext s e
  exact propext (and_congr Option.some_inj ⟨fun h => h trivial, fun h _ => h⟩)

/-- `effectWithin_of_loop` for a node that is given by its parts. -/
@[simp] theorem Node.effectWithin_loop : Node.effectWithin ok ⟨.loop, amount, body⟩ =
    Effect.loopWithin ok (Program.effectWithin ok body) :=
  Node.effectWithin_of_loop rfl

end Operations

/-- No nodes have no effect. -/
@[simp] theorem Program.effectWithin_nil : Program.effectWithin ok [] = Effect.skip := rfl

/-- Nodes have the effect of the first one and that of the `rest`. -/
@[simp] theorem Program.effectWithin_cons (node : Node) (rest : List Node) :
    Program.effectWithin ok (node :: rest) =
      (node.effectWithin ok).seq (Program.effectWithin ok rest) := rfl

/-- Two lists of nodes in a row have their effects in a row. -/
theorem Program.effectWithin_append (first second : List Node) :
    Program.effectWithin ok (first ++ second) =
      (Program.effectWithin ok first).seq (Program.effectWithin ok second) := by
  induction first with
  | nil => simp
  | cons node rest ih => simp [ih, Effect.seq_assoc]

/-- Within some cells a program has no other endings than elsewhere. -/
theorem Program.effectWithin_le : (program : List Node) →
    Program.effectWithin ok program ≤ Program.effect program
  | [] => le_rfl
  | ⟨op, amount, body⟩ :: rest => by
    refine Effect.seq_mono ?_ (Program.effectWithin_le rest)
    by_cases hop : op = .loop
    · rw [Node.effectWithin_of_loop hop, Node.effect_of_loop hop]
      exact (Effect.loopWithin_mono (Program.effectWithin_le body)).trans Effect.loopWithin_le_loop
    · rw [Node.effectWithin_of_ne_loop hop, Node.effect_of_ne_loop hop]
      exact fun _ _ h => h.1

/-- A program within some cells has at most one ending, as it has without the tests. -/
theorem Program.effectWithin_isFunctional (program : List Node) :
    (Program.effectWithin ok program).IsFunctional :=
  fun _ _ _ h h' => Program.effect_isFunctional program (Program.effectWithin_le program _ _ h)
    (Program.effectWithin_le program _ _ h')

/-- A node within some cells has at most one ending. -/
theorem Node.effectWithin_isFunctional (node : Node) : (node.effectWithin ok).IsFunctional := by
  have h : (Program.effectWithin ok [node]).IsFunctional := Program.effectWithin_isFunctional [node]
  rwa [Program.effectWithin_cons, Program.effectWithin_nil, Effect.seq_skip] at h

end EffectWithin

/-! ### Machines -/

namespace Machine

/-- Tracing does not touch the tape. -/
@[simp] theorem trace_tape (m : Machine) (event : Event) : (m.trace event).tape = m.tape := by
  rw [trace]
  split <;> rfl

/-- Tracing does not move the cursor. -/
@[simp] theorem trace_cursor (m : Machine) (event : Event) :
    (m.trace event).cursor = m.cursor := by
  rw [trace]
  split <;> rfl

/-- There was memory for what the machine holds, and there is memory for some cells and no
others. -/
structure Housed (m : Machine) (ok : Int → Prop) : Prop where
  /-- There was memory for what the tape holds. -/
  tape : m.tape.IsHoused
  /-- The cursor is on the tape. -/
  cursor : m.cursor ≤ Register.lastPosition
  /-- The cells that there is memory for. -/
  affords : ∀ a : Nat, m.tape.Affords a ↔ ok a

/-- What an operation may do that accesses the cell at a position or none: it stops for lack of
memory exactly if there is none for the cell it accesses. -/
def Uses (ok : Int → Prop) (access : Prop) (pos : Int) : Progress Unit → Prop
  | .next _ m => (access → ok pos) ∧ m.Housed ok
  | .stop (.memory _) _ => access ∧ ¬ ok pos
  | .stop _ _ => access → ok pos

section Primitives

variable {m : Machine} {sink : Nat} {memory : Memory} {ok : Int → Prop}

/-- Nothing but the tape and the cursor matters to whether a machine is housed. -/
theorem Housed.congr {m' : Machine} (h : m.Housed ok) (htape : m'.tape = m.tape)
    (hcursor : m'.cursor = m.cursor) : m'.Housed ok :=
  ⟨htape ▸ h.tape, hcursor ▸ h.cursor, htape ▸ h.affords⟩

/-- Without a limit, an access is refused only where there is no memory. -/
theorem Housed.fault?_eq_none_iff (h : m.Housed ok) (hlimit : m.tape.limit = 0) (access : Access) :
    m.tape.fault? access m.cursor = none ↔ ok m.cursor :=
  (Tape.fault?_eq_none_iff h.tape hlimit access h.cursor).trans (h.affords m.cursor)

/-- An access fails for lack of memory exactly if there is none for the cell. -/
theorem Housed.fault?_cases (h : m.Housed ok) (hlimit : m.tape.limit = 0) (access : Access) :
    (¬ ok m.cursor ∧ ∃ fault, m.tape.fault? access m.cursor = some (.memory fault)) ∨
      (ok m.cursor ∧ m.tape.Affords m.cursor ∧ m.tape.fault? access m.cursor = none) := by
  have hiff := h.fault?_eq_none_iff hlimit access
  obtain ⟨-, fault, hfault⟩ | hnone := Tape.fault?_cases hlimit access m.cursor
  · exact Or.inl ⟨mt hiff.mpr (by simp [hfault]), fault, hfault⟩
  · exact Or.inr ⟨hiff.mp hnone, (h.affords m.cursor).mpr (hiff.mp hnone), hnone⟩

/-- A load stops for lack of memory, or tells the cell under the cursor. -/
theorem Housed.load (hm : m.Housed ok) (h : m.Unhindered sink memory) :
    (¬ ok m.cursor ∧ ∃ fault, m.load = .stop (.memory fault) m) ∨
      (ok m.cursor ∧ ∃ m', m.load = .next (m.view sink).here m' ∧ m'.Unhindered sink memory ∧
        m'.Housed ok ∧ m'.view sink = m.view sink) := by
  obtain ⟨hnot, fault, hfault⟩ | ⟨hok, hafford, hfault⟩ := hm.fault?_cases h.limit .load
  · exact Or.inl ⟨hnot, fault, by simp [Machine.load, hfault, Stop.ofTape]⟩
  · refine Or.inr ⟨hok, ?_⟩
    obtain ⟨-, fault, m', hload⟩ | ⟨m', hload, h', hview⟩ := h.load
    · simp [Machine.load, hfault] at hload
    · refine ⟨m', hload, h', ?_, hview⟩
      simp only [Machine.load, hfault, Progress.next.injEq] at hload
      obtain ⟨-, rfl⟩ := hload
      exact ⟨Tape.isHoused_touch hm.tape hafford, hm.cursor, by simpa using hm.affords⟩

/-- A store stops for lack of memory, or leaves a machine that is housed. -/
theorem Housed.store (hm : m.Housed ok) (hlimit : m.tape.limit = 0) (value : UInt8) :
    Uses ok True m.cursor (m.store value) := by
  obtain ⟨hnot, fault, hfault⟩ | ⟨hok, hafford, hfault⟩ := hm.fault?_cases hlimit .store
  · simp [Machine.store, hfault, Stop.ofTape, Uses, hnot]
  · have hrecord : { m with tape := m.tape.record m.cursor value }.Housed ok :=
      ⟨Tape.isHoused_record hm.tape hafford value, hm.cursor, hm.affords⟩
    simp only [Machine.store, hfault, Uses]
    exact ⟨fun _ => hok, hrecord.congr (trace_tape _ _) (trace_cursor _ _)⟩

/-- An addition uses memory as its load and its store do. -/
theorem Housed.add (hm : m.Housed ok) (h : m.Unhindered sink memory) (amount : Int64) :
    Uses ok True m.cursor (m.add amount) := by
  obtain ⟨hnot, fault, hload⟩ | ⟨hok, m', hload, h', hm', hview⟩ := hm.load h
  · simp [Machine.add, hload, Uses, hnot]
  · have hcursor : (m'.cursor : Int) = m.cursor := congrArg Snapshot.cursor hview
    simpa [Machine.add, hload, ← hcursor] using hm'.store h'.limit _

/-- A write uses memory as its load does. -/
theorem Housed.write (hm : m.Housed ok) (h : m.Unhindered sink memory) :
    Uses ok True m.cursor m.write := by
  obtain ⟨hnot, fault, hload⟩ | ⟨hok, m', hload, h', hm', hview⟩ := hm.load h
  · simp [Machine.write, hload, Uses, hnot]
  · simp only [Machine.write, hload, Machine.writeByte]
    split
    · exact fun _ => hok
    · exact ⟨fun _ => hok, hm'.congr (trace_tape _ _) (trace_cursor _ _)⟩

/-- A move uses no memory. -/
theorem Housed.move (hm : m.Housed ok) (amount : Int64) :
    Uses ok False m.cursor (m.move amount) := by
  simp only [Machine.move]
  split
  · next hrange => exact ⟨False.elim, by simpa using hm.tape, hrange.2, by simpa using hm.affords⟩
  · exact False.elim

/-- Reading a byte leaves the tape and the cursor alone. -/
theorem readVisible_next (m : Machine) : ∀ {b : UInt8} {m' : Machine},
    m.readVisible = .next b m' → m'.tape = m.tape ∧ m'.cursor = m.cursor := by
  fun_induction readVisible m with
  | case1 m fault input hread => exact nofun
  | case2 m b input hread hcontrol ih =>
    intro b' m' h
    simpa using ih h
  | case3 m b input hread hvisible =>
    intro b' m' h
    cases h
    simp

/-- A read uses memory only if there is a byte to be stored. -/
theorem Housed.read (hm : m.Housed ok) (h : m.Unhindered sink memory) :
    Uses ok (nextVisible (m.view sink).input ≠ none) m.cursor m.read := by
  have hflush : Output.flush m.output m.sinks = (none, m.output, m.sinks) := by
    simp [h.output, Output.flush, Channel.flush]
  have hvisible := h.readVisible
  simp only [Machine.read, hflush]
  cases hnext : nextVisible (m.view sink).input with
  | none =>
    rw [hnext] at hvisible
    obtain ⟨m', hread, -, -⟩ := hvisible
    simp [hread, Uses]
  | some found =>
    rw [hnext] at hvisible
    obtain ⟨m', hread, h', -⟩ := hvisible
    obtain ⟨htape, hcursor⟩ := readVisible_next m hread
    simpa [hread, hcursor] using (hm.congr htape hcursor).store h'.limit found.1

/-- A dump uses no memory of the tape. -/
theorem Housed.dumpStatus (hm : m.Housed ok) : Uses ok False m.cursor m.dumpStatus := by
  have hlines : ∀ (lines : List Bytes) (m : Machine), m.Housed ok →
      (lines.foldl (fun m line => m.trace (.status line)) m).Housed ok := by
    intro lines
    induction lines with
    | nil => exact fun _ h => h
    | cons line rest ih =>
      exact fun m h => ih _ (h.congr (trace_tape m _) (trace_cursor m _))
  -- The dump is traced line by line first, which leaves the tape alone.
  obtain ⟨m₁, hm₁, hhoused⟩ : ∃ m₁, m₁ =
      (if m.tracing then (Bytes.lines (Bytes.dropFinalNewline m.status)).foldl
        (fun m line => m.trace (.status line)) m else m) ∧ m₁.Housed ok := by
    refine ⟨_, rfl, ?_⟩
    split
    · exact hlines _ m hm
    · exact hm
  simp only [Machine.dumpStatus, ← hm₁]
  split
  · exact False.elim
  · exact ⟨False.elim, hhoused.tape, hhoused.cursor, hhoused.affords⟩

/-- A node that is no loop stops for lack of memory exactly if it accesses a cell that there is none
for. -/
theorem Housed.perform (hm : m.Housed ok) (h : m.Unhindered sink memory) (node : Node) :
    Uses ok (node.Accesses (m.view sink)) m.cursor (m.perform node) := by
  unfold Machine.perform Node.Accesses
  generalize node.op = op
  split
  · exact hm.write h
  · exact hm.add h node.amount
  · exact hm.store h.limit 0
  · exact hm.read h
  · split
    all_goals first
      | contradiction
      | exact hm.move node.amount
      | exact hm.dumpStatus
      | exact False.elim

end Primitives

/-! ### Runs -/

section Runs

variable {m : Machine} {sink : Nat} {memory : Memory} {ok : Int → Prop} {node : Node}

/-- Without an interrupt, a tick only counts. -/
theorem tick_endless (m : Machine) :
    m.tick .endless = .next () { m with ticks := m.ticks + 1 } := by
  simp [tick, Patience.atCheck]

/-- A loop looks at its cell, unless there is no memory for it, and is passed over or begins a
pass. -/
private theorem exec_loop_housed (rest : List Node) (h : m.Unhindered sink memory)
    (hm : m.Housed ok) (hop : node.op = .loop) :
    (¬ ok m.cursor ∧ ∀ fuel, ∃ fault,
      exec .endless (fuel + 1) (node :: rest) m = .stopped (.memory fault) m) ∨
    (ok m.cursor ∧ ∃ m', m'.Unhindered sink memory ∧ m'.Housed ok ∧ m'.view sink = m.view sink ∧
      ∀ fuel, exec .endless (fuel + 1) (node :: rest) m =
        if (m.view sink).here = 0 then exec .endless fuel rest m'
        else (exec .endless fuel node.body m').andThen (exec .endless fuel (node :: rest))) := by
  obtain ⟨hnot, fault, hload⟩ | ⟨hok, m₁, hload, h₁, hm₁, hview₁⟩ := hm.load h
  · exact Or.inl ⟨hnot, fun fuel => ⟨fault, by rw [exec_of_loop rest hop, hload]⟩⟩
  refine Or.inr ⟨hok, ?_⟩
  by_cases hzero : (m.view sink).here = 0
  · refine ⟨m₁, h₁, hm₁, hview₁, fun fuel => ?_⟩
    rw [exec_of_loop rest hop, hload]
    simp only [if_pos hzero]
  · refine ⟨{ m₁ with ticks := m₁.ticks + 1 }, ⟨h₁.limit, h₁.memory_eq, h₁.output, h₁.exists_sink,
      h₁.room, h₁.dump, h₁.logger, h₁.input⟩, hm₁.congr rfl rfl, hview₁, fun fuel => ?_⟩
    rw [exec_of_loop rest hop, hload]
    simp only [if_neg hzero, tick_endless]

/-- What a run may lead to that starts from a snapshot and has an effect: it ends as the effect
says, and it stops for lack of memory only if the effect has no ending. -/
def Accords (ok : Int → Prop) (sink : Nat) (a : Effect) (s : Snapshot) : Outcome → Prop
  | .finished m => m.Housed ok ∧ a s (.done (m.view sink))
  | .stopped (.memory _) _ => ∀ e, ¬ a s e
  | .stopped cause m => ∀ e, endingOf sink (.stop cause m) = some e → a s e
  | .unfinished _ => True

variable {a b : Effect} {s t : Snapshot} {outcome : Outcome}

/-- What accords with an effect accords with one that has the same endings. -/
theorem Accords.congr (h : Accords ok sink b t outcome) (hiff : ∀ e, a s e ↔ b t e) :
    Accords ok sink a s outcome := by
  cases outcome with
  | finished m => exact ⟨h.1, (hiff _).mpr h.2⟩
  | stopped cause m =>
    cases cause with
    | memory fault => exact fun e he => h e ((hiff e).mp he)
    | _ => exact fun e he => (hiff e).mpr (h e he)
  | unfinished m => trivial

/-- A run that has stopped leaves nothing to what follows. -/
theorem Accords.stopped {cause : Stop} (h : Accords ok sink a s (.stopped cause m)) :
    Accords ok sink (a.seq b) s (.stopped cause m) := by
  cases cause with
  | memory fault =>
    rintro e (⟨t, ht, -⟩ | ⟨he, -⟩)
    · exact h _ ht
    · exact h e he
  | _ => exact fun e he => Effect.seq_of_stop (h e he) (isStop_of_endingOf he)

/-- A node that is no loop, followed by others that run as their effect says. -/
private theorem accords_step {fuel : Nat} {rest : List Node} (h : m.Unhindered sink memory)
    (hm : m.Housed ok) (hop : node.op ≠ .loop)
    (hrest : ∀ m' : Machine, m'.Unhindered sink memory → m'.Housed ok →
      Accords ok sink (Program.effectWithin ok rest) (m'.view sink) (exec .endless fuel rest m')) :
    Accords ok sink (Program.effectWithin ok (node :: rest)) (m.view sink)
      (exec .endless (fuel + 1) (node :: rest) m) := by
  have hfun : (node.effectWithin ok).IsFunctional := node.effectWithin_isFunctional
  have huses := hm.perform h node
  rw [Program.effectWithin_cons, exec_of_ne_loop rest hop]
  obtain ⟨-, fault, m₁, hstop⟩ | ⟨hact, hleaves⟩ := perform_ending h node
  · -- There is no memory for the cell, so the node has no ending, and what follows is not reached.
    rw [hstop] at huses ⊢
    refine Accords.stopped fun e he => ?_
    rw [Node.effectWithin_of_ne_loop hop] at he
    exact huses.2 (he.2 huses.1)
  cases hperform : m.perform node with
  | next _ m₁ =>
    rw [hperform] at huses hact hleaves
    have hdone : node.effectWithin ok (m.view sink) (.done (m₁.view sink)) := by
      rw [Node.effectWithin_of_ne_loop hop]
      exact ⟨hact.symm, huses.1⟩
    exact (hrest m₁ hleaves huses.2).congr fun e => hfun.seq_of_done_iff hdone
  | stop cause m₁ =>
    rw [hperform] at huses hact
    refine Accords.stopped ?_
    cases cause with
    | memory fault =>
      intro e he
      rw [Node.effectWithin_of_ne_loop hop] at he
      exact huses.2 (he.2 huses.1)
    | _ =>
      intro e he
      rw [Node.effectWithin_of_ne_loop hop]
      exact ⟨hact.symm.trans he, huses⟩

/-- A loop, if its passes and what follows run as their effect says. -/
private theorem accords_loop {fuel : Nat} (rest : List Node) (h : m.Unhindered sink memory)
    (hm : m.Housed ok) (hop : node.op = .loop)
    (hnodes : ∀ (nodes : List Node) (m' : Machine), m'.Unhindered sink memory → m'.Housed ok →
      Accords ok sink (Program.effectWithin ok nodes) (m'.view sink)
        (exec .endless fuel nodes m')) :
    Accords ok sink (Program.effectWithin ok (node :: rest)) (m.view sink)
      (exec .endless (fuel + 1) (node :: rest) m) := by
  have hfun : (Effect.loopWithin ok (Program.effectWithin ok node.body)).IsFunctional :=
    Node.effectWithin_of_loop hop ▸ node.effectWithin_isFunctional
  rw [Program.effectWithin_cons, Node.effectWithin_of_loop hop]
  obtain ⟨hnot, hstop⟩ | ⟨hok, m₁, h₁, hm₁, hview, heq⟩ := exec_loop_housed rest h hm hop
  · obtain ⟨fault, hstop⟩ := hstop fuel
    rw [hstop]
    exact Accords.stopped fun e he => hnot (Effect.loopWithin_iff.mp he).1
  rw [heq, ← hview]
  have hcursor : ok (m₁.view sink).cursor := by
    rw [hview]
    exact hok
  by_cases hzero : (m₁.view sink).here = 0
  · have hexit : Effect.loopWithin ok (Program.effectWithin ok node.body) (m₁.view sink)
        (.done (m₁.view sink)) :=
      Effect.loopWithin_iff.mpr ⟨hcursor, Or.inl ⟨hzero, rfl⟩⟩
    rw [if_pos hzero]
    exact (hnodes rest m₁ h₁ hm₁).congr fun e => hfun.seq_of_done_iff hexit
  · rw [if_neg hzero]
    -- The loop is its body and then itself again.
    have hunroll : ∀ e, ((Effect.loopWithin ok (Program.effectWithin ok node.body)).seq
        (Program.effectWithin ok rest)) (m₁.view sink) e ↔
        ((Program.effectWithin ok node.body).seq
          (Program.effectWithin ok (node :: rest))) (m₁.view sink) e := by
      intro e
      rw [Program.effectWithin_cons, Node.effectWithin_of_loop hop, ← Effect.seq_assoc]
      refine Effect.seq_congr (fun e => ?_) fun _ _ => Iff.rfl
      rw [Effect.loopWithin_iff]
      simp [hcursor, hzero]
    refine Accords.congr ?_ hunroll
    have hbody := hnodes node.body m₁ h₁ hm₁
    cases hexec : exec .endless fuel node.body m₁ with
    | finished m₂ =>
      rw [hexec] at hbody
      exact (hnodes (node :: rest) m₂ (h₁.exec hexec) hbody.1).congr fun e =>
        (Program.effectWithin_isFunctional node.body).seq_of_done_iff hbody.2
    | stopped cause m₂ =>
      rw [hexec] at hbody
      exact hbody.stopped
    | unfinished m₂ => trivial

/-- Runs have the effect of their nodes within the cells that there is memory for. -/
private theorem accords_exec (fuel : Nat) : ∀ (nodes : List Node) (m : Machine),
    m.Unhindered sink memory → m.Housed ok →
      Accords ok sink (Program.effectWithin ok nodes) (m.view sink)
        (exec .endless fuel nodes m) := by
  -- Each node takes one unit of fuel, and a loop one more for each pass.
  induction fuel with
  | zero => exact fun nodes m _ _ => trivial
  | succ fuel ih =>
    intro nodes m h hm
    cases nodes with
    | nil => exact ⟨hm, rfl⟩
    | cons node rest =>
      by_cases hop : node.op = .loop
      · exact accords_loop rest h hm hop ih
      · exact accords_step h hm hop (ih rest)

/-- The endings of nodes within the cells that there is memory for are those of their runs. -/
theorem ending_iff_effectWithin {nodes : List Node} {e : Ending} (h : m.Unhindered sink memory)
    (hm : m.Housed ok) : (∃ fuel, (exec .endless fuel nodes m).ending sink = some e) ↔
      Program.effectWithin ok nodes (m.view sink) e := by
  constructor
  · rintro ⟨fuel, hfuel⟩
    have haccords := accords_exec fuel nodes m h hm
    cases hexec : exec .endless fuel nodes m with
    | finished m' =>
      rw [hexec] at hfuel haccords
      cases hfuel
      exact haccords.2
    | stopped cause m' =>
      rw [hexec] at hfuel haccords
      cases cause with
      | memory fault => cases hfuel
      | _ => exact haccords e hfuel
    | unfinished m' =>
      rw [hexec] at hfuel
      cases hfuel
  · intro he
    obtain ⟨fuel, hfuel | ⟨-, fault, m', hexec⟩⟩ :=
      exec_of_effect nodes h (Program.effectWithin_le nodes _ _ he)
    · exact ⟨fuel, hfuel⟩
    · -- The run stops for lack of memory, and then there is no ending within the cells.
      have haccords := accords_exec fuel nodes m h hm
      rw [hexec] at haccords
      exact absurd he (haccords e)

end Runs

end Machine

end TapeMachine
