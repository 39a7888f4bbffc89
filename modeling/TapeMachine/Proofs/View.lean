import TapeMachine.Machine.Runner
import TapeMachine.Proofs.Effect

/-!
# What a program sees of a machine

A machine has more to it than a program can tell: pages, limits, line numbers, sinks, log handlers.
The snapshot of a machine leaves all that out. For a machine that nothing hinders, that is one with
an endless tape, output and dump in memory, and readers that end with the end of the file, every
primitive operation does to the snapshot what its name says:

* `Tape.peek_record`, `Tape.peek_touch`: setting a cell changes that cell only, and an access none;
* `Input.readByte_of_nil`, `Input.readByte_of_cons`: a queue of readers is one sequence of bytes;
* `Machine.Unhindered`: nothing hinders the machine; kept by every operation;
* `Machine.perform_ending`: a node that is no loop does what `Node.act` says.
-/

namespace TapeMachine

/-! ### The tape -/

namespace Tape

/-- Setting a cell makes it a cell that was accessed and leaves the others alone. -/
theorem cell?_record (tape : Tape) (a b : Nat) (value : UInt8) :
    (tape.record a value).cell? b = if b = a then some value else tape.cell? b := by
  simp only [cell?, record, Std.TreeMap.getElem?_alter, Nat.compare_eq_eq]
  by_cases hpage : a / tape.pageSize = b / tape.pageSize
  · rw [if_pos hpage, ← hpage]
    simp only [Std.TreeMap.getElem?_insert, Nat.compare_eq_eq]
    by_cases hplace : a % tape.pageSize = b % tape.pageSize
    · have hab : b = a := by
        rw [← Nat.div_add_mod b tape.pageSize, ← hpage, ← hplace, Nat.div_add_mod]
      rw [if_pos hplace, if_pos hab]
    · have hab : b ≠ a := fun h => hplace (by rw [h])
      rw [if_neg hplace, if_neg hab]
      cases tape.pages[a / tape.pageSize]? <;> simp
  · have hab : b ≠ a := fun h => hpage (by rw [h])
    rw [if_neg hpage, if_neg hab]

/-- A cell that was recorded is seen, and so are the others. -/
theorem peek_record (tape : Tape) (a b : Nat) (value : UInt8) :
    (tape.record a value).peek b = if b = a then value else tape.peek b := by
  rw [peek, cell?_record]
  split <;> rfl

/-- Setting a cell, on a tape that has a zero at every negative address. -/
theorem peek_toNat_record (tape : Tape) (a : Nat) (value : UInt8) (pos : Int) :
    (if pos < 0 then 0 else (tape.record a value).peek pos.toNat) =
      if pos = a then value else if pos < 0 then 0 else tape.peek pos.toNat := by
  rw [peek_record]
  by_cases hpos : pos < 0
  · have hne : pos ≠ a := by omega
    simp [hpos, hne]
  · have hiff : pos.toNat = a ↔ pos = a := by omega
    simp [hpos, hiff]

/-- On a tape that was reset, all cells are zero. -/
@[simp] theorem peek_reset (tape : Tape) (a : Nat) : tape.reset.peek a = 0 := by
  simp [peek, cell?, reset]

/-- Touching a cell changes no value. -/
theorem peek_touch (tape : Tape) (a b : Nat) : (tape.touch a).peek b = tape.peek b := by
  rw [touch]
  split
  · rfl
  · next hcell =>
    rw [peek_record]
    split
    · next hab =>
      subst hab
      simp only [Option.not_isSome_iff_eq_none] at hcell
      simp [peek, hcell]
    · rfl

/-- Touching a cell does not change the limit. -/
@[simp] theorem touch_limit (tape : Tape) (a : Nat) : (tape.touch a).limit = tape.limit := by
  rw [touch]
  split <;> rfl

/-- Touching a cell does not change the memory. -/
@[simp] theorem touch_memory (tape : Tape) (a : Nat) : (tape.touch a).memory = tape.memory := by
  rw [touch]
  split <;> rfl

/-- A tape without a limit has every cell, unless its memory is bounded and exhausted. -/
theorem fault?_cases {tape : Tape} (hlimit : tape.limit = 0) (access : Access) (a : Nat) :
    (tape.memory = .addressable ∧ ∃ fault, tape.fault? access a = some (.memory fault)) ∨
      tape.fault? access a = none := by
  rw [fault?, if_neg (by simp [hlimit])]
  cases hmemory : tape.memory with
  | endless => exact Or.inr rfl
  | addressable =>
    cases hfault : Memory.addressable.fault? tape.pageSize tape.places (a / tape.pageSize) with
    | none => exact Or.inr rfl
    | some fault => exact Or.inl ⟨rfl, fault, rfl⟩

end Tape

/-! ### The input -/

namespace Input

/-- The bytes that are still to be read. -/
def pending (input : Input) : Bytes :=
  (input.current.toList ++ input.queue).flatMap (·.data)

/-- Whether no reader reports anything but the end of the file at its end. -/
def EndsPlainly (input : Input) : Prop :=
  ∀ reader ∈ input.current.toList ++ input.queue, reader.ending = .endOfFile

/-- A queue of readers without any bytes comes to the end of the file. -/
private theorem readFrom_of_nil (queue : List Reader) (hend : ∀ r ∈ queue, r.ending = .endOfFile)
    (hdata : queue.flatMap (·.data) = []) : ∀ input : Input, input.current = none →
      ∃ input', input.readFrom queue = (.error .endOfFile, input') ∧
        input'.current = none ∧ input'.queue = [] := by
  induction queue with
  | nil => exact fun input hcurrent => ⟨_, rfl, hcurrent, rfl⟩
  | cons reader queue ih =>
    intro input _
    simp only [List.flatMap_cons, List.append_eq_nil_iff] at hdata
    have htake : (input.start reader).take reader = none := by
      simp [take, hdata.1, hend reader (by simp)]
    simp only [readFrom, htake]
    exact ih (fun r hr => hend r (by simp [hr])) hdata.2 _ rfl

/-- A queue of readers gives the first of its bytes and keeps the others. -/
private theorem readFrom_of_cons {b : UInt8} {rest : Bytes} (queue : List Reader)
    (hend : ∀ r ∈ queue, r.ending = .endOfFile) (hdata : queue.flatMap (·.data) = b :: rest) :
    ∀ input : Input, ∃ input', input.readFrom queue = (.ok b, input') ∧
      input'.pending = rest ∧ input'.EndsPlainly := by
  induction queue with
  | nil => simp at hdata
  | cons reader queue ih =>
    intro input
    cases hreader : reader.data with
    | nil =>
      -- A reader without data is at its end, and the next one is started.
      have htake : (input.start reader).take reader = none := by
        simp [take, hreader, hend reader (by simp)]
      simp only [readFrom, htake]
      exact ih (fun r hr => hend r (by simp [hr])) (by simpa [hreader] using hdata) _
    | cons c data =>
      simp only [List.flatMap_cons, hreader, List.cons_append, List.cons.injEq] at hdata
      obtain ⟨rfl, rfl⟩ := hdata
      simp only [readFrom, take, hreader]
      refine ⟨_, rfl, by simp [pending], fun r hr => ?_⟩
      simp only [noteByte_current, Option.toList_some, List.mem_append, List.mem_singleton] at hr
      rcases hr with rfl | hr
      · exact hend reader (by simp)
      · exact hend r (by simp [hr])

/-- Reading where no bytes are left comes to the end of the file. -/
theorem readByte_of_nil {input : Input} (hend : input.EndsPlainly) (hdata : input.pending = []) :
    ∃ input', input.readByte = (.error .endOfFile, input') ∧ input'.pending = [] ∧
      input'.EndsPlainly := by
  simp only [pending, EndsPlainly] at hdata hend
  cases hcurrent : input.current with
  | none =>
    rw [hcurrent] at hdata hend
    obtain ⟨input', hread, hnone, hqueue⟩ := readFrom_of_nil input.queue hend hdata input hcurrent
    exact ⟨input', by simp [readByte, hcurrent, hread], by simp [pending, hnone, hqueue],
      by simp [EndsPlainly, hnone, hqueue]⟩
  | some reader =>
    rw [hcurrent] at hdata hend
    simp only [Option.toList_some, List.singleton_append, List.flatMap_cons,
      List.append_eq_nil_iff] at hdata hend
    have htake : input.take reader = none := by simp [take, hdata.1, hend reader (by simp)]
    obtain ⟨input', hread, hnone, hqueue⟩ := readFrom_of_nil input.queue
      (fun r hr => hend r (by simp [hr])) hdata.2 (input.finish reader) rfl
    exact ⟨input', by simp [readByte, hcurrent, htake, hread], by simp [pending, hnone, hqueue],
      by simp [EndsPlainly, hnone, hqueue]⟩

/-- Reading gives the first of the bytes left and keeps the others. -/
theorem readByte_of_cons {input : Input} {b : UInt8} {rest : Bytes} (hend : input.EndsPlainly)
    (hdata : input.pending = b :: rest) :
    ∃ input', input.readByte = (.ok b, input') ∧ input'.pending = rest ∧ input'.EndsPlainly := by
  simp only [pending, EndsPlainly] at hdata hend
  cases hcurrent : input.current with
  | none =>
    rw [hcurrent] at hdata hend
    obtain ⟨input', hread, h⟩ := readFrom_of_cons input.queue hend hdata input
    exact ⟨input', by simp [readByte, hcurrent, hread], h⟩
  | some reader =>
    rw [hcurrent] at hdata hend
    simp only [Option.toList_some, List.singleton_append, List.flatMap_cons] at hdata hend
    cases hreader : reader.data with
    | nil =>
      -- The current reader has ended, so that the byte is from the queue.
      have htake : input.take reader = none := by simp [take, hreader, hend reader (by simp)]
      obtain ⟨input', hread, h⟩ := readFrom_of_cons input.queue
        (fun r hr => hend r (by simp [hr])) (by simpa [hreader] using hdata) (input.finish reader)
      exact ⟨input', by simp [readByte, hcurrent, htake, hread], h⟩
    | cons c data =>
      rw [hreader, List.cons_append, List.cons.injEq] at hdata
      obtain ⟨rfl, rfl⟩ := hdata
      simp only [readByte, hcurrent, take, hreader]
      refine ⟨_, rfl, by simp [pending], fun r hr => ?_⟩
      simp only [noteByte_current, noteByte_queue, Option.toList_some, List.mem_append,
        List.mem_singleton] at hr
      rcases hr with rfl | hr
      · exact hend reader (by simp)
      · exact hend r (by simp [hr])

end Input

/-! ### The sinks -/

namespace Sinks

/-- What has reached the sink at a position. -/
def received (sinks : Sinks) (i : Nat) : Bytes :=
  (sinks[i]?.map Sink.received).getD []

/-- Whether the sink at a position, if there is one, takes any number of bytes. -/
def Unlimited (sinks : Sinks) (i : Nat) : Prop :=
  ∀ sink, sinks[i]? = some sink → sink.room = none

/-- A sink without a limit takes all bytes. -/
theorem write_eq {i : Nat} {bytes : Bytes} : ∀ {sinks : Sinks}, sinks.Unlimited i →
    (sinks.write i bytes).1 = ⟨bytes.length, none⟩ := by
  induction i with
  | zero =>
    intro sinks h
    cases sinks with
    | nil => rfl
    | cons sink rest => simp [write, Sink.write, h sink (by simp)]
  | succ i ih =>
    intro sinks h
    cases sinks with
    | nil => rfl
    | cons sink rest => exact ih (fun x hx => h x (by simpa using hx))

/-- A write reaches the sink at its position and no other one. -/
theorem write_getElem? (i j : Nat) (bytes : Bytes) : ∀ sinks : Sinks,
    (sinks.write i bytes).2[j]? =
      if j = i then sinks[i]?.map fun sink => (sink.write bytes).2 else sinks[j]? := by
  induction i generalizing j with
  | zero =>
    intro sinks
    cases sinks with
    | nil => simp [write]
    | cons sink rest => cases j <;> simp [write]
  | succ i ih =>
    intro sinks
    cases sinks with
    | nil => simp [write]
    | cons sink rest => cases j <;> simp [write, ih]

/-- Writing puts no limit to a sink. -/
theorem unlimited_write {sinks : Sinks} {i j : Nat} {bytes : Bytes} (h : sinks.Unlimited j) :
    (sinks.write i bytes).2.Unlimited j := by
  intro sink hsink
  rw [write_getElem?] at hsink
  split at hsink
  · next hij =>
    subst hij
    obtain ⟨old, hold, rfl⟩ := Option.map_eq_some_iff.mp hsink
    simp [Sink.write, h old hold]
  · exact h sink hsink

/-- What is written to one sink is not received by another. -/
theorem received_write_of_ne {sinks : Sinks} {i j : Nat} {bytes : Bytes} (hij : j ≠ i) :
    (sinks.write i bytes).2.received j = sinks.received j := by
  simp [received, write_getElem?, hij]

/-- What is written to a sink is received behind what it has received before. -/
theorem received_write_self {sinks : Sinks} {i : Nat} {bytes : Bytes} (hi : i < sinks.length)
    (h : sinks.Unlimited i) :
    (sinks.write i bytes).2.received i = sinks.received i ++ bytes := by
  have hsink : sinks[i]? = some sinks[i] := List.getElem?_eq_getElem hi
  simp [received, write_getElem?, hsink, Sink.write, h _ hsink, Sink.received]

/-- Writing makes no sinks. -/
@[simp] theorem length_write (i : Nat) (bytes : Bytes) : ∀ sinks : Sinks,
    (sinks.write i bytes).2.length = sinks.length := by
  induction i with
  | zero => intro sinks; cases sinks <;> simp [write]
  | succ i ih => intro sinks; cases sinks <;> simp [write, ih]

/-- Writes went past the sink at a position: it received nothing, and sinks that took any number of
bytes still do. -/
structure Pass (sink : Nat) (before after : Sinks) : Prop where
  /-- No sink is added or taken away. -/
  length : after.length = before.length
  /-- Sinks stay unlimited. -/
  unlimited : ∀ j, before.Unlimited j → after.Unlimited j
  /-- Nothing reaches the sink. -/
  received : after.received sink = before.received sink

/-- Nothing passes a sink by. -/
theorem Pass.refl (sink : Nat) (sinks : Sinks) : Pass sink sinks sinks :=
  ⟨rfl, fun _ h => h, rfl⟩

/-- What passes a sink by twice passes it by. -/
theorem Pass.trans {sink : Nat} {a b c : Sinks} (hab : Pass sink a b) (hbc : Pass sink b c) :
    Pass sink a c :=
  ⟨hbc.length.trans hab.length, fun j h => hbc.unlimited j (hab.unlimited j h),
    hbc.received.trans hab.received⟩

/-- What is written to another sink passes a sink by. -/
theorem pass_write {sink i : Nat} (hi : i ≠ sink) (bytes : Bytes) (sinks : Sinks) :
    Pass sink sinks (sinks.write i bytes).2 :=
  ⟨length_write i bytes sinks, fun _ => unlimited_write, received_write_of_ne (Ne.symm hi)⟩

/-- Log records go past a sink that no handler writes to. -/
theorem pass_log {sink : Nat} (logger : Log.Logger) (hlogger : ∀ h ∈ logger, h.sink ≠ sink)
    (record : Log.Record) : ∀ sinks : Sinks, Pass sink sinks (logger.log record sinks) := by
  induction logger with
  | nil => exact Pass.refl sink
  | cons handler rest ih =>
    intro sinks
    have hrest := ih fun h hh => hlogger h (by simp [hh])
    rw [Log.Logger.log, List.foldl_cons]
    split
    · exact (pass_write (hlogger handler (by simp)) _ sinks).trans (hrest _)
    · exact hrest sinks

end Sinks

/-- Whether an output goes to unlimited memory, and past the sink at a position. -/
def Output.Avoids (sink : Nat) (sinks : Sinks) (output : Output) : Prop :=
  ∀ channel ∈ output, ∃ i, channel = .direct i ∧ i ≠ sink ∧ sinks.Unlimited i

/-- Output that avoids a sink passes it by, and is taken as a whole. -/
private theorem Output.writeEach_of_avoids {sink : Nat} (bytes : Bytes) {output : Output}
    {sinks : Sinks} (h : output.Avoids sink sinks) : ∃ sinks',
      output.writeEach bytes sinks = (⟨bytes.length, none⟩, output, sinks') ∧
        Sinks.Pass sink sinks sinks' := by
  induction output generalizing sinks with
  | nil => exact ⟨sinks, rfl, Sinks.Pass.refl sink sinks⟩
  | cons channel rest ih =>
    obtain ⟨i, rfl, hi, hroom⟩ := h channel (by simp)
    have hpass := Sinks.pass_write hi bytes sinks
    -- The other sinks have as much room after this write as before.
    have hrest : Output.Avoids sink (sinks.write i bytes).2 rest := by
      intro c hc
      obtain ⟨j, hj, hne, hunlimited⟩ := h c (by simp [hc])
      exact ⟨j, hj, hne, hpass.unlimited j hunlimited⟩
    obtain ⟨sinks', hwrite, hpass'⟩ := ih hrest
    refine ⟨sinks', ?_, hpass.trans hpass'⟩
    simp [writeEach, Channel.write, Sinks.write_eq hroom, hwrite]

/-- Bytes written to such an output go past the sink, and the write does not fail. -/
theorem Output.write_of_avoids {sink : Nat} (bytes : Bytes) {output : Output} {sinks : Sinks}
    (h : output.Avoids sink sinks) : ∃ sinks',
      output.write bytes sinks = (⟨bytes.length, none⟩, output, sinks') ∧
        Sinks.Pass sink sinks sinks' := by
  match output, h with
  | [], h => exact writeEach_of_avoids bytes h
  | [channel], h =>
    obtain ⟨i, rfl, hi, hroom⟩ := h channel (by simp)
    exact ⟨_, by simp [write, Channel.write, Sinks.write_eq hroom], Sinks.pass_write hi bytes sinks⟩
  | first :: second :: rest, h => exact writeEach_of_avoids bytes h

/-! ### The machine -/

namespace Machine

/-- What a program sees of a machine whose output goes to the sink at a position. -/
def view (m : Machine) (sink : Nat) : Snapshot where
  cursor := m.cursor
  cells pos := if pos < 0 then 0 else m.tape.peek pos.toNat
  input := m.input.pending
  output := m.sinks.received sink

/-- Nothing but a lack of memory hinders a machine: its tape has no limit, its output goes to the
sink at a position and its dump to other ones, all of them unlimited, and its input ends plainly.
Log records go elsewhere. -/
structure Unhindered (m : Machine) (sink : Nat) (memory : Memory) : Prop where
  /-- The tape has no limit. -/
  limit : m.tape.limit = 0
  /-- The memory that there is for the tape. -/
  memory_eq : m.tape.memory = memory
  /-- The output goes to the sink, at once. -/
  output : m.output = [.direct sink]
  /-- There is such a sink. -/
  exists_sink : sink < m.sinks.length
  /-- The sink takes any number of bytes. -/
  room : m.sinks.Unlimited sink
  /-- Dumps go elsewhere. -/
  dump : m.dump.Avoids sink m.sinks
  /-- Log records go elsewhere. -/
  logger : ∀ handler ∈ m.logger, handler.sink ≠ sink
  /-- The readers report nothing but the end of the file. -/
  input : m.input.EndsPlainly

/-- A machine that nothing hinders, at the start of a run on an input. -/
structure Ready (m : Machine) (sink : Nat) (memory : Memory) (input : Bytes) : Prop where
  /-- Nothing hinders the machine. -/
  unhindered : m.Unhindered sink memory
  /-- The tape is blank, the cursor on its first cell, and nothing has been written. -/
  view_eq : m.view sink = .fresh input

/-- A machine set up to run on an input, with its output kept in memory. -/
def forInput (memory : Memory) (input : Bytes) : Machine :=
  let runner := ((Runner.fresh [{ kind := .memory }]).addInput
    { name := [], data := input }).setOutput (some 0)
  { runner.machine with tape := Tape.fresh memory 0 0 }

/-- A machine made for an `input` is ready for it. -/
theorem ready_forInput (memory : Memory) (input : Bytes) :
    (forInput memory input).Ready 0 memory input where
  unhindered :=
    { limit := rfl
      memory_eq := rfl
      output := rfl
      exists_sink := Nat.zero_lt_one
      room := fun sink hsink => by cases hsink; rfl
      dump := nofun
      logger := nofun
      input := fun reader hreader => by
        cases List.mem_singleton.mp hreader
        rfl }
  view_eq := by
    refine Snapshot.ext rfl ?_ (List.append_nil input) rfl
    funext pos
    simp [view, Tape.peek, Tape.cell?, Tape.fresh, forInput, Snapshot.fresh]

/-- What a primitive operation leads to, as far as a program is concerned. Other stops than those
named here do not occur where nothing hinders the machine. -/
def endingOf (sink : Nat) : Progress Unit → Option Ending
  | .next _ m => some (.done (m.view sink))
  | .stop (.input .endOfFile) m => some (.outOfInput (m.view sink))
  | .stop (.underflow _ _) _ => some .offTape
  | .stop _ _ => none

/-- Whether an operation stops for lack of memory, which takes bounded memory. -/
def Exhausts {α : Type} (memory : Memory) (progress : Progress α) : Prop :=
  memory = .addressable ∧ ∃ fault m, progress = .stop (.memory fault) m

/-- Whether an operation leaves a machine that nothing hinders, at the end of the input as well, and
did not fail because of an output. -/
def Leaves (sink : Nat) (memory : Memory) : Progress Unit → Prop
  | .next _ m => m.Unhindered sink memory
  | .stop (.input .endOfFile) m => m.Unhindered sink memory
  | .stop (.output _) _ => False
  | .stop _ _ => True

section Primitives

variable {m : Machine} {sink : Nat} {memory : Memory}

/-- The cursor of a machine is that of its view. -/
private theorem view_at (m : Machine) (pos : Nat) :
    { m with cursor := pos }.view sink = (m.view sink).goTo pos := rfl

/-- What passes the sink by is not seen. -/
private theorem view_of_pass {sinks : Sinks} (hpass : Sinks.Pass sink m.sinks sinks) :
    { m with sinks }.view sink = m.view sink :=
  Snapshot.ext rfl rfl rfl hpass.received

/-- Writes past the sink of the output hinder nothing. -/
private theorem Unhindered.of_pass (h : m.Unhindered sink memory) {sinks : Sinks}
    (hpass : Sinks.Pass sink m.sinks sinks) : { m with sinks }.Unhindered sink memory where
  limit := h.limit
  memory_eq := h.memory_eq
  output := h.output
  exists_sink := hpass.length ▸ h.exists_sink
  room := hpass.unlimited sink h.room
  dump channel hc := by
    obtain ⟨i, hi, hne, hunlimited⟩ := h.dump channel hc
    exact ⟨i, hi, hne, hpass.unlimited i hunlimited⟩
  logger := h.logger
  input := h.input

/-- Tracing shows nothing to the program. -/
theorem Unhindered.trace (h : m.Unhindered sink memory) (event : Event) :
    (m.trace event).Unhindered sink memory ∧ (m.trace event).view sink = m.view sink := by
  unfold Machine.trace
  split
  · have hpass := Sinks.pass_log m.logger h.logger ⟨.debug, event.message, []⟩ m.sinks
    exact ⟨h.of_pass hpass, view_of_pass hpass⟩
  · exact ⟨h, rfl⟩

/-- A load tells the cell under the cursor, if there is memory for it. -/
theorem Unhindered.load (h : m.Unhindered sink memory) : Exhausts memory m.load ∨
    ∃ m', m.load = .next (m.view sink).here m' ∧ m'.Unhindered sink memory ∧
      m'.view sink = m.view sink := by
  obtain ⟨hmemory, fault, hfault⟩ | hfault := Tape.fault?_cases h.limit .load m.cursor
  · exact Or.inl ⟨h.memory_eq ▸ hmemory, fault, m, by simp [Machine.load, hfault, Stop.ofTape]⟩
  · refine Or.inr ⟨{ m with tape := m.tape.touch m.cursor }, ?_, ⟨by simp [h.limit],
      by simp [h.memory_eq], h.output, h.exists_sink, h.room, h.dump, h.logger, h.input⟩, ?_⟩
    · have hcursor : ¬ (m.cursor : Int) < 0 := by omega
      simp [Machine.load, hfault, Snapshot.here, view, hcursor]
    · simp only [view, Tape.peek_touch]

/-- A store sets the cell under the cursor, if there is memory for it. -/
theorem Unhindered.store (h : m.Unhindered sink memory) (value : UInt8) :
    Exhausts memory (m.store value) ∨ ∃ m', m.store value = .next () m' ∧
      m'.Unhindered sink memory ∧ m'.view sink = (m.view sink).put value := by
  obtain ⟨hmemory, fault, hfault⟩ | hfault := Tape.fault?_cases h.limit .store m.cursor
  · exact Or.inl ⟨h.memory_eq ▸ hmemory, fault, m, by simp [Machine.store, hfault, Stop.ofTape]⟩
  have hrecord : { m with tape := m.tape.record m.cursor value }.Unhindered sink memory :=
    ⟨h.limit, h.memory_eq, h.output, h.exists_sink, h.room, h.dump, h.logger, h.input⟩
  obtain ⟨htrace, hview⟩ := hrecord.trace (.stored m.cursor value)
  refine Or.inr ⟨_, by simp [Machine.store, hfault], htrace, ?_⟩
  rw [hview]
  refine Snapshot.ext rfl ?_ rfl rfl
  funext pos
  rw [Snapshot.put, Snapshot.set_cells, Function.update_apply]
  exact m.tape.peek_toNat_record m.cursor value pos

/-- A move ends as the view says. -/
theorem Unhindered.move (h : m.Unhindered sink memory) (amount : Int64) :
    endingOf sink (m.move amount) = some ((m.view sink).move amount.toInt) ∧
      Leaves sink memory (m.move amount) := by
  obtain ⟨htrace, hview⟩ := h.trace (.moved m.cursor ((m.cursor : Int) + amount.toInt).toNat)
  have hiff : (0 ≤ (m.cursor : Int) + amount.toInt ∧
      ((m.cursor : Int) + amount.toInt).toNat ≤ Register.lastPosition) ↔
      OnTape ((m.cursor : Int) + amount.toInt) := by
    unfold OnTape
    omega
  have hcursor : (m.view sink).cursor = m.cursor := rfl
  simp only [Machine.move, Snapshot.move, hcursor, hiff]
  by_cases htape : OnTape ((m.cursor : Int) + amount.toInt)
  · simp only [if_pos htape, endingOf, Option.some.injEq, Ending.done.injEq]
    refine ⟨?_, htrace.limit, htrace.memory_eq, htrace.output, htrace.exists_sink, htrace.room,
      htrace.dump, htrace.logger, htrace.input⟩
    rw [view_at, hview, Int.toNat_of_nonneg htape.1]
  · simp [if_neg htape, endingOf, Leaves]

/-- An addition adds to the cell under the cursor, if there is memory for it. -/
theorem Unhindered.add (h : m.Unhindered sink memory) (amount : Int64) :
    Exhausts memory (m.add amount) ∨ ∃ m', m.add amount = .next () m' ∧ m'.Unhindered sink memory ∧
      m'.view sink = (m.view sink).put ((m.view sink).here + UInt8.ofInt amount.toInt) := by
  obtain ⟨hmemory, fault, m₁, hload⟩ | ⟨m₁, hload, h₁, hview₁⟩ := h.load
  · exact Or.inl ⟨hmemory, fault, m₁, by simp [Machine.add, hload]⟩
  obtain hfault | ⟨m₂, hstore, h₂, hview₂⟩ :=
    h₁.store ((m.view sink).here + UInt8.ofInt amount.toInt)
  · exact Or.inl (by simpa [Machine.add, hload] using hfault)
  · exact Or.inr ⟨m₂, by simp [Machine.add, hload, hstore], h₂, by rw [hview₂, hview₁]⟩

/-- A write appends the cell under the cursor to the output, if there is memory for it. -/
theorem Unhindered.write (h : m.Unhindered sink memory) : Exhausts memory m.write ∨
    ∃ m', m.write = .next () m' ∧ m'.Unhindered sink memory ∧
      m'.view sink = (m.view sink).emit [(m.view sink).here] := by
  obtain ⟨hmemory, fault, m₁, hload⟩ | ⟨m₁, hload, h₁, hview₁⟩ := h.load
  · exact Or.inl ⟨hmemory, fault, m₁, by simp [Machine.write, hload]⟩
  -- Tracing the byte first does not hinder the machine, nor is it seen.
  obtain ⟨h₂, hview₂⟩ := h₁.trace (.wrote (m.view sink).here)
  generalize hm₂ : m₁.trace (.wrote (m.view sink).here) = m₂ at h₂ hview₂
  have hwrite : Output.writeByte (m.view sink).here m₂.output m₂.sinks =
      (none, m₂.output, (m₂.sinks.write sink [(m.view sink).here]).2) := by
    simp [h₂.output, Output.writeByte, Channel.writeByte, Sinks.write_eq h₂.room]
  refine Or.inr ⟨{ m₂ with sinks := (m₂.sinks.write sink [(m.view sink).here]).2 }, ?_, ?_, ?_⟩
  · simp [Machine.write, hload, Machine.writeByte, hm₂, hwrite]
  · refine ⟨h₂.limit, h₂.memory_eq, h₂.output, by simpa using h₂.exists_sink,
      Sinks.unlimited_write h₂.room, fun channel hc => ?_, h₂.logger, h₂.input⟩
    obtain ⟨i, hi, hne, hunlimited⟩ := h₂.dump channel hc
    exact ⟨i, hi, hne, Sinks.unlimited_write hunlimited⟩
  · rw [← hview₁, ← hview₂]
    exact Snapshot.ext rfl rfl rfl (Sinks.received_write_self h₂.exists_sink h₂.room)

/-- Where the input has failed or ended, a read stops. -/
theorem readVisible_of_error {fault : StreamFault} {input : Input}
    (h : m.input.readByte = (.error fault, input)) :
    m.readVisible = .stop (.input fault) { m with input } := by
  unfold Machine.readVisible
  split
  · next heq =>
    cases h.symm.trans heq
    rfl
  · next heq => cases h.symm.trans heq

/-- A control is skipped, and any other byte is read. -/
theorem readVisible_of_ok {b : UInt8} {input : Input}
    (h : m.input.readByte = (.ok b, input)) :
    m.readVisible = if b < 0x20 then ({ m with input }.trace (.skipped b)).readVisible
      else .next b ({ m with input }.trace (.read b)) := by
  rw [Machine.readVisible]
  split
  · next heq => cases h.symm.trans heq
  · next heq =>
    cases h.symm.trans heq
    rfl

/-- Reading skips controls, and stops at the end of the input. -/
theorem Unhindered.readVisible (h : m.Unhindered sink memory) :
    match nextVisible (m.view sink).input with
    | none => ∃ m', m.readVisible = .stop (.input .endOfFile) m' ∧ m'.Unhindered sink memory ∧
        m'.view sink = { m.view sink with input := [] }
    | some (b, rest) => ∃ m', m.readVisible = .next b m' ∧ m'.Unhindered sink memory ∧
        m'.view sink = { m.view sink with input := rest } := by
  -- Every byte that is skipped leaves fewer of them, so the induction is on the bytes left.
  generalize hdata : (m.view sink).input = data
  induction data generalizing m with
  | nil =>
    obtain ⟨input', hread, hnil, hend⟩ := Input.readByte_of_nil h.input hdata
    exact ⟨_, readVisible_of_error hread, ⟨h.limit, h.memory_eq, h.output, h.exists_sink, h.room,
      h.dump, h.logger, hend⟩, Snapshot.ext rfl rfl hnil rfl⟩
  | cons b rest ih =>
    obtain ⟨input', hread, hrest, hend⟩ := Input.readByte_of_cons h.input hdata
    have h₁ : { m with input := input' }.Unhindered sink memory :=
      ⟨h.limit, h.memory_eq, h.output, h.exists_sink, h.room, h.dump, h.logger, hend⟩
    have hview₁ : { m with input := input' }.view sink = { m.view sink with input := rest } :=
      Snapshot.ext rfl rfl hrest rfl
    rw [readVisible_of_ok hread, nextVisible]
    by_cases hcontrol : b < 0x20
    · obtain ⟨h₂, hview₂⟩ := h₁.trace (.skipped b)
      have hnext := ih h₂ (by rw [hview₂, hview₁])
      simpa only [if_pos hcontrol, hview₂, hview₁] using hnext
    · obtain ⟨h₂, hview₂⟩ := h₁.trace (.read b)
      simp only [if_neg hcontrol]
      exact ⟨_, rfl, h₂, hview₂.trans hview₁⟩

/-- A read ends as the view says, if there is memory for the byte. -/
theorem Unhindered.read (h : m.Unhindered sink memory) : Exhausts memory m.read ∨
    (endingOf sink m.read = some (m.view sink).read ∧ Leaves sink memory m.read) := by
  -- Output to memory has nothing to flush.
  have hflush : Output.flush m.output m.sinks = (none, m.output, m.sinks) := by
    simp [h.output, Output.flush, Channel.flush]
  have hvisible := h.readVisible
  simp only [Machine.read, hflush, Snapshot.read]
  cases hnext : nextVisible (m.view sink).input with
  | none =>
    rw [hnext] at hvisible
    obtain ⟨m', hread, h', hview⟩ := hvisible
    exact Or.inr (by simp [hread, endingOf, hview, Leaves, h'])
  | some found =>
    rw [hnext] at hvisible
    obtain ⟨m₁, hread, h₁, hview₁⟩ := hvisible
    simp only [hread]
    obtain hfault | ⟨m₂, hstore, h₂, hview₂⟩ := h₁.store found.1
    · exact Or.inl hfault
    · exact Or.inr (by simp [hstore, endingOf, hview₂, hview₁, Leaves, h₂])

/-- Tracing some lines is not seen. -/
private theorem Unhindered.traceLines (h : m.Unhindered sink memory) (lines : List Bytes) :
    (lines.foldl (fun m line => m.trace (.status line)) m).Unhindered sink memory ∧
      (lines.foldl (fun m line => m.trace (.status line)) m).view sink = m.view sink := by
  induction lines generalizing m with
  | nil => exact ⟨h, rfl⟩
  | cons line rest ih =>
    obtain ⟨h₁, hview₁⟩ := h.trace (.status line)
    obtain ⟨h₂, hview₂⟩ := ih h₁
    exact ⟨h₂, hview₂.trans hview₁⟩

/-- A dump is not seen. -/
theorem Unhindered.dumpStatus (h : m.Unhindered sink memory) : ∃ m', m.dumpStatus = .next () m' ∧
    m'.Unhindered sink memory ∧ m'.view sink = m.view sink := by
  -- What is traced before the dump, if anything, is not seen by the program.
  obtain ⟨m₁, hm₁, h₁, hview₁⟩ : ∃ m₁, m₁ =
      (if m.tracing then (Bytes.lines (Bytes.dropFinalNewline m.status)).foldl
        (fun m line => m.trace (.status line)) m else m) ∧
      m₁.Unhindered sink memory ∧ m₁.view sink = m.view sink := by
    refine ⟨_, rfl, ?_⟩
    split
    · exact h.traceLines _
    · exact ⟨h, rfl⟩
  obtain ⟨sinks', hwrite, hpass⟩ := Output.write_of_avoids m.status h₁.dump
  refine ⟨{ m₁ with sinks := sinks' }, ?_, h₁.of_pass hpass, (view_of_pass hpass).trans hview₁⟩
  simp [Machine.dumpStatus, ← hm₁, hwrite]

/-- A tick is not seen. -/
theorem Unhindered.tick (h : m.Unhindered sink memory) : ∃ m', m.tick .endless = .next () m' ∧
    m'.Unhindered sink memory ∧ m'.view sink = m.view sink := by
  refine ⟨{ m with ticks := m.ticks + 1 }, ?_,
    ⟨h.limit, h.memory_eq, h.output, h.exists_sink, h.room, h.dump, h.logger, h.input⟩, rfl⟩
  simp [Machine.tick, Patience.atCheck]

end Primitives

end Machine

/-- What a node that is no loop does; nothing can be said of a node without a meaning. -/
def Node.act (node : Node) (s : Snapshot) : Option Ending :=
  match node.op with
  | .write => some s.write
  | .read => some s.read
  | .move => some (s.move node.amount.toInt)
  | .add => some (s.add node.amount.toInt)
  | .clear => some (.done (s.put 0))
  | .dump => some (.done s)
  | _ => none

/-- On a machine that nothing hinders, a node that is no loop does what `Node.act` says, and nothing
hinders the machine afterwards, also at the end of the input, unless memory is exhausted. -/
theorem Machine.perform_ending {m : Machine} {sink : Nat} {memory : Memory}
    (h : m.Unhindered sink memory) (node : Node) : Exhausts memory (m.perform node) ∨
      (endingOf sink (m.perform node) = node.act (m.view sink) ∧
        Leaves sink memory (m.perform node)) := by
  unfold Machine.perform Node.act
  -- Both sides split on the operation, in the same order.
  generalize node.op = op
  split
  · refine h.write.imp_right ?_
    rintro ⟨m', heq, h', hview⟩
    simp [heq, endingOf, hview, Snapshot.write, Leaves, h']
  · exact h.read
  · exact Or.inr (h.move node.amount)
  · refine (h.add node.amount).imp_right ?_
    rintro ⟨m', heq, h', hview⟩
    simp [heq, endingOf, hview, Snapshot.add, Leaves, h']
  · refine (h.store 0).imp_right ?_
    rintro ⟨m', heq, h', hview⟩
    simp [heq, endingOf, hview, Leaves, h']
  · obtain ⟨m', heq, h', hview⟩ := h.dumpStatus
    simp [heq, endingOf, hview, Leaves, h']
  · simp [endingOf, Leaves]

end TapeMachine
