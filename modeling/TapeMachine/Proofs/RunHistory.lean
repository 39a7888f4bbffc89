import TapeMachine.Proofs.StreamHistory
import TapeMachine.Proofs.MemoryUse

/-!
# The streams in the course of a run

Every operation of a machine takes its streams from an earlier to a later time: log handlers and the
ways to the sinks stay, sinks only see more, and no faults come of the streams that could not come
of them before. What holds of an operation holds of a step, and what holds of a step of a whole run.

The module introduces:

* `Machine.Precedes`: the streams of a machine at an earlier and a later time;
* `Machine.fetch`: the part of a read that is about the streams;
* `Machine.leads_perform`: what a node that is no loop may do to the streams;
* `Machine.IsInMemory`: output and dump are kept in memory, where there is nothing to flush;
* `Phase.precedes_after`: a run takes the streams of its machine from earlier to later times;
* `Runner.received_run`: what a sink has received in the course of a run it still has at its end.
-/

namespace TapeMachine

/-- An operation that goes on where another one ends, unless this one stops. -/
def Progress.andThen {α β : Type} (goOn : α → Machine → Progress β) : Progress α → Progress β
  | .next value m => goOn value m
  | .stop cause m => .stop cause m

/-- What holds after an operation and is kept by what follows holds after both. -/
theorem Progress.machine_andThen {α β : Type} {p : Machine → Prop} {progress : Progress α}
    {goOn : α → Machine → Progress β} (h : p progress.machine)
    (hgoOn : ∀ value m, progress = .next value m → p m → p (goOn value m).machine) :
    p (progress.andThen goOn).machine := by
  cases progress with
  | next value m => exact hgoOn value m rfl h
  | stop cause m => exact h

/-- Log records reach the sinks of the handlers only. -/
theorem Log.Logger.leadsTo_log (record : Log.Record) (logger : Log.Logger) : ∀ sinks : Sinks,
    Sinks.LeadsTo (fun i => ∃ handler ∈ logger, handler.sink = i) sinks
      (logger.log record sinks) := by
  induction logger with
  | nil => exact fun sinks => .refl
  | cons handler rest ih =>
    intro sinks
    have hrest : ∀ sinks' : Sinks, Sinks.LeadsTo (fun i => ∃ h ∈ handler :: rest, h.sink = i) sinks'
        (Log.Logger.log rest record sinks') := fun sinks' =>
      (ih sinks').mono fun i ⟨h, hh, hi⟩ => ⟨h, List.mem_cons_of_mem _ hh, hi⟩
    rw [log, List.foldl_cons]
    split
    · have hwrite := (sinks.leadsTo_write handler.sink
        (record.line handler.stamp handler.format)).mono fun i hi =>
          (⟨handler, List.mem_cons_self .., hi.symm⟩ : ∃ h ∈ handler :: rest, h.sink = i)
      exact hwrite.trans (hrest _)
    · exact hrest sinks

namespace Machine

/-- Whether a machine has a way to the sink at a position. -/
def WritesTo (m : Machine) (i : Nat) : Prop :=
  (∃ handler ∈ m.logger, handler.sink = i) ∨ m.output.WritesTo i ∨ m.dump.WritesTo i

/-- Whether a fault can come of the output or the dump of a machine. -/
def MayReport (m : Machine) (fault : StreamFault) : Prop :=
  m.output.MayReport m.sinks fault ∨ m.dump.MayReport m.sinks fault

/-- The streams of a machine at an earlier and a later time. -/
structure Precedes (m m' : Machine) : Prop where
  /-- The log handlers stay. -/
  logger : m'.logger = m.logger
  /-- The ways of the output stay. -/
  output : m'.output.map Channel.way = m.output.map Channel.way
  /-- The ways of the dump stay. -/
  dump : m'.dump.map Channel.way = m.dump.map Channel.way
  /-- Sinks are reached on these ways only. -/
  sinks : Sinks.LeadsTo m.WritesTo m.sinks m'.sinks
  /-- No other faults can come of the streams later. -/
  mayReport : ∀ fault, m'.MayReport fault → m.MayReport fault

variable {m m' m'' : Machine}

/-- A machine precedes itself. -/
theorem Precedes.refl (m : Machine) : m.Precedes m :=
  ⟨rfl, rfl, rfl, .refl, fun _ h => h⟩

/-- Nothing but the streams matters. -/
theorem Precedes.congr (h : m.Precedes m') (hlogger : m''.logger = m'.logger)
    (houtput : m''.output = m'.output) (hdump : m''.dump = m'.dump)
    (hsinks : m''.sinks = m'.sinks) :
    m.Precedes m'' where
  logger := hlogger.trans h.logger
  output := houtput ▸ h.output
  dump := hdump ▸ h.dump
  sinks := hsinks ▸ h.sinks
  mayReport f hf := by
    rw [MayReport, houtput, hdump, hsinks] at hf
    exact h.mayReport f hf

/-- Channels that go the same ways go to the same sinks. -/
private theorem map_sink_eq {output output' : Output}
    (h : output'.map Channel.way = output.map Channel.way) :
    output'.map Channel.sink = output.map Channel.sink := by
  have hmap := congrArg (List.map Prod.snd) h
  rwa [List.map_map, List.map_map] at hmap

/-- The output of a machine goes to the same sinks later. -/
theorem Precedes.map_sink (h : m.Precedes m') :
    m'.output.map Channel.sink = m.output.map Channel.sink :=
  map_sink_eq h.output

/-- The output writes to the same sinks later. -/
theorem Precedes.output_writesTo_iff (h : m.Precedes m') (i : Nat) :
    m'.output.WritesTo i ↔ m.output.WritesTo i := by
  rw [Output.WritesTo, Output.WritesTo, h.map_sink]

/-- A machine as a whole writes to the same sinks later. -/
theorem Precedes.writesTo_iff (h : m.Precedes m') (i : Nat) : m'.WritesTo i ↔ m.WritesTo i := by
  unfold WritesTo Output.WritesTo
  rw [h.logger, map_sink_eq h.output, map_sink_eq h.dump]

/-- `Precedes` is transitive. -/
theorem Precedes.trans (h : m.Precedes m') (h' : m'.Precedes m'') : m.Precedes m'' where
  logger := h'.logger.trans h.logger
  output := h'.output.trans h.output
  dump := h'.dump.trans h.dump
  sinks := h.sinks.trans (h'.sinks.mono fun i => (h.writesTo_iff i).mp)
  mayReport f hf := h.mayReport f (h'.mayReport f hf)

/-- What a sink has received, it has received later, too, with more behind it. -/
theorem Precedes.received (h : m.Precedes m') (i : Nat) :
    m.sinks.received i <+: m'.sinks.received i :=
  h.sinks.received i

/-- An operation on the output. -/
theorem precedes_of_output {fault : Option StreamFault} {output : Output} {sinks : Sinks}
    (h : m.output.Sequel m.sinks fault output sinks) : m.Precedes { m with output, sinks } where
  logger := rfl
  output := h.ways
  dump := rfl
  sinks := h.leads.mono fun _ hi => Or.inr (Or.inl hi)
  mayReport f := by
    rintro (hf | hf)
    · exact Or.inl (h.mayReport f hf)
    · exact Or.inr (hf.of_leadsTo h.leads)

/-- An operation on the dump. -/
theorem precedes_of_dump {fault : Option StreamFault} {dump : Output} {sinks : Sinks}
    (h : m.dump.Sequel m.sinks fault dump sinks) : m.Precedes { m with dump, sinks } where
  logger := rfl
  output := rfl
  dump := h.ways
  sinks := h.leads.mono fun _ hi => Or.inr (Or.inr hi)
  mayReport f := by
    rintro (hf | hf)
    · exact Or.inl (hf.of_leadsTo h.leads)
    · exact Or.inr (h.mayReport f hf)

/-! ### Tracing -/

section Trace

variable (m : Machine) (event : Event)

/-- Tracing does not touch the output. -/
@[simp] theorem trace_output : (m.trace event).output = m.output := by
  rw [trace]
  split <;> rfl

/-- Tracing does not touch the dumps. -/
@[simp] theorem trace_dump : (m.trace event).dump = m.dump := by
  rw [trace]
  split <;> rfl

/-- Tracing does not change who is told of events. -/
@[simp] theorem trace_logger : (m.trace event).logger = m.logger := by
  rw [trace]
  split <;> rfl

/-- Tracing takes no input. -/
@[simp] theorem trace_input : (m.trace event).input = m.input := by
  rw [trace]
  split <;> rfl

/-- Tracing counts no passes. -/
@[simp] theorem trace_ticks : (m.trace event).ticks = m.ticks := by
  rw [trace]
  split <;> rfl

/-- Tracing reaches the sinks of the log handlers only. -/
theorem leadsTo_trace :
    Sinks.LeadsTo (fun i => ∃ handler ∈ m.logger, handler.sink = i) m.sinks
      (m.trace event).sinks := by
  rw [trace]
  split
  · exact m.logger.leadsTo_log _ m.sinks
  · exact .refl

/-- Tracing an `event` writes to the sinks of the logger only. -/
theorem precedes_trace : m.Precedes (m.trace event) where
  logger := trace_logger m event
  output := by rw [trace_output]
  dump := by rw [trace_dump]
  sinks := (m.leadsTo_trace event).mono fun _ hi => Or.inl hi
  mayReport f := by
    unfold MayReport
    rw [trace_output, trace_dump]
    exact Or.imp (·.of_leadsTo (m.leadsTo_trace event)) (·.of_leadsTo (m.leadsTo_trace event))

end Trace

/-- The machine with its status traced line by line, if events are traced. -/
def traceStatus (m : Machine) : Machine :=
  if m.tracing then
    (Bytes.lines (Bytes.dropFinalNewline m.status)).foldl (fun m line => m.trace (.status line)) m
  else m

/-- `dumpStatus` traces the status, writes it to the dumps and stops if that fails. -/
theorem dumpStatus_eq (m : Machine) :
    m.dumpStatus =
      let (written, dump, sinks) := m.traceStatus.dump.write m.status m.traceStatus.sinks
      match written.fault with
      | some fault => .stop (.output fault) { m.traceStatus with dump, sinks }
      | none => .next () { m.traceStatus with dump, sinks } := rfl

/-- What every trace keeps is kept by tracing the status. -/
theorem traceStatus_induction {p : Machine → Prop} (m : Machine) (h : p m)
    (htrace : ∀ m event, p m → p (m.trace event)) : p m.traceStatus := by
  rw [traceStatus]
  split
  · next htracing =>
    generalize Bytes.lines (Bytes.dropFinalNewline m.status) = lines
    clear htracing
    induction lines generalizing m with
    | nil => exact h
    | cons line rest ih => exact ih _ (htrace m _ h)
  · exact h

/-- Tracing the status is tracing some events. -/
theorem precedes_traceStatus (m : Machine) : m.Precedes m.traceStatus :=
  traceStatus_induction m (.refl m) fun m' event h => h.trans (m'.precedes_trace event)

/-! ### Operations -/

/-- An addition is a load and a store. -/
theorem add_eq (m : Machine) (amount : Int64) :
    m.add amount = m.load.andThen fun value m => m.store (value + UInt8.ofInt amount.toInt) := by
  rw [add]
  cases m.load <;> rfl

/-- A write is a load and a byte written to the output. -/
theorem write_eq (m : Machine) : m.write = m.load.andThen fun value m => m.writeByte value := by
  rw [write]
  cases m.load <;> rfl

/-- What a read does before it stores anything: the output is flushed, and if that succeeds a byte
is read. -/
def fetch (m : Machine) : Progress UInt8 :=
  let (fault, output, sinks) := m.output.flush m.sinks
  match fault with
  | some fault => .stop (.output fault) { m with output, sinks }
  | none => { m with output, sinks }.readVisible

/-- A read is a byte fetched from the input and a store. -/
theorem read_eq (m : Machine) : m.read = m.fetch.andThen fun b m => m.store b := by
  simp only [read, fetch]
  cases (m.output.flush m.sinks).1 with
  | some fault => rfl
  | none =>
    dsimp only
    cases readVisible _ <;> rfl

/-- What an operation may do to the streams: it takes them to a later time, and if it stops because
of a fault of the output or the dump then the fault is one that can come of them. -/
structure Leads {α : Type} (m : Machine) (progress : Progress α) : Prop where
  /-- The streams are at a later time. -/
  precedes : m.Precedes progress.machine
  /-- The fault is one that can come of them. -/
  reported : ∀ fault m', progress = .stop (.output fault) m' → m.MayReport fault

section Operations

variable {α : Type} {progress : Progress α}

/-- An operation after another one. -/
theorem Leads.after (h : m'.Leads progress) (hm : m.Precedes m') : m.Leads progress :=
  ⟨hm.trans h.precedes, fun f m'' hf => hm.mayReport f (h.reported f m'' hf)⟩

/-- If an operation goes on, it does so with a later machine. -/
theorem Leads.precedes_next {value : α} (h : m.Leads progress) (hnext : progress = .next value m') :
    m.Precedes m' := by
  have hprecedes := h.precedes
  rwa [hnext] at hprecedes

/-- Going on with a later machine is what operations do. -/
theorem leads_next {value : α} (h : m.Precedes m') : m.Leads (.next value m') :=
  ⟨h, nofun⟩

/-- Stopping with a later machine is what operations do, with faults of the output that may be
reported. -/
theorem leads_stop {cause : Stop} (h : m.Precedes m')
    (hcause : ∀ fault, cause = .output fault → m.MayReport fault) :
    m.Leads (.stop cause m' : Progress α) := by
  refine ⟨h, fun f m'' hf => hcause f ?_⟩
  rw [Progress.stop.injEq] at hf
  exact hf.1

/-- What the tape refuses is no fault of the output. -/
private theorem ofTape_ne_output (fault : TapeFault) (f : StreamFault) :
    Stop.ofTape fault ≠ .output f := by
  cases fault <;> simp [Stop.ofTape]

/-- A load changes the tape only. -/
theorem leads_load (m : Machine) : m.Leads m.load := by
  unfold load
  split
  · next fault _ => exact leads_stop (.refl m) fun f hf => absurd hf (ofTape_ne_output fault f)
  · exact leads_next ((Precedes.refl m).congr rfl rfl rfl rfl)

/-- A store changes the tape only. -/
theorem leads_store (m : Machine) (value : UInt8) : m.Leads (m.store value) := by
  unfold store
  split
  · next fault _ => exact leads_stop (.refl m) fun f hf => absurd hf (ofTape_ne_output fault f)
  · have hrecord : m.Precedes { m with tape := m.tape.record m.cursor value } :=
      (Precedes.refl m).congr rfl rfl rfl rfl
    exact leads_next (hrecord.trans (precedes_trace _ _))

/-- A move changes the cursor only. -/
theorem leads_move (m : Machine) (amount : Int64) : m.Leads (m.move amount) := by
  simp only [move]
  split
  · exact leads_next ((m.precedes_trace _).congr rfl rfl rfl rfl)
  · exact leads_stop (.refl m) fun _ h => by cases h

/-- A tick changes the number of passes only. -/
theorem leads_tick (m : Machine) (patience : Patience) : m.Leads (m.tick patience) := by
  have hticks : m.Precedes { m with ticks := m.ticks + 1 } :=
    (Precedes.refl m).congr rfl rfl rfl rfl
  simp only [tick]
  split
  · split
    · exact leads_stop hticks fun _ h => by cases h
    · exact leads_next hticks
  · exact leads_next hticks

/-- Operations one after another lead on from a machine. -/
theorem Leads.andThen {β : Type} {goOn : α → Machine → Progress β} (h : m.Leads progress)
    (hgoOn : ∀ value (m' : Machine), m'.Leads (goOn value m')) :
    m.Leads (progress.andThen goOn) := by
  cases progress with
  | next value m' => exact (hgoOn value m').after h.precedes
  | stop cause m' => exact leads_stop h.precedes fun f hf => h.reported f m' (by rw [hf])

/-- An addition leads on by its load and its store. -/
theorem leads_add (m : Machine) (amount : Int64) : m.Leads (m.add amount) := by
  rw [add_eq]
  exact m.leads_load.andThen fun _ m' => m'.leads_store _

/-- Writing a byte to the output reports no fault that no sink may report. -/
theorem leads_writeByte (m : Machine) (b : UInt8) : m.Leads (m.writeByte b) := by
  have htrace := m.precedes_trace (.wrote b)
  have hwrite := (m.trace (.wrote b)).output.sequel_writeByte b (m.trace (.wrote b)).sinks
  have hprecedes := htrace.trans (precedes_of_output hwrite)
  simp only [writeByte]
  split
  · next fault hfault =>
    refine leads_stop hprecedes fun f hf => htrace.mayReport f (Or.inl (hwrite.reported f ?_))
    rw [hfault, Stop.output.inj hf]
  · exact leads_next hprecedes

/-- A write leads on by its load and by writing the byte. -/
theorem leads_write (m : Machine) : m.Leads m.write := by
  rw [write_eq]
  exact m.leads_load.andThen fun value m' => m'.leads_writeByte value

/-- Reading on to the next byte that is no control leads on, whatever is traced and flushed on the
way. -/
theorem leads_readVisible (m : Machine) : m.Leads m.readVisible := by
  -- Reading itself is no matter of the sinks, so each byte that is skipped is one more trace.
  fun_induction readVisible m with
  | case1 m fault input hread =>
    exact leads_stop ((Precedes.refl m).congr rfl rfl rfl rfl) fun _ h => by cases h
  | case2 m b input hread hcontrol ih =>
    have hskip : m.Precedes { m with input } := (Precedes.refl m).congr rfl rfl rfl rfl
    exact ih.after (hskip.trans (precedes_trace _ _))
  | case3 m b input hread hvisible =>
    have hread : m.Precedes { m with input } := (Precedes.refl m).congr rfl rfl rfl rfl
    exact leads_next (hread.trans (precedes_trace _ _))

/-- Fetching a byte leads on by its flush and its reads. -/
theorem leads_fetch (m : Machine) : m.Leads m.fetch := by
  have hflush := m.output.sequel_flush m.sinks
  have hprecedes := precedes_of_output hflush
  simp only [fetch]
  split
  · next fault hfault =>
    refine leads_stop hprecedes fun f hf => Or.inl (hflush.reported f ?_)
    rw [hfault, Stop.output.inj hf]
  · exact (leads_readVisible _).after hprecedes

/-- A read leads on by its fetch and its store. -/
theorem leads_read (m : Machine) : m.Leads m.read := by
  rw [read_eq]
  exact m.leads_fetch.andThen fun b m' => m'.leads_store b

/-- Dumping the status leads on, with the faults that the sinks of the dumps may report. -/
theorem leads_dumpStatus (m : Machine) : m.Leads m.dumpStatus := by
  have hwrite := m.traceStatus.dump.sequel_write m.status m.traceStatus.sinks
  have hprecedes := m.precedes_traceStatus.trans (precedes_of_dump hwrite)
  rw [dumpStatus_eq]
  dsimp only
  split
  · next fault hfault =>
    refine leads_stop hprecedes fun f hf => ?_
    refine m.precedes_traceStatus.mayReport f (Or.inr (hwrite.reported f ?_))
    rw [hfault, Stop.output.inj hf]
  · exact leads_next hprecedes

/-- What a node that is no loop may do to the streams. -/
theorem leads_perform (m : Machine) (node : Node) : m.Leads (m.perform node) := by
  unfold perform
  split
  · exact m.leads_write
  · exact m.leads_read
  · exact m.leads_move node.amount
  · exact m.leads_add node.amount
  · exact m.leads_store 0
  · exact m.leads_dumpStatus
  · exact leads_stop (.refl m) nofun

end Operations

/-- Flushing everything takes the streams to a later time. -/
theorem precedes_flush (m : Machine) : m.Precedes m.flush.2 := by
  let flushed : Machine :=
    { m with output := (m.output.flush m.sinks).2.1, sinks := (m.output.flush m.sinks).2.2 }
  have houtput : m.Precedes flushed := precedes_of_output (m.output.sequel_flush m.sinks)
  exact houtput.trans (precedes_of_dump (flushed.dump.sequel_flush flushed.sinks))

/-- A fault of flushing everything is one that can come of the streams. -/
theorem mayReport_of_flush {fault : StreamFault} (h : m.flush.1 = some fault) :
    m.MayReport fault := by
  have houtput := m.output.sequel_flush m.sinks
  have hdump := m.dump.sequel_flush (m.output.flush m.sinks).2.2
  change ((m.output.flush m.sinks).1 <|> _) = some fault at h
  cases hfirst : (m.output.flush m.sinks).1 with
  | none =>
    rw [hfirst] at h
    exact (precedes_of_output houtput).mayReport fault (Or.inr (hdump.reported fault h))
  | some f =>
    rw [hfirst] at h
    exact Or.inl (houtput.reported fault (hfirst.trans h))

end Machine

/-! ### Output in memory -/

/-- Whether everything written to an output is kept in memory at once. -/
def Output.IsInMemory (output : Output) : Prop :=
  ∀ way ∈ output.map Channel.way, way.1 = .memory

instance (output : Output) : Decidable output.IsInMemory :=
  inferInstanceAs (Decidable (∀ way ∈ output.map Channel.way, way.1 = .memory))

/-- There is nothing to flush in memory. -/
theorem Output.flush_of_isInMemory {output : Output} (h : output.IsInMemory) (sinks : Sinks) :
    output.flush sinks = (none, output, sinks) := by
  induction output with
  | nil => rfl
  | cons channel rest ih =>
    have hfirst : channel.way.1 = .memory := h channel.way (List.mem_cons_self ..)
    have hrest := ih fun way hway => h way (List.mem_cons_of_mem _ hway)
    cases channel with
    | direct i =>
      simp only [flush, Channel.flush, hrest]
      rfl
    | flushing i => cases hfirst
    | buffered buffer => cases hfirst

namespace Machine

variable {m m' : Machine}

/-- Whether output and dump are kept in memory. -/
def IsInMemory (m : Machine) : Prop :=
  m.output.IsInMemory ∧ m.dump.IsInMemory

instance (m : Machine) : Decidable m.IsInMemory :=
  inferInstanceAs (Decidable (m.output.IsInMemory ∧ m.dump.IsInMemory))

/-- Output that is kept in memory is kept there later, too. -/
theorem Precedes.isInMemory (h : m.Precedes m') (hm : m.IsInMemory) : m'.IsInMemory := by
  unfold IsInMemory Output.IsInMemory
  rw [h.output, h.dump]
  exact hm

/-- Output that is kept in memory has nothing to be flushed. -/
theorem flush_of_isInMemory (h : m.IsInMemory) : m.flush = (none, m) := by
  rw [flush, Output.flush_of_isInMemory h.1]
  dsimp only
  rw [Output.flush_of_isInMemory h.2]
  rfl

/-- Tracing adds nothing to a sink that no log handler writes to. -/
theorem received_trace {i : Nat} (hi : ∀ handler ∈ m.logger, handler.sink ≠ i) (event : Event) :
    (m.trace event).sinks.received i = m.sinks.received i :=
  (m.leadsTo_trace event).received_of_not fun ⟨handler, hmem, hsink⟩ => hi handler hmem hsink

end Machine

/-! ### Runs -/

namespace Phase

variable (patience : Patience)

/-- Every step leads on to a later machine. -/
theorem precedes_step (phase : Phase) : phase.machine.Precedes (phase.step patience).machine := by
  cases phase with
  | running todo m =>
    cases todo with
    | nil => exact .refl m
    | cons node rest =>
      exact machine_step (p := m.Precedes) patience rest (fun _ => m.leads_load.precedes)
        (fun m' h => h.trans (m'.leads_tick patience).precedes)
        (fun _ => (m.leads_perform node).precedes)
  | finished m => exact .refl m
  | stopped cause m => exact .refl m

/-- A run takes the streams of its machine from earlier to later times. -/
theorem precedes_after (phase : Phase) {s t : Nat} (hle : s ≤ t) :
    (phase.after patience s).machine.Precedes (phase.after patience t).machine := by
  induction hle with
  | refl => exact .refl _
  | step _ ih =>
    rw [after_succ]
    exact ih.trans (precedes_step patience _)

/-- A fault of the streams that stops a step is one that can come of them. -/
theorem mayReport_of_step {todo : List Node} {m m' : Machine} {fault : StreamFault}
    (h : (Phase.running todo m).step patience = .stopped (.output fault) m') :
    m.MayReport fault := by
  cases todo with
  | nil => cases h
  | cons node rest =>
    rcases step_stopped_cases patience h with
      ⟨-, hload | ⟨value, m₁, hload, htick⟩⟩ | ⟨-, hperform⟩
    · exact m.leads_load.reported fault m' hload
    · have hprecedes := m.leads_load.precedes_next hload
      exact hprecedes.mayReport fault ((m₁.leads_tick patience).reported fault m' htick)
    · exact (m.leads_perform node).reported fault m' hperform

/-- A fault of the streams that stops a run is one that could come of them at its start. -/
theorem mayReport_of_after {todo : List Node} {m m' : Machine} {fault : StreamFault} {t : Nat}
    (h : (Phase.running todo m).after patience t = .stopped (.output fault) m') :
    m.MayReport fault := by
  induction t with
  | zero => cases h
  | succ t ih =>
    have hprecedes := precedes_after patience (.running todo m) (Nat.zero_le t)
    rw [after_succ] at h
    cases hphase : (Phase.running todo m).after patience t with
    -- This is the step that stopped the run; before it, the streams could report no less.
    | running todo' m₁ =>
      rw [hphase] at h hprecedes
      exact hprecedes.mayReport fault (mayReport_of_step patience h)
    | finished m₁ =>
      rw [hphase] at h
      cases h
    | stopped cause m₁ =>
      rw [hphase] at h
      exact ih (hphase.trans h)

end Phase

namespace Runner

variable {r : Runner} {patience : Patience}

/-- Concluding a run changes nothing about the machine. -/
theorem machine_concluded (r : Runner) (cause : Stop) (m : Machine) :
    (r.concluded cause m).2.machine = m := by
  rw [concluded]
  split <;> rfl

/-- Halting a machine leads on to a later one. -/
theorem precedes_halt (m : Machine) (cause : Stop) : m.Precedes (halt m cause) := by
  rw [halt]
  split
  · exact .refl m
  · exact m.precedes_flush.trans (Machine.precedes_trace _ _)

/-- Where output is kept in memory, the end of a run adds nothing to a sink that no log handler
writes to. -/
theorem received_halt {m : Machine} {i : Nat} (h : m.IsInMemory)
    (hi : ∀ handler ∈ m.logger, handler.sink ≠ i) (cause : Stop) :
    (halt m cause).sinks.received i = m.sinks.received i := by
  rw [halt]
  split
  · rfl
  · rw [Machine.flush_of_isInMemory h]
    exact Machine.received_trace hi _

/-- Completing a run leads on to a later machine. -/
theorem precedes_completed (r : Runner) (m : Machine) : m.Precedes (r.completed m).2.machine := by
  have hflush := m.precedes_flush
  unfold completed
  split
  · next heq =>
    rw [heq] at hflush
    exact hflush
  · next fault m' heq =>
    rw [heq] at hflush
    exact (r.machine_concluded (.output fault) m').symm ▸ hflush

/-- What the end of a run does to the streams. -/
theorem precedes_result {phase : Phase} {result : Except RunFault Unit} {r' : Runner}
    (h : r.result? phase = some (result, r')) : phase.machine.Precedes r'.machine := by
  cases phase with
  | running todo m => cases h
  | finished m =>
    have hprecedes := r.precedes_completed m
    rwa [Option.some.inj h] at hprecedes
  | stopped cause m =>
    have hmachine := r.machine_concluded cause (halt m cause)
    rw [Option.some.inj h] at hmachine
    exact hmachine ▸ precedes_halt m cause

/-- What a sink has received in the course of a run it still has at its end, and also when fuel for
that many steps was spent. -/
theorem received_run (hloaded : r.program.isSome) {t fuel : Nat} (hle : t ≤ fuel) (i : Nat) :
    (r.phase patience t).machine.sinks.received i <+:
      (r.run fuel patience).2.machine.sinks.received i := by
  by_cases hover : (r.run fuel patience).1 = .error .unfinished
  · rw [run_of_isSome hloaded] at hover ⊢
    cases hexec : Machine.exec patience fuel r.loaded (start r.machine) with
    | finished m =>
      rw [hexec] at hover
      exact absurd hover (r.completed_ne_unfinished m)
    | stopped cause m =>
      rw [hexec] at hover
      exact absurd hover (r.concluded_ne_unfinished cause _)
    | unfinished m =>
      -- The phase that the fuel led to is not before this one.
      obtain ⟨s, todo, hfuel, hs⟩ := Machine.phase_of_unfinished hexec
      have hprecedes := (Phase.running r.loaded (start r.machine)).precedes_after patience
        (Nat.le_trans hle hfuel)
      rw [hs] at hprecedes
      exact hprecedes.received i
  · -- The run has come to its last phase, and from there to its end.
    obtain ⟨s, hs⟩ := (returns_iff hloaded).mp ⟨hover, fuel, rfl⟩
    have hlast : (r.phase patience t).machine.Precedes (r.phase patience s).machine := by
      rcases Nat.le_total t s with hts | hst
      · exact Phase.precedes_after patience _ hts
      · rw [phase, Phase.after_eq_of_le patience hst (isOver_of_result? hs)]
        exact .refl _
    exact (hlast.trans (precedes_result hs)).received i

end Runner

end TapeMachine
