import TapeMachine.Proofs.RunHistory

/-!
# Ends of runs

A run may end for want of input, because of a fault of a stream, for another reason, or at the end
of its program. Only two things are told of it afterwards: whether it succeeded, and whether it
halted because the input ended. Here both are traced back to what happened in the course of the run.

The end of a file is one of the faults that a sink may report. A run that meets it is taken for one
that ended for want of input, so that the two are told apart only if no sink reports it.

The module introduces:

* `Input.IsSpent`: there is nothing but controls left to be read;
* `Machine.reports`, `Phase.reports`: the fault that the streams report to a step;
* `Phase.Starves`: a read finds that the input is spent;
* `Runner.starves_iff`, `Runner.reports_iff`: both, by the phase that a run comes to;
* `Runner.halted_iff_starves_or_reports`: when a run halts, and when it succeeds.
-/

namespace TapeMachine

/-! ### The input -/

/-- Whether a reader has nothing but controls to give, and ends with the end of the file. -/
def Reader.IsSpent (reader : Reader) : Prop :=
  reader.ending = .endOfFile ∧ ∀ b ∈ reader.data, b < 0x20

namespace Input

/-- Whether there is nothing but controls left to be read. -/
def IsSpent (input : Input) : Prop :=
  ∀ reader ∈ input.current.toList ++ input.queue, reader.IsSpent

/-- Whether reading a byte tells that something is spent: what is left is, behind a control, or it
was the end that was read. -/
def Tells (spent : Prop) : Except StreamFault UInt8 × Input → Prop
  | (.ok b, input) => spent ↔ b < 0x20 ∧ input.IsSpent
  | (.error fault, _) => spent ↔ fault = .endOfFile

/-- An input is spent if its reader is and those in its queue are. -/
theorem isSpent_iff_of_current {input : Input} {reader : Reader} (h : input.current = some reader) :
    input.IsSpent ↔ reader.IsSpent ∧ ∀ later ∈ input.queue, later.IsSpent := by
  simp [IsSpent, h]

/-- Reading from a reader that has not ended. -/
theorem take_tells {input input' : Input} {reader : Reader} {result : Except StreamFault UInt8}
    (h : input.take reader = some (result, input')) (queue : List Reader) :
    Tells (reader.IsSpent ∧ ∀ later ∈ queue, later.IsSpent) (result, { input' with queue }) := by
  unfold take at h
  split at h
  · next b data hdata =>
    cases h
    -- A byte that is taken belongs to what was left, and what is behind it is left now.
    have hleft :
        IsSpent { { input with current := some { reader with data } }.noteByte b with queue } ↔
          ({ reader with data } : Reader).IsSpent ∧ ∀ later ∈ queue, later.IsSpent :=
      isSpent_iff_of_current (noteByte_current _ _)
    rw [Tells, hleft]
    simp only [Reader.IsSpent, hdata, List.mem_cons, forall_eq_or_imp]
    constructor
    · rintro ⟨⟨hending, hfirst, hrest⟩, hlater⟩
      exact ⟨hfirst, ⟨hending, hrest⟩, hlater⟩
    · rintro ⟨hfirst, ⟨hending, hrest⟩, hlater⟩
      exact ⟨⟨hending, hfirst, hrest⟩, hlater⟩
  · split at h
    · cases h
    · next hending =>
      cases h
      exact ⟨fun hspent => absurd hspent.1.1 hending, fun hfault => absurd hfault hending⟩

/-- Taking a byte from a `reader` leaves the queue as it is. -/
theorem take_queue {input input' : Input} {reader : Reader} {result : Except StreamFault UInt8}
    (h : input.take reader = some (result, input')) : input'.queue = input.queue := by
  unfold take at h
  split at h
  · cases h
    exact noteByte_queue _ _
  · split at h
    · cases h
    · cases h
      rfl

/-- A reader that ends at once is spent. -/
theorem isSpent_of_take {input : Input} {reader : Reader} (h : input.take reader = none) :
    reader.IsSpent := by
  unfold take at h
  split at h
  · cases h
  · next hdata =>
    split at h
    · next hending =>
      refine ⟨hending, ?_⟩
      rw [hdata]
      exact nofun
    · cases h

/-- Reading from a `queue` tells whether its readers are spent. -/
theorem readFrom_tells (queue : List Reader) : ∀ input : Input,
    Tells (∀ reader ∈ queue, reader.IsSpent) (input.readFrom queue) := by
  induction queue with
  | nil => exact fun input => ⟨fun _ => rfl, fun _ => nofun⟩
  | cons reader queue ih =>
    intro input
    rw [readFrom]
    split
    · next result input' htake =>
      simp only [List.mem_cons, forall_eq_or_imp]
      exact take_tells htake queue
    · next htake =>
      have hspent := isSpent_of_take htake
      have hrest := ih ((input.start reader).finish reader)
      simp only [List.mem_cons, forall_eq_or_imp, hspent, true_and]
      exact hrest

/-- What reading a byte tells about the input. -/
theorem readByte_tells (input : Input) : Tells input.IsSpent input.readByte := by
  unfold readByte
  split
  · next hcurrent =>
    have hspent : input.IsSpent ↔ ∀ reader ∈ input.queue, reader.IsSpent := by
      simp [IsSpent, hcurrent]
    rw [hspent]
    exact readFrom_tells input.queue input
  · next reader hcurrent =>
    rw [isSpent_iff_of_current hcurrent]
    split
    · next result htake =>
      obtain ⟨result, input'⟩ := result
      rw [← take_queue htake]
      exact take_tells htake input'.queue
    · next htake =>
      have hspent := isSpent_of_take htake
      simp only [hspent, true_and]
      exact readFrom_tells input.queue (input.finish reader)

end Input

/-! ### Operations -/

/-- Whether a stop comes of a stream. -/
def Stop.isOfStream : Stop → Bool
  | .input _ => true
  | .output _ => true
  | _ => false

/-- Whether an operation does not stop because of a stream. -/
def Progress.IsQuiet {α : Type} (progress : Progress α) : Prop :=
  ∀ cause m, progress = .stop cause m → cause.isOfStream = false

/-- What follows an operation without depending on the streams adds no stop because of them. -/
theorem Progress.andThen_stop_iff {α β : Type} {goOn : α → Machine → Progress β}
    (hgoOn : ∀ value m, (goOn value m).IsQuiet) {cause : Stop} (hcause : cause.isOfStream = true)
    (progress : Progress α) :
    (∃ m, progress.andThen goOn = .stop cause m) ↔ ∃ m, progress = .stop cause m := by
  cases progress with
  | next value m =>
    refine ⟨fun ⟨m', h⟩ => ?_, nofun⟩
    cases (hgoOn value m _ _ h).symm.trans hcause
  | stop cause' m =>
    constructor
    · rintro ⟨_, h⟩
      cases h
      exact ⟨m, rfl⟩
    · rintro ⟨_, h⟩
      cases h
      exact ⟨m, rfl⟩

namespace Machine

variable {m : Machine}

/-- A load uses no stream. -/
theorem load_isQuiet (m : Machine) : m.load.IsQuiet := by
  intro cause m' h
  unfold load at h
  split at h
  · next fault _ =>
    cases h
    cases fault <;> rfl
  · cases h

/-- A store uses no stream. -/
theorem store_isQuiet (m : Machine) (value : UInt8) : (m.store value).IsQuiet := by
  intro cause m' h
  unfold store at h
  split at h
  · next fault _ =>
    cases h
    cases fault <;> rfl
  · cases h

/-- A tick uses no stream. -/
theorem tick_isQuiet (m : Machine) (patience : Patience) : (m.tick patience).IsQuiet := by
  intro cause m' h
  simp only [tick] at h
  split at h
  · split at h <;> cases h
    rfl
  · cases h

/-- An addition uses no stream. -/
theorem add_isQuiet (m : Machine) (amount : Int64) : (m.add amount).IsQuiet := by
  have hload := m.load_isQuiet
  rw [add_eq]
  cases hloaded : m.load with
  | stop cause m₁ =>
    rw [hloaded] at hload
    intro cause' m' h
    cases h
    exact hload _ _ rfl
  | next value m₁ => exact m₁.store_isQuiet _

/-- A node that neither writes, nor reads, nor dumps does not depend on the streams. -/
theorem perform_isQuiet {node : Node} (hwrite : node.op ≠ .write) (hread : node.op ≠ .read)
    (hdump : node.op ≠ .dump) : (m.perform node).IsQuiet := by
  unfold perform
  split
  · next hop => exact absurd hop hwrite
  · next hop => exact absurd hop hread
  · intro cause m' h
    simp only [move] at h
    split at h <;> cases h
    rfl
  · exact m.add_isQuiet node.amount
  · exact m.store_isQuiet 0
  · next hop => exact absurd hop hdump
  · intro cause m' h
    cases h
    rfl

/-- The fault that the streams report to a node that writes, flushes or dumps. -/
def reports (m : Machine) (node : Node) : Option StreamFault :=
  match node.op with
  | .write =>
    match m.load with
    | .next b m => ((m.trace (.wrote b)).output.writeByte b (m.trace (.wrote b)).sinks).1
    | .stop _ _ => none
  | .read => (m.output.flush m.sinks).1
  | .dump => (m.traceStatus.dump.write m.status m.traceStatus.sinks).1.fault
  | _ => none

/-- A read stops at the end of the input exactly if the input is spent. -/
theorem readVisible_iff_isSpent (m : Machine) :
    (∃ m', m.readVisible = .stop (.input .endOfFile) m') ↔ m.input.IsSpent := by
  fun_induction readVisible m with
  | case1 m fault input hread =>
    have htells := m.input.readByte_tells
    rw [hread, Input.Tells] at htells
    rw [htells]
    constructor
    · rintro ⟨_, h⟩
      cases h
      rfl
    · intro h
      exact ⟨_, by rw [h]⟩
  -- A control is passed over, so that the reading goes on with what is left.
  | case2 m b input hread hcontrol ih =>
    have htells := m.input.readByte_tells
    rw [hread, Input.Tells] at htells
    rw [htells, ih, trace_input]
    exact ⟨fun h => ⟨hcontrol, h⟩, And.right⟩
  | case3 m b input hread hvisible =>
    have htells := m.input.readByte_tells
    rw [hread, Input.Tells] at htells
    rw [htells]
    refine ⟨?_, fun h => absurd h.1 hvisible⟩
    rintro ⟨_, ⟨⟩⟩

/-- Reading stops because of the input only. -/
theorem readVisible_ne_output {m' : Machine} (fault : StreamFault) :
    m.readVisible ≠ .stop (.output fault) m' := by
  fun_induction readVisible m with
  | case1 m fault input hread => rintro ⟨⟩
  | case2 m b input hread hcontrol ih => exact ih
  | case3 m b input hread hvisible => rintro ⟨⟩

/-- An operation that stops exactly if a fault is reported. -/
private theorem stop_iff_of_fault (fault : Option StreamFault) (m₁ : Machine) (cause : Stop) :
    (∃ m' : Machine, (match fault with
      | some f => Progress.stop (.output f) m₁
      | none => Progress.next () m₁) = .stop cause m') ↔
      ∃ f, cause = .output f ∧ fault = some f := by
  cases fault with
  | none => exact ⟨nofun, fun ⟨_, _, h⟩ => nomatch h⟩
  | some f =>
    constructor
    · rintro ⟨_, h⟩
      cases h
      exact ⟨f, rfl, rfl⟩
    · rintro ⟨_, rfl, h⟩
      exact ⟨m₁, by rw [Option.some.inj h]⟩

/-- A write stops with the fault that its `node` reports. -/
theorem write_stop_iff {node : Node} (hop : node.op = .write) {cause : Stop}
    (hcause : cause.isOfStream = true) :
    (∃ m', m.write = .stop cause m') ↔
      ∃ fault, cause = .output fault ∧ m.reports node = some fault := by
  have hload := m.load_isQuiet
  have hreports : m.reports node = match m.load with
      | .next b m => ((m.trace (.wrote b)).output.writeByte b (m.trace (.wrote b)).sinks).1
      | .stop _ _ => none := by
    rw [reports, hop]
    rfl
  rw [write_eq, hreports]
  cases hloaded : m.load with
  | stop cause' m₁ =>
    refine ⟨fun ⟨m', h⟩ => ?_, fun ⟨_, _, h⟩ => nomatch h⟩
    cases h
    cases (hload _ _ hloaded).symm.trans hcause
  | next b m₁ => exact stop_iff_of_fault _ _ cause

/-- A dump stops with the fault that its `node` reports. -/
theorem dumpStatus_stop_iff {node : Node} (hop : node.op = .dump) (cause : Stop) :
    (∃ m', m.dumpStatus = .stop cause m') ↔
      ∃ fault, cause = .output fault ∧ m.reports node = some fault := by
  have hreports : m.reports node =
      (m.traceStatus.dump.write m.status m.traceStatus.sinks).1.fault := by
    rw [reports, hop]
    rfl
  rw [hreports]
  exact stop_iff_of_fault _ _ cause

/-- A read stops because of a stream exactly if the output reports a fault when it is flushed, or if
it does not and no byte can be read. -/
theorem read_stop_iff {cause : Stop} (hcause : cause.isOfStream = true) :
    (∃ m', m.read = .stop cause m') ↔
      (∃ fault, cause = .output fault ∧ (m.output.flush m.sinks).1 = some fault) ∨
        (m.output.flush m.sinks).1 = none ∧
          ∃ m', readVisible { m with
            output := (m.output.flush m.sinks).2.1, sinks := (m.output.flush m.sinks).2.2 } =
              .stop cause m' := by
  -- The store behind the fetch uses no stream, so only the flush and the reading can stop.
  rw [read_eq, Progress.andThen_stop_iff (fun b m' => m'.store_isQuiet b) hcause]
  simp only [fetch]
  split
  · next fault hfault =>
    rw [hfault]
    constructor
    · rintro ⟨_, h⟩
      cases h
      exact Or.inl ⟨fault, rfl, rfl⟩
    · rintro (⟨_, rfl, h⟩ | ⟨h, -⟩)
      · exact ⟨_, by rw [Option.some.inj h]⟩
      · cases h
  · next hfault =>
    rw [hfault]
    exact ⟨fun h => Or.inr ⟨rfl, h⟩, fun h => h.elim (fun ⟨_, _, h⟩ => nomatch h) And.right⟩

/-- A node stops because of a fault of the streams exactly if they report it. -/
theorem perform_output_iff (m : Machine) (node : Node) (fault : StreamFault) :
    (∃ m', m.perform node = .stop (.output fault) m') ↔ m.reports node = some fault := by
  -- The lemmas about single operations are about any cause of a stop.
  have hsame : (∃ f, Stop.output fault = .output f ∧ m.reports node = some f) ↔
      m.reports node = some fault :=
    ⟨fun ⟨_, h, h'⟩ => Stop.output.inj h ▸ h', fun h => ⟨fault, rfl, h⟩⟩
  by_cases hwrite : node.op = .write
  · rw [perform, hwrite]
    exact (write_stop_iff hwrite rfl).trans hsame
  by_cases hread : node.op = .read
  · have hreports : m.reports node = (m.output.flush m.sinks).1 := by
      rw [reports, hread]
      rfl
    rw [← hsame, perform, hread, hreports]
    refine (read_stop_iff rfl).trans ⟨fun h => h.resolve_right fun ⟨_, _, h⟩ => ?_, Or.inl⟩
    exact readVisible_ne_output fault h
  by_cases hdump : node.op = .dump
  · rw [perform, hdump]
    exact (dumpStatus_stop_iff hdump _).trans hsame
  · refine ⟨fun ⟨m', h⟩ => (nomatch perform_isQuiet hwrite hread hdump _ _ h), fun h => ?_⟩
    unfold reports at h
    split at h
    · next hop => exact absurd hop hwrite
    · next hop => exact absurd hop hread
    · next hop => exact absurd hop hdump
    · cases h

/-- A node stops at the end of the input exactly if it is a read, the output can be flushed and the
input is spent. -/
theorem perform_end_iff (m : Machine) (node : Node) :
    (∃ m', m.perform node = .stop (.input .endOfFile) m') ↔
      node.op = .read ∧ (m.output.flush m.sinks).1 = none ∧ m.input.IsSpent := by
  by_cases hread : node.op = .read
  · rw [perform, hread]
    refine (read_stop_iff rfl).trans ?_
    rw [readVisible_iff_isSpent]
    exact ⟨fun h => ⟨rfl, h.resolve_left fun ⟨_, h, _⟩ => nomatch h⟩, fun h => Or.inr h.2⟩
  -- Other nodes that use a stream stop because of an output, and the rest uses none.
  refine ⟨fun ⟨m', h⟩ => ?_, fun h => absurd h.1 hread⟩
  by_cases hwrite : node.op = .write
  · rw [perform, hwrite] at h
    obtain ⟨_, hcause, -⟩ := (write_stop_iff hwrite rfl).mp ⟨m', h⟩
    cases hcause
  by_cases hdump : node.op = .dump
  · rw [perform, hdump] at h
    obtain ⟨_, hcause, -⟩ := (dumpStatus_stop_iff hdump _).mp ⟨m', h⟩
    cases hcause
  · cases perform_isQuiet hwrite hread hdump _ _ h

end Machine

/-! ### Steps -/

namespace Phase

/-- The fault that the streams report to the next step, or when everything is flushed at the end of
the program. -/
def reports : Phase → Option StreamFault
  | .running (node :: _) m => m.reports node
  | .finished m => m.flush.1
  | _ => none

/-- Whether the next step is a read that finds the input spent, after the output has been flushed.
-/
def Starves : Phase → Prop
  | .running (node :: _) m =>
    node.op = .read ∧ (m.output.flush m.sinks).1 = none ∧ m.input.IsSpent
  | _ => False

variable (patience : Patience)

/-- A step at a loop does not stop because of a stream. -/
private theorem step_loop_quiet {node : Node} (hop : node.op = .loop) {rest : List Node}
    {m m' : Machine} {cause : Stop}
    (h : (running (node :: rest) m).step patience = .stopped cause m') :
    cause.isOfStream = false := by
  rcases step_stopped_cases patience h with
    ⟨-, hload | ⟨value, m₁, -, htick⟩⟩ | ⟨hne, -⟩
  · exact m.load_isQuiet _ _ hload
  · exact m₁.tick_isQuiet patience _ _ htick
  · exact absurd hop hne

/-- A step at another node stops as the node does. -/
private theorem step_stopped_iff {node : Node} (hop : node.op ≠ .loop) (rest : List Node)
    (m : Machine) (cause : Stop) :
    (∃ m', (running (node :: rest) m).step patience = .stopped cause m') ↔
      ∃ m', m.perform node = .stop cause m' := by
  constructor
  · rintro ⟨m', h⟩
    rcases step_stopped_cases patience h with ⟨hloop, -⟩ | ⟨-, hperform⟩
    · exact absurd hloop hop
    · exact ⟨m', hperform⟩
  · rintro ⟨m', h⟩
    refine ⟨m', ?_⟩
    rw [step_of_ne_loop _ hop, h]
    rfl

/-- A step stops because of a fault of the streams exactly if they report it. -/
theorem step_output_iff (todo : List Node) (m : Machine) (fault : StreamFault) :
    (∃ m', (running todo m).step patience = .stopped (.output fault) m') ↔
      (running todo m).reports = some fault := by
  cases todo with
  | nil => exact ⟨nofun, nofun⟩
  | cons node rest =>
    by_cases hop : node.op = .loop
    · refine ⟨fun ⟨_, h⟩ => (nomatch step_loop_quiet patience hop h), fun h => ?_⟩
      change m.reports node = some fault at h
      rw [Machine.reports, hop] at h
      cases h
    · exact (step_stopped_iff patience hop rest m _).trans (m.perform_output_iff node fault)

/-- A step stops at the end of the input exactly if it starves. -/
theorem step_end_iff (todo : List Node) (m : Machine) :
    (∃ m', (running todo m).step patience = .stopped (.input .endOfFile) m') ↔
      (running todo m).Starves := by
  cases todo with
  | nil => exact ⟨nofun, nofun⟩
  | cons node rest =>
    by_cases hop : node.op = .loop
    · refine ⟨fun ⟨_, h⟩ => (nomatch step_loop_quiet patience hop h), fun ⟨hread, _⟩ => ?_⟩
      rw [hop] at hread
      cases hread
    · exact (step_stopped_iff patience hop rest m _).trans (m.perform_end_iff node)

end Phase

/-! ### Running the program loaded -/

namespace Runner

variable {r r' : Runner} {patience : Patience} {t : Nat}

/-- A run that stopped did so in one of its steps. -/
theorem exists_last_step {cause : Stop} {m : Machine} (h : r.phase patience t = .stopped cause m) :
    ∃ s todo m₀, r.phase patience s = .running todo m₀ ∧
      (Phase.running todo m₀).step patience = .stopped cause m := by
  induction t with
  | zero => cases h
  | succ t ih =>
    rw [phase_succ] at h
    cases hphase : r.phase patience t with
    | running todo m₀ =>
      rw [hphase] at h
      exact ⟨t, todo, m₀, hphase, h⟩
    | finished m₀ =>
      rw [hphase] at h
      cases h
    | stopped cause' m₀ =>
      rw [hphase] at h
      exact ih (hphase.trans h)

/-- A run that is over is over where one of its steps stopped. -/
theorem phase_of_step {s : Nat} {todo : List Node} {m₀ m : Machine} {cause : Stop}
    (hover : (r.phase patience t).IsOver) (hphase : r.phase patience s = .running todo m₀)
    (hstep : (Phase.running todo m₀).step patience = .stopped cause m) :
    r.phase patience t = .stopped cause m := by
  have hnext : r.phase patience (s + 1) = .stopped cause m := by rw [phase_succ, hphase, hstep]
  have hover' : (r.phase patience (s + 1)).IsOver := by rw [hnext]; trivial
  exact (Phase.after_unique patience hover hover').trans hnext

/-- A run that is over has starved exactly if it stopped at the end of the input. -/
theorem starves_iff (hover : (r.phase patience t).IsOver) :
    (∃ s, (r.phase patience s).Starves) ↔
      ∃ m, r.phase patience t = .stopped (.input .endOfFile) m := by
  constructor
  · rintro ⟨s, hs⟩
    cases hphase : r.phase patience s with
    | running todo m₀ =>
      rw [hphase] at hs
      obtain ⟨m, hstep⟩ := (Phase.step_end_iff patience todo m₀).mpr hs
      exact ⟨m, phase_of_step hover hphase hstep⟩
    | finished m₀ =>
      rw [hphase] at hs
      exact hs.elim
    | stopped cause m₀ =>
      rw [hphase] at hs
      exact hs.elim
  · rintro ⟨m, hm⟩
    -- The run stopped in some step, and this is the read that found nothing.
    obtain ⟨s, todo, m₀, hphase, hstep⟩ := exists_last_step hm
    exact ⟨s, hphase ▸ (Phase.step_end_iff patience todo m₀).mp ⟨m, hstep⟩⟩

/-- The streams have reported a fault to a run that is over exactly if it stopped because of it, or
came to the end of the program and everything could not be flushed because of it. -/
theorem reports_iff (hover : (r.phase patience t).IsOver) (fault : StreamFault) :
    (∃ s, (r.phase patience s).reports = some fault) ↔
      (∃ m, r.phase patience t = .stopped (.output fault) m) ∨
        ∃ m, r.phase patience t = .finished m ∧ m.flush.1 = some fault := by
  constructor
  · rintro ⟨s, hs⟩
    cases hphase : r.phase patience s with
    -- A fault of a step stops the run, and it stays stopped until `t`.
    | running todo m₀ =>
      rw [hphase] at hs
      obtain ⟨m, hstep⟩ := (Phase.step_output_iff patience todo m₀ fault).mpr hs
      exact Or.inl ⟨m, phase_of_step hover hphase hstep⟩
    | finished m₀ =>
      have hover' : (r.phase patience s).IsOver := by rw [hphase]; trivial
      have hsame : r.phase patience t = .finished m₀ :=
        (Phase.after_unique patience hover hover').trans hphase
      rw [hphase] at hs
      exact Or.inr ⟨m₀, hsame, hs⟩
    | stopped cause m₀ =>
      rw [hphase] at hs
      cases hs
  · rintro (⟨m, hm⟩ | ⟨m, hm, hfault⟩)
    · obtain ⟨s, todo, m₀, hphase, hstep⟩ := exists_last_step hm
      exact ⟨s, hphase ▸ (Phase.step_output_iff patience todo m₀ fault).mp ⟨m, hstep⟩⟩
    · exact ⟨t, hm ▸ hfault⟩

/-- There are two causes that count as the end of the input. -/
private theorem isEndOfInput_iff (cause : Stop) :
    cause.isEndOfInput = true ↔ cause = .input .endOfFile ∨ cause = .output .endOfFile := by
  unfold Stop.isEndOfInput
  split <;> simp_all

/-- A run that stopped is halted at the end of the input, or of the output. -/
theorem halted_concluded_iff (r : Runner) (cause : Stop) (m : Machine) :
    (r.concluded cause m).2.halted = true ↔
      cause = .input .endOfFile ∨ cause = .output .endOfFile := by
  rw [← isEndOfInput_iff, concluded]
  cases cause.isEndOfInput <;> simp

/-- A run that stopped reports no fault if it is halted. -/
theorem concluded_eq_ok_iff (r : Runner) (cause : Stop) (m : Machine) :
    (r.concluded cause m).1 = .ok () ↔ (r.concluded cause m).2.halted = true := by
  rw [concluded]
  cases cause.isEndOfInput <;> simp

/-- A complete run is halted if its last flush meets the end of the output. -/
theorem halted_completed_iff (r : Runner) (m : Machine) :
    (r.completed m).2.halted = true ↔ m.flush.1 = some .endOfFile := by
  unfold completed
  split
  · next heq => simp [heq]
  · next fault m' heq =>
    rw [halted_concluded_iff, heq]
    simp

/-- A complete run reports no fault if it is halted or all was flushed. -/
theorem completed_eq_ok_iff (r : Runner) (m : Machine) :
    (r.completed m).1 = .ok () ↔ (r.completed m).2.halted = true ∨ m.flush.1 = none := by
  unfold completed
  split
  · next heq => simp [heq]
  · next fault m' heq =>
    rw [concluded_eq_ok_iff, heq]
    simp

/-- A run halts exactly if it starved or a fault was reported to it as the end of a file. -/
theorem halted_iff {result : Except RunFault Unit} (hresult : r.result? (r.phase patience t) =
      some (result, r')) :
    r'.halted = true ↔ (∃ s, (r.phase patience s).Starves) ∨
      ∃ s, (r.phase patience s).reports = some .endOfFile := by
  have hover := isOver_of_result? hresult
  rw [starves_iff hover, reports_iff hover]
  cases hphase : r.phase patience t with
  | running todo m =>
    rw [hphase] at hresult
    cases hresult
  -- The last flush is all that can still report the end of a file.
  | finished m =>
    have hhalted := r.halted_completed_iff m
    rw [hphase] at hresult
    rw [Option.some.inj hresult] at hhalted
    rw [hhalted]
    simp
  | stopped cause m =>
    have hhalted := r.halted_concluded_iff cause (halt m cause)
    rw [hphase] at hresult
    rw [Option.some.inj hresult] at hhalted
    rw [hhalted]
    simp

/-- A run succeeds exactly if it halts, or comes to the end of the program without a fault. -/
theorem ok_iff {result : Except RunFault Unit} (hresult : r.result? (r.phase patience t) =
      some (result, r')) :
    result = .ok () ↔ r'.halted = true ∨
      (∃ s m, r.phase patience s = .finished m) ∧ ∀ s, (r.phase patience s).reports = none := by
  have hover := isOver_of_result? hresult
  have hsilent : (∀ s, (r.phase patience s).reports = none) ↔
      ∀ fault, ¬ ∃ s, (r.phase patience s).reports = some fault := by
    simp only [Option.eq_none_iff_forall_ne_some, not_exists]
    exact forall_comm
  simp only [hsilent, reports_iff hover]
  cases hphase : r.phase patience t with
  | running todo m =>
    rw [hphase] at hresult
    cases hresult
  | finished m =>
    have hok := r.completed_eq_ok_iff m
    rw [hphase] at hresult
    rw [Option.some.inj hresult] at hok
    rw [hok, Option.eq_none_iff_forall_ne_some]
    have hfinished : ∃ s m, r.phase patience s = .finished m := ⟨t, m, hphase⟩
    simp [hfinished]
  | stopped cause m =>
    have hok := r.concluded_eq_ok_iff cause (halt m cause)
    rw [hphase] at hresult
    rw [Option.some.inj hresult] at hok
    rw [hok]
    -- A run that stopped does not come to the end of the program.
    refine ⟨Or.inl, fun h => h.elim id fun ⟨⟨s, m', hs⟩, _⟩ => ?_⟩
    have hover' : (r.phase patience s).IsOver := by rw [hs]; trivial
    cases hphase.symm.trans ((Phase.after_unique patience hover hover').trans hs)

/-- A fault that is reported to a run is one that can come of the streams. -/
theorem mayReport_of_reports {result : Except RunFault Unit} {fault : StreamFault}
    (hresult : r.result? (r.phase patience t) = some (result, r'))
    (h : ∃ s, (r.phase patience s).reports = some fault) : r.machine.MayReport fault := by
  rcases (reports_iff (isOver_of_result? hresult) fault).mp h with ⟨m, hm⟩ | ⟨m, hm, hfault⟩
  · have hreport : (start r.machine).MayReport fault := Phase.mayReport_of_after patience hm
    exact hreport
  · have hprecedes := Phase.precedes_after patience (.running r.loaded (start r.machine))
      (Nat.zero_le t)
    have hreport : (r.phase patience t).machine.MayReport fault := by
      rw [hm]
      exact Machine.mayReport_of_flush hfault
    exact hprecedes.mayReport fault hreport

/-- A run that `Returns` has `halted` exactly if a read `Starves` or a stream `reports` the end of a
file, and its `result` is a success exactly if it has halted or comes to the end of the program and
no stream `reports` a fault. If no stream of the machine `MayReport` the end of a file, then a run
that has halted did so because a read `Starves`. -/
theorem halted_iff_starves_or_reports (hloaded : r.program.isSome) {result : Except RunFault Unit}
    (hreturns : r.Returns patience result r') :
    (r'.halted = true ↔ (∃ t, (r.phase patience t).Starves) ∨
        ∃ t, (r.phase patience t).reports = some .endOfFile) ∧
      (result = .ok () ↔ r'.halted = true ∨
        (∃ t m, r.phase patience t = .finished m) ∧ ∀ t, (r.phase patience t).reports = none) ∧
      (¬ r.machine.MayReport .endOfFile →
        (r'.halted = true ↔ ∃ t, (r.phase patience t).Starves) ∧
          (result = .ok () ↔ (∃ t, (r.phase patience t).Starves) ∨
            (∃ t m, r.phase patience t = .finished m) ∧
              ∀ t, (r.phase patience t).reports = none)) := by
  obtain ⟨t, ht⟩ := (returns_iff hloaded).mp hreturns
  refine ⟨halted_iff ht, ok_iff ht, fun hno => ?_⟩
  have hhalted : r'.halted = true ↔ ∃ t, (r.phase patience t).Starves :=
    (halted_iff ht).trans (or_iff_left fun h => hno (mayReport_of_reports ht h))
  refine ⟨hhalted, ?_⟩
  rw [← hhalted]
  exact ok_iff ht

/-- Writes a letter to memory and reads, while there is only a newline left. -/
def starving : Runner :=
  { ((fresh [{ kind := .memory }]).setOutput (some 0)).addInput
      { name := utf8 "blank", data := [Bytes.newline] } with
    program := some [⟨.add, 65, []⟩, ⟨.write, 0, []⟩, ⟨.read, 0, []⟩] }

/-- The run of `starving` halts because its read finds the input spent. -/
theorem halted_starving :
    starving.program.isSome ∧ ¬ starving.machine.MayReport .endOfFile ∧
      ∃ r', starving.Returns .endless (.ok ()) r' ∧
        (r'.halted = true ↔ ∃ t, (starving.phase .endless t).Starves) ∧ r'.halted = true := by
  have hloaded : starving.program.isSome := rfl
  have hno : ¬ starving.machine.MayReport .endOfFile := by
    rintro (⟨channel, hchannel, hreport⟩ | ⟨channel, hchannel, -⟩)
    · cases List.mem_singleton.mp hchannel
      rcases hreport with hshort | hkept | ⟨sink, hsink, hreport⟩
      · cases hshort
      · cases hkept
      · cases hsink
        simp [Sink.MayReport, Sink.allowances, Sink.flushReports] at hreport
    · cases hchannel
  have hrun : (starving.run 4 .endless).1 = .ok () ∧ (starving.run 4 .endless).2.halted = true := by
    decide +kernel
  have hreturns := returns_of_run hrun.1 (by decide)
  obtain ⟨-, -, hstarves⟩ := halted_iff_starves_or_reports hloaded hreturns
  exact ⟨hloaded, hno, _, hreturns, (hstarves hno).1, hrun.2⟩

/-- Writes to a sink that has no room and reports this as the end of a file. -/
def overflowing : Runner :=
  { (fresh [{ kind := .memory, room := some 0, fault := some .endOfFile }]).setOutput (some 0) with
    program := some [⟨.add, 1, []⟩, ⟨.write, 0, []⟩] }

/-- A write of `overflowing` that fails is taken for the end of the input: the run halts and
succeeds. -/
theorem halted_overflowing :
    ∃ r', overflowing.Returns .endless (.ok ()) r' ∧ r'.halted = true ∧
      (∃ t, (overflowing.phase .endless t).reports = some .endOfFile) ∧
      ¬ ∃ t, (overflowing.phase .endless t).Starves := by
  have hrun : (overflowing.run 4 .endless).1 = .ok () ∧
      (overflowing.run 4 .endless).2.halted = true := by decide +kernel
  refine ⟨_, returns_of_run hrun.1 (by decide), hrun.2, ⟨1, by decide +kernel⟩, fun hstarves => ?_⟩
  have hphase : overflowing.phase .endless 2 =
      .stopped (.output .endOfFile) (overflowing.phase .endless 2).machine := rfl
  have hover : (overflowing.phase .endless 2).IsOver := by
    rw [hphase]
    trivial
  obtain ⟨m, hm⟩ := (starves_iff hover).mp hstarves
  cases hphase.symm.trans hm

end Runner

end TapeMachine
