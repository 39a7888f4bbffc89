import Mathlib.Logic.Function.Iterate
import TapeMachine.Proofs.RunHistory
import TapeMachine.Proofs.StreamContents

/-!
# Delivery of the output

A program's output may go to several sinks, some of them behind buffers, and each of them may fail
at any time. While a run goes on, all ways of the output carry the bytes written so far; a fault
stops the run, and leaves no way with anything else. A read flushes the output before it asks for
input, and the end of the program flushes it as well, so that a run without a fault delivers
everything.

The module introduces:

* `Attachment`, `Runner.attach`: the ways to give an output a sink;
* `Machine.Suited`: what is to hold of the streams for the output to be delivered;
* `Phase.writes`, `Runner.written`: the bytes that a step, and a run, writes;
* `Machine.readWithRequests`, `Machine.requests`: a read with the machines at which it asks for
  input;
* `Machine.settled_of_mem_requests`: what has been delivered when a read asks for input;
* `Phase.delivers_step`, `Runner.delivers_phase`: what a step, and a run, does to what is carried;
* `Runner.received_attachEach`: what the sinks of an output receive in the course of a run.
-/

namespace TapeMachine

/-! ### Operations -/

namespace Machine

/-- What is to hold of the streams for the output to be delivered: the output is sound, there is no
dump, and no log handler writes to a sink of the output. -/
structure Suited (m : Machine) : Prop where
  /-- The ways of the output lead to different sinks that report their faults. -/
  sound : m.output.Sound m.sinks
  /-- Dumps are discarded. -/
  dump : m.dump = []
  /-- Log records go elsewhere. -/
  logger : ∀ handler ∈ m.logger, ¬ m.output.WritesTo handler.sink

/-- Whether the output carries some bytes, on all ways and without a fault. -/
def Carries (m : Machine) (bytes : Bytes) : Prop :=
  m.output.Carries m.sinks bytes

/-- Whether the output carries nothing but what some bytes begin with. -/
def CarriesOf (m : Machine) (bytes : Bytes) : Prop :=
  m.output.CarriesOf m.sinks bytes

/-- Whether the sinks of the output have received some bytes and no others. -/
def Delivered (m : Machine) (bytes : Bytes) : Prop :=
  ∀ i, m.output.WritesTo i → m.sinks.received i = bytes

variable {m m' : Machine} {bytes : Bytes}

/-- Streams stay suited. -/
theorem Precedes.suited (h : m.Precedes m') (hm : m.Suited) : m'.Suited where
  sound := by
    refine ⟨?_, fun i hi => ?_⟩
    · rw [h.map_sink]
      exact hm.sound.distinct
    · exact (hm.sound.of_leadsTo h.sinks).honest i ((h.output_writesTo_iff i).mp hi)
  dump := by
    have hways := h.dump
    rw [hm.dump] at hways
    exact List.map_eq_nil_iff.mp hways
  logger handler hhandler hi := by
    rw [h.logger] at hhandler
    exact hm.logger handler hhandler ((h.output_writesTo_iff _).mp hi)

/-- No machine of this kind takes a fault of its output for the end of the input. -/
theorem Suited.not_mayReport (hm : m.Suited) (h : m.Carries bytes) : ¬ m.MayReport .endOfFile := by
  rintro (⟨channel, hchannel, hshort | hkept | ⟨sink, hsink, hreport⟩⟩ | ⟨channel, hchannel, -⟩)
  · cases hshort
  · cases (h channel hchannel).2.symm.trans hkept
  · obtain ⟨sink', hsink', honest⟩ := hm.sound.honest channel.sink (List.mem_map_of_mem hchannel)
    cases hsink.symm.trans hsink'
    exact honest.noEnd hreport
  · rw [hm.dump] at hchannel
    cases hchannel

/-- A sink of the output has received a beginning of the `bytes`. -/
theorem received_prefix (h : m.CarriesOf bytes) {i : Nat} (hi : m.output.WritesTo i) :
    m.sinks.received i <+: bytes := by
  obtain ⟨channel, hchannel, rfl⟩ := List.mem_map.mp hi
  exact (List.prefix_append _ _).trans (h channel hchannel)

/-- Log records are no matter of the output. -/
theorem Suited.carried_trace (hm : m.Suited) {channel : Channel} (hchannel : channel ∈ m.output)
    (event : Event) : channel.carried (m.trace event).sinks = channel.carried m.sinks :=
  Channel.carried_of_not (m.leadsTo_trace event) fun ⟨handler, hhandler, hsink⟩ =>
    hm.logger handler hhandler (hsink ▸ List.mem_map_of_mem hchannel)

/-- Tracing does not touch what the output carries. -/
theorem Carries.trace (h : m.Carries bytes) (hm : m.Suited) (event : Event) :
    (m.trace event).Carries bytes := by
  intro channel hchannel
  rw [trace_output] at hchannel
  exact ⟨(hm.carried_trace hchannel event).trans (h channel hchannel).1, (h channel hchannel).2⟩

/-- Tracing does not touch what the output carries a beginning of. -/
theorem CarriesOf.trace (h : m.CarriesOf bytes) (hm : m.Suited) (event : Event) :
    (m.trace event).CarriesOf bytes := by
  intro channel hchannel
  rw [trace_output] at hchannel
  exact hm.carried_trace hchannel event ▸ h channel hchannel

/-- The beginning that an output carries may be all of it. -/
theorem Carries.carriesOf (h : m.Carries bytes) : m.CarriesOf bytes :=
  Output.Carries.carriesOf h List.prefix_rfl

/-- What is carried and not held back is delivered. -/
theorem Carries.delivered (h : m.Carries bytes) (hheld : ∀ channel ∈ m.output, channel.held = []) :
    m.Delivered bytes := by
  intro i hi
  obtain ⟨channel, hchannel, rfl⟩ := List.mem_map.mp hi
  have hcarried := (h channel hchannel).1
  rwa [Channel.carried, hheld channel hchannel, List.append_nil] at hcarried

end Machine

/-- Whether an operation leaves the output with some bytes: if it goes on then all ways carry them,
and if it stops then no way carries anything else. If it stops for want of input then they have been
delivered. -/
def Progress.Delivers {α : Type} (bytes : Bytes) : Progress α → Prop
  | .next _ m => m.Carries bytes
  | .stop cause m => m.CarriesOf bytes ∧ ∀ fault, cause = .input fault → m.Delivered bytes

/-- Operations in a row that write nothing more. -/
theorem Progress.Delivers.andThen {α β : Type} {bytes : Bytes} {progress : Progress α}
    {goOn : α → Machine → Progress β} (h : progress.Delivers bytes)
    (hgoOn : ∀ value m, progress = .next value m → m.Carries bytes →
      (goOn value m).Delivers bytes) :
    (progress.andThen goOn).Delivers bytes := by
  cases progress with
  | next value m => exact hgoOn value m rfl h
  | stop cause m => exact h

namespace Machine

variable {m m' : Machine} {bytes : Bytes}

/-- A load writes nothing. -/
theorem load_delivers (h : m.Carries bytes) : m.load.Delivers bytes := by
  unfold load
  split
  · next fault _ => exact ⟨h.carriesOf, fun f hf => by cases fault <;> cases hf⟩
  · exact h

/-- A store writes nothing. -/
theorem store_delivers (hm : m.Suited) (h : m.Carries bytes) (value : UInt8) :
    (m.store value).Delivers bytes := by
  unfold store
  split
  · next fault _ => exact ⟨h.carriesOf, fun f hf => by cases fault <;> cases hf⟩
  · have hrecord : { m with tape := m.tape.record m.cursor value }.Carries bytes := h
    exact hrecord.trace ⟨hm.sound, hm.dump, hm.logger⟩ _

/-- A move writes nothing. -/
theorem move_delivers (hm : m.Suited) (h : m.Carries bytes) (amount : Int64) :
    (m.move amount).Delivers bytes := by
  simp only [move]
  split
  · exact h.trace hm _
  · exact ⟨h.carriesOf, fun _ h => by cases h⟩

/-- A tick writes nothing. -/
theorem tick_delivers (h : m.Carries bytes) (patience : Patience) :
    (m.tick patience).Delivers bytes := by
  simp only [tick]
  split
  · split
    · exact ⟨h.carriesOf, fun _ h => by cases h⟩
    · exact h
  · exact h

/-- An addition writes nothing. -/
theorem add_delivers (hm : m.Suited) (h : m.Carries bytes) (amount : Int64) :
    (m.add amount).Delivers bytes := by
  rw [add_eq]
  refine (load_delivers h).andThen fun value m₁ hload h₁ => ?_
  exact store_delivers ((m.leads_load.precedes_next hload).suited hm) h₁ _

/-- Writing a byte delivers it behind the others. -/
theorem writeByte_delivers (hm : m.Suited) (h : m.Carries bytes) (b : UInt8) :
    (m.writeByte b).Delivers (bytes ++ [b]) := by
  have hsound := ((m.precedes_trace (.wrote b)).suited hm).sound
  obtain ⟨hsome, hall⟩ := Output.carries_writeByte b hsound (h.trace hm (.wrote b))
  simp only [writeByte]
  split
  · exact ⟨hsome, nofun⟩
  · next hfault => exact hall hfault

/-- Whether all of `bytes` has been delivered, and the streams are suited to go on. -/
structure Settled (m : Machine) (bytes : Bytes) : Prop where
  /-- The streams are suited. -/
  suited : m.Suited
  /-- All ways carry the bytes. -/
  carries : m.Carries bytes
  /-- No way holds any of them back. -/
  delivered : m.Delivered bytes

/-- Taking input and logging this are no matter of the output. -/
theorem Settled.trace (h : m.Settled bytes) (input : Input) (event : Event) :
    m.Precedes ({ m with input }.trace event) ∧ ({ m with input }.trace event).Settled bytes := by
  have hinput : m.Precedes { m with input } := (Precedes.refl m).congr rfl rfl rfl rfl
  have hcarries : Carries { m with input } bytes := h.carries
  have hsuited := hinput.suited h.suited
  refine ⟨hinput.trans (precedes_trace _ _), (precedes_trace _ event).suited hsuited,
    hcarries.trace hsuited event, fun i hi => ?_⟩
  rw [trace_output] at hi
  rw [received_trace (m := { m with input })
    fun handler hhandler heq => h.suited.logger handler hhandler (heq ▸ hi)]
  exact h.delivered i hi

/-- Flushing the output without a fault delivers what it carries. -/
theorem settled_of_flush (hm : m.Suited) (h : m.Carries bytes)
    (hfault : (m.output.flush m.sinks).1 = none) :
    Settled { m with
      output := (m.output.flush m.sinks).2.1, sinks := (m.output.flush m.sinks).2.2 } bytes := by
  have hheld := Output.held_flush hfault
  have hcarries : Carries { m with
      output := (m.output.flush m.sinks).2.1, sinks := (m.output.flush m.sinks).2.2 } bytes :=
    fun channel hchannel =>
      ⟨@Output.carried_flush m.output (· = bytes) m.sinks hm.sound (fun c hc => (h c hc).1)
        channel hchannel, (hheld channel hchannel).2⟩
  exact ⟨(precedes_of_output (m.output.sequel_flush m.sinks)).suited hm, hcarries,
    hcarries.delivered fun channel hchannel => (hheld channel hchannel).1⟩

/-- Reading from the input leaves delivered what was. -/
theorem Settled.readVisible (h : m.Settled bytes) : m.readVisible.Delivers bytes := by
  fun_induction Machine.readVisible m with
  | case1 m fault input hread => exact ⟨h.carries.carriesOf, fun _ _ => h.delivered⟩
  | case2 m b input hread hcontrol ih => exact ih (h.trace input (.skipped b)).2
  | case3 m b input hread hvisible => exact (h.trace input (.read b)).2.carries

/-- Fetching a byte writes nothing. -/
theorem fetch_delivers (hm : m.Suited) (h : m.Carries bytes) : m.fetch.Delivers bytes := by
  simp only [fetch]
  split
  · refine ⟨?_, fun _ h => by cases h⟩
    exact @Output.carried_flush m.output (· <+: bytes) m.sinks hm.sound h.carriesOf
  · next hfault => exact (settled_of_flush hm h hfault).readVisible

/-- A read writes nothing. -/
theorem read_delivers (hm : m.Suited) (h : m.Carries bytes) : m.read.Delivers bytes := by
  rw [read_eq]
  refine (fetch_delivers hm h).andThen fun b m₁ hfetch h₁ => ?_
  exact store_delivers ((m.leads_fetch.precedes_next hfetch).suited hm) h₁ b

/-- A dump writes nothing to the output, for there is none. -/
theorem dumpStatus_delivers (hm : m.Suited) (h : m.Carries bytes) :
    m.dumpStatus.Delivers bytes := by
  have htrace : m.traceStatus.Suited ∧ m.traceStatus.Carries bytes :=
    @traceStatus_induction (fun m' => m'.Suited ∧ m'.Carries bytes) m ⟨hm, h⟩
      fun m' event ⟨hm', h'⟩ => ⟨(m'.precedes_trace event).suited hm', h'.trace hm' event⟩
  rw [dumpStatus_eq, htrace.1.dump]
  exact htrace.2

/-- The byte that a node writes, if the cell under the cursor can be loaded. -/
def writes (m : Machine) (node : Node) : Bytes :=
  if node.op = .write then
    match m.load with
    | .next b _ => [b]
    | .stop _ _ => []
  else []

/-- A write delivers what its `node` writes. -/
theorem write_delivers (hm : m.Suited) (h : m.Carries bytes) {node : Node}
    (hop : node.op = .write) :
    m.write.Delivers (bytes ++ m.writes node) := by
  have hload := load_delivers h
  have hprecedes := m.leads_load.precedes
  rw [write_eq, writes, if_pos hop]
  cases hloaded : m.load with
  | stop cause m₁ =>
    rw [hloaded] at hload
    dsimp only
    rw [List.append_nil]
    exact hload
  | next b m₁ =>
    rw [hloaded] at hload hprecedes
    exact writeByte_delivers (hprecedes.suited hm) hload b

/-- What a node that is no loop does to what is carried. -/
theorem perform_delivers (hm : m.Suited) (h : m.Carries bytes) (node : Node) :
    (m.perform node).Delivers (bytes ++ m.writes node) := by
  by_cases hop : node.op = .write
  · rw [perform, hop]
    exact write_delivers hm h hop
  · rw [writes, if_neg hop, List.append_nil]
    unfold perform
    split
    · next hwrite => exact absurd hwrite hop
    · exact read_delivers hm h
    · exact move_delivers hm h node.amount
    · exact add_delivers hm h node.amount
    · exact store_delivers hm h 0
    · exact dumpStatus_delivers hm h
    · exact ⟨h.carriesOf, nofun⟩

/-- Where dumps are discarded, flushing everything is flushing the output. -/
theorem Suited.flush_eq (hm : m.Suited) :
    m.flush = ((m.output.flush m.sinks).1, { m with
      output := (m.output.flush m.sinks).2.1, sinks := (m.output.flush m.sinks).2.2 }) := by
  rw [flush, hm.dump]
  dsimp only [Output.flush]
  rw [Option.orElse_eq_orElse]
  simp

/-- A flush may fail, but writes nothing else. -/
theorem CarriesOf.flush (h : m.CarriesOf bytes) (hm : m.Suited) : m.flush.2.CarriesOf bytes := by
  rw [hm.flush_eq]
  exact @Output.carried_flush m.output (· <+: bytes) m.sinks hm.sound h

/-- A flush without a fault delivers all. -/
theorem Carries.flush (h : m.Carries bytes) (hm : m.Suited) (hfault : m.flush.1 = none) :
    m.flush.2.Delivered bytes := by
  rw [hm.flush_eq] at hfault ⊢
  exact (settled_of_flush hm h hfault).delivered

end Machine

/-! ### Asking for input -/

/-- The input after `n` bytes have been asked for. -/
def Input.taken (input : Input) (n : Nat) : Input :=
  (fun input => input.readByte.2)^[n] input

namespace Machine

variable {m m' : Machine} {bytes : Bytes}

/-- `readVisible`, together with the machines at which it asks for a byte of input, in order. -/
def readVisibleWithRequests (m : Machine) : List Machine × Progress UInt8 :=
  match _h : m.input.readByte with
  | (.error fault, input) => ([m], .stop (.input fault) { m with input })
  | (.ok b, input) =>
    if b < 0x20 then
      let (requests, progress) := ({ m with input }.trace (.skipped b)).readVisibleWithRequests
      (m :: requests, progress)
    else ([m], .next b ({ m with input }.trace (.read b)))
termination_by m.input.remaining
decreasing_by
  rw [trace_input]
  exact Input.readByte_remaining _h

/-- `read`, together with the machines at which it asks for a byte of input, in order. -/
def readWithRequests (m : Machine) : List Machine × Progress Unit :=
  let (fault, output, sinks) := m.output.flush m.sinks
  let m := { m with output, sinks }
  match fault with
  | some fault => ([], .stop (.output fault) m)
  | none =>
    let (requests, progress) := m.readVisibleWithRequests
    (requests, progress.andThen fun b m => m.store b)

/-- The machines at which `read` asks for a byte of input. -/
def requests (m : Machine) : List Machine :=
  m.readWithRequests.1

/-- With its requests left out, `readVisibleWithRequests` is `readVisible`. -/
theorem readVisibleWithRequests_snd (m : Machine) :
    m.readVisibleWithRequests.2 = m.readVisible := by
  fun_induction readVisibleWithRequests m with
  | case1 m fault input hread => exact (readVisible_of_error hread).symm
  | case2 m b input hread hcontrol requests progress heq ih =>
    rw [readVisible_of_ok hread, if_pos hcontrol, ← ih, heq]
  | case3 m b input hread hvisible => rw [readVisible_of_ok hread, if_neg hvisible]

/-- With its requests left out, `readWithRequests` is `read`. -/
theorem readWithRequests_snd (m : Machine) : m.readWithRequests.2 = m.read := by
  rw [read_eq]
  simp only [readWithRequests, fetch, ← readVisibleWithRequests_snd]
  cases (m.output.flush m.sinks).1 with
  | some fault => rfl
  | none => rfl

/-- `readVisible` takes a byte from the input for each of its requests, and nothing otherwise. -/
theorem input_readVisible (m : Machine) :
    m.readVisible.machine.input = m.input.taken m.readVisibleWithRequests.1.length := by
  fun_induction readVisibleWithRequests m with
  | case1 m fault input hread =>
    rw [readVisible_of_error hread, List.length_singleton, Input.taken, Function.iterate_one, hread]
    rfl
  | case2 m b input hread hcontrol requests progress heq ih =>
    rw [heq, trace_input] at ih
    rw [readVisible_of_ok hread, if_pos hcontrol, ih, List.length_cons, Input.taken, Input.taken,
      Function.iterate_succ_apply, hread]
  | case3 m b input hread hvisible =>
    rw [readVisible_of_ok hread, if_neg hvisible, List.length_singleton, Input.taken,
      Function.iterate_one, hread]
    exact trace_input ..

/-- `store` is no matter of the input. -/
theorem store_input (m : Machine) (value : UInt8) : (m.store value).machine.input = m.input := by
  unfold store
  split
  · rfl
  · exact trace_input ..

/-- `read` takes a byte from the input for each of its requests, and nothing otherwise. -/
theorem input_read (m : Machine) : m.read.machine.input = m.input.taken m.requests.length := by
  have hvisible := fun output sinks => input_readVisible { m with output, sinks }
  rw [read_eq]
  simp only [fetch, requests, readWithRequests]
  cases (m.output.flush m.sinks).1 with
  | some fault => rfl
  | none =>
    exact Progress.machine_andThen (p := (·.input = m.input.taken _)) (hvisible _ _)
      fun b m' _ hm' => (m'.store_input b).trans hm'

/-- Whenever `readVisible` asks for input, nothing is held back that was not before. -/
theorem Settled.requests_readVisible (h : m.Settled bytes) :
    ∀ m' ∈ m.readVisibleWithRequests.1, m.Precedes m' ∧ m'.Settled bytes := by
  fun_induction readVisibleWithRequests m with
  | case1 m fault input hread =>
    intro m' hm'
    rw [List.mem_singleton.mp hm']
    exact ⟨.refl m, h⟩
  -- Input is asked for once more behind a control, of which nothing but a trace is left.
  | case2 m b input hread hcontrol requests progress heq ih =>
    intro m' hm'
    obtain ⟨hprecedes, hsettled⟩ := h.trace input (.skipped b)
    rw [heq] at ih
    rcases List.mem_cons.mp hm' with rfl | hm'
    · exact ⟨.refl m', h⟩
    · obtain ⟨hprecedes', hsettled'⟩ := ih hsettled m' hm'
      exact ⟨hprecedes.trans hprecedes', hsettled'⟩
  | case3 m b input hread hvisible =>
    intro m' hm'
    rw [List.mem_singleton.mp hm']
    exact ⟨.refl m, h⟩

/-- Whenever `read` asks for input, everything that the output carries has been delivered. -/
theorem settled_of_mem_requests (hm : m.Suited) (h : m.Carries bytes) (hm' : m' ∈ m.requests) :
    m.Precedes m' ∧ m'.Settled bytes := by
  simp only [requests, readWithRequests] at hm'
  split at hm'
  · cases hm'
  · next hfault =>
    obtain ⟨hprecedes, hsettled⟩ :=
      (settled_of_flush hm h hfault).requests_readVisible m' hm'
    exact ⟨(precedes_of_output (m.output.sequel_flush m.sinks)).trans hprecedes, hsettled⟩

end Machine

/-! ### Steps -/

namespace Phase

variable {bytes : Bytes}

/-- The bytes that the next step writes. -/
def writes : Phase → Bytes
  | .running (node :: _) m => m.writes node
  | _ => []

/-- Whether a phase leaves the output with some bytes. -/
def Delivers (bytes : Bytes) : Phase → Prop
  | .running _ m => m.Carries bytes
  | .finished m => m.Carries bytes
  | .stopped cause m => m.CarriesOf bytes ∧ ∀ fault, cause = .input fault → m.Delivered bytes

/-- Whatever a phase delivers, it carries a beginning of it. -/
theorem Delivers.carriesOf {phase : Phase} (h : phase.Delivers bytes) :
    phase.machine.CarriesOf bytes := by
  cases phase with
  | running todo m => exact Machine.Carries.carriesOf h
  | finished m => exact Machine.Carries.carriesOf h
  | stopped cause m => exact h.1

/-- A phase that is reached by an operation. -/
theorem Delivers.ofProgress {α : Type} {goOn : α → Machine → Phase}
    {progress : Progress α} (h : progress.Delivers bytes)
    (hgoOn : ∀ value (m : Machine), m.Carries bytes → (goOn value m).Delivers bytes) :
    (progress.phase goOn).Delivers bytes := by
  cases progress with
  | next value m => exact hgoOn value m h
  | stop cause m => exact h

/-- What a step does to what is carried. -/
theorem delivers_step (patience : Patience) {phase : Phase} (hm : phase.machine.Suited)
    (h : phase.Delivers bytes) : (phase.step patience).Delivers (bytes ++ phase.writes) := by
  cases phase with
  | finished m => exact (List.append_nil bytes).symm ▸ h
  | stopped cause m => exact (List.append_nil bytes).symm ▸ h
  | running todo m =>
    cases todo with
    | nil => exact (List.append_nil bytes).symm ▸ h
    | cons node rest =>
      by_cases hop : node.op = .loop
      -- A loop writes nothing itself; its body is run in later steps.
      · have hne : node.op ≠ .write := by
          rw [hop]
          decide
        have hwrites : (running (node :: rest) m).writes = [] := if_neg hne
        rw [step_of_loop _ hop, hwrites, List.append_nil]
        refine Delivers.ofProgress (Machine.load_delivers h) fun value m₁ h₁ => ?_
        split
        · exact h₁
        · exact Delivers.ofProgress (Machine.tick_delivers h₁ patience) fun _ _ h₂ => h₂
      · rw [step_of_ne_loop _ hop]
        exact Delivers.ofProgress (Machine.perform_delivers hm h node) fun _ _ h₁ => h₁

end Phase

/-! ### Running the program loaded -/

/-- How a sink is attached to the output. -/
inductive Attachment where
  /-- The output goes to this sink only from now on. -/
  | output (sink : Nat)
  /-- The output goes to this sink as well. -/
  | tee (sink : Nat)

namespace Attachment

/-- The sink that is attached. -/
def sink : Attachment → Nat
  | .output i => i
  | .tee i => i

/-- The sinks of the output, given those that it had before. -/
def after (before : List Nat) : Attachment → List Nat
  | .output i => [i]
  | .tee i => before ++ [i]

/-- The sinks that an output has in the end. -/
def sinks (attachments : List Attachment) : List Nat :=
  attachments.foldl after []

end Attachment

namespace Runner

variable {r r' : Runner} {patience : Patience} {bytes : Bytes}

/-- Attaches a sink to the output. -/
def attach (r : Runner) : Attachment → Runner
  | .output i => r.setOutput (some i)
  | .tee i => r.addOutput (some i)

/-- Attaches sinks to the output one after another. -/
def attachEach (r : Runner) (attachments : List Attachment) : Runner :=
  attachments.foldl attach r

/-- The bytes written in the first steps of a run. -/
def written (r : Runner) (patience : Patience) (t : Nat) : Bytes :=
  r.observed patience Phase.writes t

/-- A sink to be attached: it has received nothing and reports its faults, and no log handler writes
to it. -/
def IsFresh (r : Runner) (i : Nat) : Prop :=
  (∃ sink, r.machine.sinks[i]? = some sink ∧ sink.received = [] ∧ sink.Honest) ∧
    ∀ handler ∈ r.machine.logger, handler.sink ≠ i

/-- A runner whose output goes to some sinks, and through which nothing has been written yet. -/
structure GoesTo (r : Runner) (is : List Nat) : Prop where
  /-- Its streams are suited. -/
  suited : r.machine.Suited
  /-- Nothing was written. -/
  carries : r.machine.Carries []
  /-- These are the sinks. -/
  sinks : r.machine.output.map Channel.sink = is

/-- The way to a sink is a channel that holds nothing back. -/
private theorem toSink_eq {sinks : Sinks} {i : Nat} {sink : Sink} (h : sinks[i]? = some sink) :
    ∃ channel : Channel, Output.toSink sinks i = [channel] ∧ channel.sink = i ∧
      channel.held = [] ∧ channel.fault = none := by
  rw [Output.toSink, h]
  cases hkind : sink.kind with
  | plain => exact ⟨.buffered { sink := i }, by simp [hkind], rfl, rfl, rfl⟩
  | memory => exact ⟨.direct i, by simp [hkind], rfl, rfl, rfl⟩
  | flusher => exact ⟨.flushing i, by simp [hkind], rfl, rfl, rfl⟩

/-- Nothing is written through a runner that discards its output. -/
theorem goesTo_nil (houtput : r.machine.output = []) (hdump : r.machine.dump = []) :
    r.GoesTo [] := by
  refine ⟨⟨⟨?_, fun i hi => ?_⟩, hdump, fun handler _ hi => ?_⟩, fun c hc => ?_, ?_⟩
  · rw [houtput]
    exact List.nodup_nil
  · rw [Output.WritesTo, houtput] at hi
    cases hi
  · rw [Output.WritesTo, houtput] at hi
    cases hi
  · rw [houtput] at hc
    cases hc
  · rw [houtput]
    rfl

/-- One more way to a fresh sink. -/
theorem GoesTo.append {is : List Nat} (h : r.GoesTo is) {channel : Channel}
    (hapart : channel.sink ∉ is) (hfresh : r.IsFresh channel.sink) (hheld : channel.held = [])
    (hfault : channel.fault = none) :
    GoesTo { r with machine := { r.machine with output := r.machine.output ++ [channel] } }
      (is ++ [channel.sink]) := by
  obtain ⟨⟨sink, hsink, hreceived, honest⟩, hlogger⟩ := hfresh
  have hsinks : (r.machine.output ++ [channel]).map Channel.sink = is ++ [channel.sink] := by
    rw [List.map_append, h.sinks]
    rfl
  -- A way that is appended comes last, and leads to a sink that no other way leads to.
  have hwrites : ∀ i, Output.WritesTo (r.machine.output ++ [channel]) i →
      r.machine.output.WritesTo i ∨ i = channel.sink := by
    intro i hi
    rw [Output.WritesTo, List.map_append, List.mem_append] at hi
    exact hi.imp_right List.mem_singleton.mp
  refine ⟨⟨⟨?_, fun i hi => ?_⟩, h.suited.dump, fun handler hhandler hi => ?_⟩, fun c hc => ?_,
    hsinks⟩
  · dsimp only
    rw [hsinks, List.nodup_append]
    have hdistinct := h.suited.sound.distinct
    rw [h.sinks] at hdistinct
    refine ⟨hdistinct, by simp, fun i hi j hj hij => hapart ?_⟩
    rwa [← List.mem_singleton.mp hj, ← hij]
  · rcases hwrites i hi with hi | rfl
    · exact h.suited.sound.honest i hi
    · exact ⟨sink, hsink, honest⟩
  · rcases hwrites _ hi with hi | hi
    · exact h.suited.logger handler hhandler hi
    · exact hlogger handler hhandler hi
  · rcases List.mem_append.mp hc with hc | hc
    · exact h.carries c hc
    · rw [List.mem_singleton.mp hc, Channel.carried, hheld, List.append_nil]
      exact ⟨(Sinks.received_of_getElem? hsink).trans hreceived, hfault⟩

/-- Attaching a fresh sink makes it a sink of the output, and leaves sinks alone that are none. -/
theorem GoesTo.attach {is : List Nat} (h : r.GoesTo is) {a : Attachment} (ha : a.sink ∉ is)
    (hfresh : r.IsFresh a.sink) :
    (r.attach a).GoesTo (a.after is) ∧ (r.attach a).machine.logger = r.machine.logger ∧
      ∀ j ∉ is, (r.attach a).machine.sinks[j]? = r.machine.sinks[j]? := by
  obtain ⟨⟨sink, hsink, hreceived, honest⟩, hlogger⟩ := hfresh
  cases a with
  | output i =>
    -- The output is flushed, which does not reach the new sink.
    let flushed : Runner := { r with
      machine := { r.machine with
        output := [], sinks := (r.machine.output.flush r.machine.sinks).2.2 } }
    have hothers : ∀ j ∉ is, flushed.machine.sinks[j]? = r.machine.sinks[j]? := fun j hj =>
      (r.machine.output.sequel_flush r.machine.sinks).leads.getElem?_of_not
        fun hwrites => hj (h.sinks ▸ hwrites)
    have hsink' := (hothers i ha).trans hsink
    obtain ⟨channel, hchannel, rfl, hheld, hfault⟩ := toSink_eq hsink'
    have heq : r.attach (.output channel.sink) =
        { flushed with machine := { flushed.machine with output := [] ++ [channel] } } := by
      rw [List.nil_append, ← hchannel]
      rfl
    have hgoes : flushed.GoesTo [] := goesTo_nil rfl h.suited.dump
    rw [heq]
    exact ⟨hgoes.append List.not_mem_nil ⟨⟨sink, hsink', hreceived, honest⟩, hlogger⟩ hheld hfault,
      rfl, hothers⟩
  | tee i =>
    obtain ⟨channel, hchannel, rfl, hheld, hfault⟩ := toSink_eq hsink
    have heq : r.attach (.tee channel.sink) =
        { r with machine := { r.machine with output := r.machine.output ++ [channel] } } := by
      rw [← hchannel]
      rfl
    rw [heq]
    exact ⟨h.append ha ⟨⟨sink, hsink, hreceived, honest⟩, hlogger⟩ hheld hfault, rfl,
      fun _ _ => rfl⟩

/-- Attaching fresh sinks one after another makes them the sinks of the output. -/
theorem goesTo_attachEach {attachments : List Attachment} : ∀ {r : Runner} {is : List Nat},
    r.GoesTo is → (attachments.map Attachment.sink).Nodup →
    (∀ a ∈ attachments, a.sink ∉ is ∧ r.IsFresh a.sink) →
    (r.attachEach attachments).GoesTo (attachments.foldl Attachment.after is) := by
  induction attachments with
  | nil => exact fun h _ _ => h
  | cons a rest ih =>
    intro r is h hdistinct hfresh
    rw [List.map_cons, List.nodup_cons] at hdistinct
    obtain ⟨ha, hafresh⟩ := hfresh a (List.mem_cons_self ..)
    obtain ⟨hgoes, hlogger, hothers⟩ := h.attach ha hafresh
    refine ih hgoes hdistinct.2 fun b hb => ?_
    obtain ⟨hb', ⟨sink, hsink, hstate⟩, hblogger⟩ := hfresh b (List.mem_cons_of_mem _ hb)
    -- The sinks still to be attached are other ones, so they are still fresh.
    have hne : b.sink ≠ a.sink := fun heq => hdistinct.1 (heq ▸ List.mem_map_of_mem hb)
    refine ⟨fun hmem => ?_, ⟨sink, (hothers _ hb').trans hsink, hstate⟩, hlogger ▸ hblogger⟩
    cases a with
    | output i => exact hne (List.mem_singleton.mp hmem)
    | tee i =>
      rcases List.mem_append.mp hmem with hmem | hmem
      · exact hb' hmem
      · exact hne (List.mem_singleton.mp hmem)

/-- Attachments do not change the program. -/
theorem program_attachEach {attachments : List Attachment} : ∀ {r : Runner},
    (r.attachEach attachments).program = r.program := by
  induction attachments with
  | nil => exact rfl
  | cons a rest ih =>
    intro r
    refine (@ih (r.attach a)).trans ?_
    cases a <;> rfl

/-- The streams in the course of a run are suited if they were at its start. -/
theorem suited_phase (hm : r.machine.Suited) (patience : Patience) (t : Nat) :
    (r.phase patience t).machine.Suited := by
  have hstart : (start r.machine).Suited := ⟨hm.sound, hm.dump, hm.logger⟩
  exact (Phase.precedes_after patience (.running r.loaded (start r.machine))
    (Nat.zero_le t)).suited hstart

/-- In the course of a run the output carries what has been written. -/
theorem delivers_phase (hm : r.machine.Suited) (h : r.machine.Carries []) (patience : Patience)
    (t : Nat) : (r.phase patience t).Delivers (r.written patience t) := by
  induction t with
  | zero => exact h
  | succ t ih =>
    rw [phase_succ, written, observed_succ]
    exact Phase.delivers_step patience (suited_phase hm patience t) ih

/-- Halting writes nothing. -/
theorem halt_carriesOf {m : Machine} (hm : m.Suited) (h : m.CarriesOf bytes) (cause : Stop) :
    (halt m cause).CarriesOf bytes := by
  rw [halt]
  split
  · exact h
  · exact (h.flush hm).trace (m.precedes_flush.suited hm) _

/-- What the end of a run does to what is carried: nothing else gets to the sinks, and everything
does if the run succeeds, unless a fault of the output was taken for the end of the input. -/
theorem delivered_result {phase : Phase} {result : Except RunFault Unit}
    (hm : phase.machine.Suited) (h : phase.Delivers bytes)
    (hreport : ¬ phase.machine.MayReport .endOfFile)
    (hcause : ∀ m, phase ≠ .stopped (.output .endOfFile) m)
    (hresult : r.result? phase = some (result, r')) :
    r'.machine.CarriesOf bytes ∧ (result = .ok () → r'.machine.Delivered bytes) := by
  cases phase with
  | running todo m => cases hresult
  | finished m =>
    have hcarries : m.Carries bytes := h
    have hof := hcarries.carriesOf.flush hm
    have hdelivered := hcarries.flush hm
    have hfault := fun fault => @Machine.mayReport_of_flush m fault
    rw [result?, Option.some.injEq, completed] at hresult
    split at hresult
    · next m' heq =>
      rw [heq] at hof hdelivered
      cases hresult
      exact ⟨hof, fun _ => hdelivered rfl⟩
    · next fault m' heq =>
      rw [heq] at hof hfault
      have hne : fault ≠ .endOfFile := fun heq' => hreport (heq' ▸ hfault fault rfl)
      have hend : Stop.isEndOfInput (.output fault) = false := by
        cases fault with
        | endOfFile => exact absurd rfl hne
        | shortWrite => rfl
        | other reason => rfl
      rw [concluded, hend] at hresult
      cases hresult
      exact ⟨hof, fun h => by cases h⟩
  | stopped cause m =>
    have hof := halt_carriesOf hm h.1 cause
    have hgrown := precedes_halt m cause
    rw [result?, Option.some.injEq, concluded] at hresult
    split at hresult
    · next hend =>
      cases hresult
      refine ⟨hof, fun _ i hi => ?_⟩
      have hinput : cause = .input .endOfFile := by
        unfold Stop.isEndOfInput at hend
        split at hend
        · rfl
        · exact absurd rfl (hcause m)
        · cases hend
      -- The sinks had received everything before, and cannot have received more.
      have hbefore := h.2 .endOfFile hinput i ((hgrown.output_writesTo_iff i).mp hi)
      have hprefix := hgrown.received i
      rw [hbefore] at hprefix
      exact (Machine.received_prefix hof hi).eq_of_length_le hprefix.length_le
    · cases hresult
      exact ⟨hof, fun h => by cases h⟩

/-- Let the different fresh sinks of `attachments` be attached to the output of `r`, with dumps
discarded. Each sink `i` that the output has in the end receives at all times, also in the middle of
a step, nothing but a prefix of what has been `written`. It has received all of it at each of the
`requests` for input of a read, which are those of `readWithRequests` and take all the input that is
taken; and when the run `Returns` without a fault. -/
theorem received_attachEach {attachments : List Attachment} (hloaded : r.program.isSome)
    (houtput : r.machine.output = []) (hdump : r.machine.dump = [])
    (hdistinct : (attachments.map Attachment.sink).Nodup)
    (hfresh : ∀ a ∈ attachments, r.IsFresh a.sink) (patience : Patience) {i : Nat}
    (hi : i ∈ Attachment.sinks attachments) :
    (∀ t reached sinks,
        Sinks.LeadsTo reached sinks ((r.attachEach attachments).phase patience t).machine.sinks →
        sinks.received i <+: (r.attachEach attachments).written patience t) ∧
      (∀ t node rest m, (r.attachEach attachments).phase patience t = .running (node :: rest) m →
        node.op = .read → m.readWithRequests.2 = m.perform node ∧
          (m.perform node).machine.input = m.input.taken m.requests.length ∧
          ∀ m' ∈ m.requests,
            m'.sinks.received i = (r.attachEach attachments).written patience t) ∧
      (∀ result r', (r.attachEach attachments).Returns patience result r' →
        ∃ t, ((r.attachEach attachments).phase patience t).IsOver ∧
          (∀ reached sinks, Sinks.LeadsTo reached sinks r'.machine.sinks →
            sinks.received i <+: (r.attachEach attachments).written patience t) ∧
          (result = .ok () →
            r'.machine.sinks.received i = (r.attachEach attachments).written patience t)) := by
  have hgoes := goesTo_attachEach (goesTo_nil houtput hdump) hdistinct
    fun a ha => ⟨List.not_mem_nil, hfresh a ha⟩
  have hloaded' : (r.attachEach attachments).program.isSome := by rwa [program_attachEach]
  generalize r.attachEach attachments = r at hgoes hloaded'
  have hstart : (start r.machine).Suited :=
    ⟨hgoes.suited.sound, hgoes.suited.dump, hgoes.suited.logger⟩
  have hprecedes : ∀ t, (start r.machine).Precedes (r.phase patience t).machine := fun t =>
    Phase.precedes_after patience (.running r.loaded (start r.machine)) (Nat.zero_le t)
  have hmem : r.machine.output.WritesTo i := by
    rw [Output.WritesTo, hgoes.sinks]
    exact hi
  have hwrites : ∀ {m}, (start r.machine).Precedes m → m.output.WritesTo i := fun h =>
    (h.output_writesTo_iff i).mpr hmem
  have hdelivers := delivers_phase hgoes.suited hgoes.carries patience
  refine ⟨fun t reached sinks hleads => ?_, fun t node rest m hphase hop => ?_,
    fun result r' hreturns => ?_⟩
  · exact (hleads.received i).trans
      (Machine.received_prefix (hdelivers t).carriesOf (hwrites (hprecedes t)))
  · have hcarries := hdelivers t
    have hbefore := hprecedes t
    rw [hphase] at hcarries hbefore
    have hread : m.perform node = m.read := by
      rw [Machine.perform, hop]
      rfl
    rw [hread]
    refine ⟨m.readWithRequests_snd, m.input_read, fun m' hm' => ?_⟩
    obtain ⟨hflushed, hsettled⟩ :=
      Machine.settled_of_mem_requests (hbefore.suited hstart) hcarries hm'
    exact hsettled.delivered i (hwrites (hbefore.trans hflushed))
  · obtain ⟨t, ht⟩ := (returns_iff hloaded').mp hreturns
    -- No stream takes a fault for the end of the input.
    have hreport : ¬ (start r.machine).MayReport .endOfFile := hstart.not_mayReport hgoes.carries
    obtain ⟨hof, hall⟩ := delivered_result ((hprecedes t).suited hstart) (hdelivers t)
      (fun h => hreport ((hprecedes t).mayReport _ h))
      (fun m hphase => hreport (Phase.mayReport_of_after patience hphase)) ht
    have hi' := hwrites ((hprecedes t).trans (precedes_result ht))
    exact ⟨t, isOver_of_result? ht,
      fun _ _ hleads => (hleads.received i).trans (Machine.received_prefix hof hi'),
      fun hok => hall hok i hi'⟩

/-- Writes a letter, reads one and writes it. There is a sink of every kind: one of them has room
for two bytes until a third one was tried, and one reports a fault when it is flushed first. -/
def echoing : Runner :=
  { (fresh [{ kind := .plain },
      { kind := .memory, room := some 2, fault := some (.other []), renewals := [⟨none, none⟩] },
      { kind := .flusher, flushFaults := [some .shortWrite] }]).addInput
      { name := utf8 "letters", data := utf8 "B" } with
    program := some [⟨.add, 65, []⟩, ⟨.write, 0, []⟩, ⟨.read, 0, []⟩, ⟨.write, 0, []⟩] }

/-- The first letter has got through the buffer when the second one is asked for, and both have when
the run is over. -/
theorem received_attachEach_echoing :
    echoing.program.isSome ∧ echoing.machine.output = [] ∧ echoing.machine.dump = [] ∧
      ([Attachment.output 2, .output 0, .tee 1].map Attachment.sink).Nodup ∧
      (∀ a ∈ [Attachment.output 2, .output 0, .tee 1], echoing.IsFresh a.sink) ∧
      (∃ node rest m m', (echoing.attachEach [.output 2, .output 0, .tee 1]).phase .endless 2 =
          .running (node :: rest) m ∧ node.op = .read ∧ m' ∈ m.requests ∧
        m'.sinks.received 0 = utf8 "A") ∧
      ∃ r' t, (echoing.attachEach [.output 2, .output 0, .tee 1]).Returns .endless (.ok ()) r' ∧
        (echoing.attachEach [.output 2, .output 0, .tee 1]).written .endless t = utf8 "AB" ∧
        r'.machine.sinks.received 0 = utf8 "AB" := by
  have hdistinct : ([Attachment.output 2, .output 0, .tee 1].map Attachment.sink).Nodup := by decide
  have hfresh : ∀ a ∈ [Attachment.output 2, .output 0, .tee 1], echoing.IsFresh a.sink := by
    intro a ha
    refine ⟨?_, nofun⟩
    simp only [List.mem_cons, List.not_mem_nil, or_false] at ha
    rcases ha with rfl | rfl | rfl
    all_goals
      exact ⟨_, rfl, rfl, by simp [Sink.allowances],
        by simp [Sink.MayReport, Sink.allowances, Sink.flushReports]⟩
  have hrun : ((echoing.attachEach [.output 2, .output 0, .tee 1]).run 6 .endless).1 = .ok () := by
    decide +kernel
  have hreturns := returns_of_run hrun (by decide)
  obtain ⟨-, hrequests, hresult⟩ := received_attachEach (r := echoing) rfl rfl rfl hdistinct hfresh
    .endless (by decide : 0 ∈ Attachment.sinks [.output 2, .output 0, .tee 1])
  -- The read of the second letter is the step 2.
  have hphase : (echoing.attachEach [.output 2, .output 0, .tee 1]).phase .endless 2 =
      .running [⟨.read, 0, []⟩, ⟨.write, 0, []⟩]
        ((echoing.attachEach [.output 2, .output 0, .tee 1]).phase .endless 2).machine := rfl
  have hwritten : (echoing.attachEach [.output 2, .output 0, .tee 1]).written .endless 2 =
      utf8 "A" := by decide +kernel
  obtain ⟨-, -, hasked⟩ := hrequests 2 _ _ _ hphase rfl
  have hsome : 0 < ((echoing.attachEach [.output 2, .output 0, .tee 1]).phase .endless
      2).machine.requests.length := by decide +kernel
  obtain ⟨m', hm'⟩ := List.exists_mem_of_length_pos hsome
  obtain ⟨t, -, -, hall⟩ := hresult _ _ hreturns
  have hreceived : ((echoing.attachEach [.output 2, .output 0, .tee 1]).run 6
      .endless).2.machine.sinks.received 0 = utf8 "AB" := by decide +kernel
  exact ⟨rfl, rfl, rfl, hdistinct, hfresh,
    ⟨_, _, _, m', hphase, rfl, hm', (hasked m' hm').trans hwritten⟩,
    _, t, hreturns, (hall rfl).symm.trans hreceived, hreceived⟩

end Runner

end TapeMachine
