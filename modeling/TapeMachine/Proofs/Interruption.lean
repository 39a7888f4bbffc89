import TapeMachine.Proofs.RunHistory

/-!
# Interrupted runs

A run that is given patience up to some check ends, whatever its program does. Until the check finds
that patience is at an end, the run is step by step the one that is never interrupted, and the check
comes at the beginning of a loop pass whose number is known in advance.

The module introduces:

* `Patience.lastPass`: the loop pass at whose beginning a run is interrupted;
* `Phase.step_upTo`, `Phase.after_upTo`: a run with patience beside the one that is never
  interrupted;
* `Phase.exists_isOver`: a run with patience ends;
* `Runner.returns_upTo`: what patience does to a run.
-/

namespace TapeMachine

/-- The number of the loop pass at whose beginning the check with a number is made. -/
def Patience.lastPass (check : Nat) : Nat :=
  1024 * max 1 check

/-! ### Counting loop passes -/

namespace Machine

section Ticks

variable (m : Machine)

/-- A load counts no pass. -/
@[simp] theorem load_ticks : m.load.machine.ticks = m.ticks := by
  unfold load
  split <;> rfl

/-- A store counts no pass. -/
@[simp] theorem store_ticks (value : UInt8) : (m.store value).machine.ticks = m.ticks := by
  unfold store
  split
  · rfl
  · exact trace_ticks _ _

/-- A move counts no pass. -/
theorem move_ticks (amount : Int64) : (m.move amount).machine.ticks = m.ticks := by
  simp only [move]
  split
  · exact trace_ticks _ _
  · rfl

/-- An addition counts no pass. -/
theorem add_ticks (amount : Int64) : (m.add amount).machine.ticks = m.ticks := by
  rw [add_eq]
  exact Progress.machine_andThen (p := (·.ticks = m.ticks)) m.load_ticks
    fun _ m' _ h => (m'.store_ticks _).trans h

/-- Writing a byte counts no pass. -/
theorem writeByte_ticks (b : UInt8) : (m.writeByte b).machine.ticks = m.ticks := by
  simp only [writeByte]
  split <;> exact trace_ticks _ _

/-- A write counts no pass. -/
theorem write_ticks : m.write.machine.ticks = m.ticks := by
  rw [write_eq]
  exact Progress.machine_andThen (p := (·.ticks = m.ticks)) m.load_ticks
    fun value m' _ h => (m'.writeByte_ticks value).trans h

/-- Reading a byte from the input counts no pass. -/
theorem readVisible_ticks : m.readVisible.machine.ticks = m.ticks := by
  fun_induction readVisible m with
  | case1 m fault input hread => rfl
  | case2 m b input hread hcontrol ih => exact ih.trans (trace_ticks _ _)
  | case3 m b input hread hvisible => exact trace_ticks _ _

/-- Fetching a byte counts no pass. -/
theorem fetch_ticks : m.fetch.machine.ticks = m.ticks := by
  simp only [fetch]
  split
  · rfl
  · exact readVisible_ticks _

/-- A read counts no pass. -/
theorem read_ticks : m.read.machine.ticks = m.ticks := by
  rw [read_eq]
  exact Progress.machine_andThen (p := (·.ticks = m.ticks)) m.fetch_ticks
    fun b m' _ h => (m'.store_ticks b).trans h

/-- A dump counts no pass. -/
theorem dumpStatus_ticks : m.dumpStatus.machine.ticks = m.ticks := by
  have htrace : m.traceStatus.ticks = m.ticks :=
    @traceStatus_induction (·.ticks = m.ticks) m rfl fun m' event h =>
      (m'.trace_ticks event).trans h
  rw [dumpStatus_eq]
  dsimp only
  split <;> exact htrace

/-- No loop pass begins with a node that is no loop. -/
theorem perform_ticks (node : Node) : (m.perform node).machine.ticks = m.ticks := by
  unfold perform
  split
  · exact m.write_ticks
  · exact m.read_ticks
  · exact m.move_ticks node.amount
  · exact m.add_ticks node.amount
  · exact m.store_ticks 0
  · exact m.dumpStatus_ticks
  · rfl

/-- Every loop pass that begins is counted, also one that is interrupted. -/
theorem tick_ticks (patience : Patience) : (m.tick patience).machine.ticks = m.ticks + 1 := by
  simp only [tick]
  split
  · split <;> rfl
  · rfl

end Ticks

variable {m : Machine} {check : Nat} (interrupt : Interrupt)

/-- No check before the last one interrupts the run. -/
theorem tick_of_lt (h : m.ticks + 1 < Patience.lastPass check) :
    m.tick (.upTo check interrupt) = .next () { m with ticks := m.ticks + 1 } := by
  have hcheck : (m.ticks + 1) / 1024 < max 1 check := Nat.div_lt_of_lt_mul h
  simp only [tick, Patience.atCheck, if_neg (Nat.not_le_of_lt hcheck)]
  split <;> rfl

/-- The last check interrupts the run. -/
theorem tick_of_eq (h : m.ticks + 1 = Patience.lastPass check) :
    m.tick (.upTo check interrupt) =
      .stop (.interrupted interrupt) { m with ticks := m.ticks + 1 } := by
  have hmod : (m.ticks + 1) % 1024 = 0 := by rw [h, Patience.lastPass, Nat.mul_mod_right]
  have hcheck : (m.ticks + 1) / 1024 = max 1 check := by
    rw [h, Patience.lastPass, Nat.mul_div_cancel_left _ (by decide)]
  simp only [tick, if_pos hmod, Patience.atCheck, hcheck, Nat.le_refl, if_true]

end Machine

/-! ### Runs with patience and without an interrupt -/

namespace Phase

/-- Loop passes are counted upwards. -/
theorem ticks_step (patience : Patience) (phase : Phase) :
    phase.machine.ticks ≤ (phase.step patience).machine.ticks := by
  cases phase with
  | finished m => exact Nat.le_refl _
  | stopped cause m => exact Nat.le_refl _
  | running todo m =>
    cases todo with
    | nil => exact Nat.le_refl _
    | cons node rest =>
      refine machine_step (p := (m.ticks ≤ ·.ticks)) patience rest (fun _ => ?_) (fun m' h => ?_)
        (fun _ => ?_)
      · exact Nat.le_of_eq m.load_ticks.symm
      · rw [m'.tick_ticks]
        exact Nat.le_succ_of_le h
      · exact Nat.le_of_eq (m.perform_ticks node).symm

/-- Passes are only ever counted up. -/
theorem ticks_after (patience : Patience) (phase : Phase) {s t : Nat} (h : s ≤ t) :
    (phase.after patience s).machine.ticks ≤ (phase.after patience t).machine.ticks := by
  induction h with
  | refl => exact Nat.le_refl _
  | step _ ih =>
    rw [after_succ]
    exact Nat.le_trans ih (ticks_step patience _)

variable {check : Nat} (interrupt : Interrupt)

/-- A step with patience is the step without an interrupt, or it is interrupted where this one
begins the last pass. -/
theorem step_upTo {phase : Phase} (h : phase.machine.ticks < Patience.lastPass check) :
    (phase.step (.upTo check interrupt) = phase.step .endless ∧
        (phase.step .endless).machine.ticks < Patience.lastPass check) ∨
      (phase.step (.upTo check interrupt) =
          .stopped (.interrupted interrupt) (phase.step .endless).machine ∧
        (phase.step .endless).machine.ticks = Patience.lastPass check) := by
  cases phase with
  | finished m => exact Or.inl ⟨rfl, h⟩
  | stopped cause m => exact Or.inl ⟨rfl, h⟩
  | running todo m =>
    change m.ticks < _ at h
    cases todo with
    | nil => exact Or.inl ⟨rfl, h⟩
    | cons node rest =>
      by_cases hop : node.op = .loop
      · rw [step_of_loop _ hop, step_of_loop _ hop]
        have hticks := m.load_ticks
        cases hload : m.load with
        | stop cause m₁ =>
          rw [hload] at hticks
          exact Or.inl ⟨rfl, Nat.lt_of_le_of_lt (Nat.le_of_eq hticks) h⟩
        | next value m₁ =>
          rw [hload] at hticks
          have h₁ : m₁.ticks < Patience.lastPass check := Nat.lt_of_le_of_lt (Nat.le_of_eq hticks) h
          simp only [Progress.phase]
          by_cases hzero : value = 0
          · rw [if_pos hzero, if_pos hzero]
            exact Or.inl ⟨rfl, h₁⟩
          · rw [if_neg hzero, if_neg hzero, Machine.tick_endless]
            -- The tick of this pass is below the last pass, or it is the one with the check.
            rcases Nat.lt_or_eq_of_le (Nat.succ_le_of_lt h₁) with hlt | heq
            · rw [Machine.tick_of_lt interrupt hlt]
              exact Or.inl ⟨rfl, hlt⟩
            · rw [Machine.tick_of_eq interrupt heq]
              exact Or.inr ⟨rfl, heq⟩
      · rw [step_of_ne_loop _ hop, step_of_ne_loop _ hop]
        refine Or.inl ⟨rfl, ?_⟩
        rwa [Progress.machine_phase _ fun _ _ => rfl, m.perform_ticks node]

/-- A run with patience is the one without an interrupt, or it was interrupted where this one began
the last pass. -/
theorem after_upTo {phase : Phase} (h : phase.machine.ticks < Patience.lastPass check) (t : Nat) :
    (phase.after (.upTo check interrupt) t = phase.after .endless t ∧
        (phase.after .endless t).machine.ticks < Patience.lastPass check) ∨
      ∃ s ≤ t, phase.after (.upTo check interrupt) t =
          .stopped (.interrupted interrupt) (phase.after .endless s).machine ∧
        (phase.after .endless s).machine.ticks = Patience.lastPass check := by
  induction t with
  | zero => exact Or.inl ⟨rfl, h⟩
  | succ t ih =>
    rcases ih with ⟨hsame, hticks⟩ | ⟨s, hle, hstopped, hticks⟩
    · rw [after_succ, after_succ, hsame]
      refine (step_upTo interrupt hticks).imp_right fun ⟨hstopped, hlast⟩ => ?_
      rw [← after_succ] at hstopped hlast
      exact ⟨t + 1, Nat.le_refl _, hstopped, hlast⟩
    · refine Or.inr ⟨s, Nat.le_succ_of_le hle, ?_, hticks⟩
      rw [after_succ, hstopped]
      rfl

/-- A run with patience ends. -/
theorem exists_isOver (todo : List Node) (m : Machine) (h : m.ticks < Patience.lastPass check) :
    ∃ t, ((Phase.running todo m).after (.upTo check interrupt) t).IsOver := by
  -- Every step begins one of the passes left, or leaves fewer nodes to be run.
  match todo with
  | [] => exact ⟨1, trivial⟩
  | node :: rest =>
    suffices hstep : ∃ t, (((Phase.running (node :: rest) m).step (.upTo check interrupt)).after
        (.upTo check interrupt) t).IsOver by
      obtain ⟨t, ht⟩ := hstep
      exact ⟨t + 1, by rwa [after_step] at ht⟩
    by_cases hop : node.op = .loop
    · rw [step_of_loop _ hop]
      have hticks := m.load_ticks
      cases hload : m.load with
      | stop cause m₁ => exact ⟨0, trivial⟩
      | next value m₁ =>
        rw [hload] at hticks
        change m₁.ticks = m.ticks at hticks
        simp only [Progress.phase]
        by_cases hzero : value = 0
        · rw [if_pos hzero]
          exact exists_isOver rest m₁ (Nat.lt_of_le_of_lt (Nat.le_of_eq hticks) h)
        · rw [if_neg hzero]
          have hbound : m₁.ticks < _ := Nat.lt_of_le_of_lt (Nat.le_of_eq hticks) h
          rcases Nat.lt_or_eq_of_le (Nat.succ_le_of_lt hbound) with hlt | heq
          · rw [Machine.tick_of_lt interrupt hlt]
            exact exists_isOver (node.body ++ node :: rest) { m₁ with ticks := m₁.ticks + 1 } hlt
          · rw [Machine.tick_of_eq interrupt heq]
            exact ⟨0, trivial⟩
    · rw [step_of_ne_loop _ hop]
      have hticks := m.perform_ticks node
      cases hperform : m.perform node with
      | stop cause m₁ => exact ⟨0, trivial⟩
      | next _ m₁ =>
        rw [hperform] at hticks
        change m₁.ticks = m.ticks at hticks
        exact exists_isOver rest m₁ (Nat.lt_of_le_of_lt (Nat.le_of_eq hticks) h)
termination_by (Patience.lastPass check - m.ticks, todo.length)
decreasing_by
  · rw [hticks]
    exact Prod.Lex.right _ (Nat.lt_succ_self rest.length)
  · exact Prod.Lex.left _ _ (by omega)
  · rw [hticks]
    exact Prod.Lex.right _ (Nat.lt_succ_self rest.length)

/-- A step that moves the cursor to a position on the tape. -/
theorem step_move (patience : Patience) {m : Machine} {amount : Int64} {target : Nat}
    (htarget : (m.cursor : Int) + amount.toInt = target) (hle : target ≤ Register.lastPosition)
    (rest : List Node) :
    step patience (running (⟨.move, amount, []⟩ :: rest) m) =
      running rest { m.trace (.moved m.cursor target) with cursor := target } := by
  rw [step_of_ne_loop _ (show Op.move ≠ Op.loop by decide)]
  change (m.move amount).phase _ = _
  rw [Machine.move, htarget, Int.toNat_natCast, if_pos ⟨Int.natCast_nonneg target, hle⟩]
  rfl

/-- A loop that moves right and back. -/
def swing : Node :=
  ⟨.loop, 0, [⟨.move, 1, []⟩, ⟨.move, -1, []⟩]⟩

/-- A pass of `swing` takes three steps, and leaves tape and cursor as they were. -/
theorem after_swing (rest : List Node) {m : Machine} (hfault : m.tape.fault? .load m.cursor = none)
    (hpeek : m.tape.peek m.cursor ≠ 0) (hcursor : m.cursor < Register.lastPosition) :
    ∃ m', (running (swing :: rest) m).after .endless 3 = running (swing :: rest) m' ∧
      m'.tape = m.tape ∧ m'.cursor = m.cursor := by
  have hload : m.load = .next (m.tape.peek m.cursor) { m with tape := m.tape.touch m.cursor } := by
    rw [Machine.load, hfault]
  -- A cell that is not zero is backed already, so that loading it leaves the tape as it is.
  have htouch : m.tape.touch m.cursor = m.tape := by
    refine if_pos (Option.isSome_iff_ne_none.mpr fun hnone => hpeek ?_)
    rw [Tape.peek, hnone, Option.getD_none]
  rw [← after_step, step_of_loop _ rfl, hload, htouch, Progress.phase_next, if_neg hpeek,
    Machine.tick_endless]
  let m₁ : Machine := { m with ticks := m.ticks + 1 }
  let m₂ : Machine := { m₁.trace (.moved m₁.cursor (m₁.cursor + 1)) with cursor := m₁.cursor + 1 }
  have hright : step .endless (running (⟨.move, 1, []⟩ :: ⟨.move, -1, []⟩ :: swing :: rest) m₁) =
      running (⟨.move, -1, []⟩ :: swing :: rest) m₂ := step_move .endless rfl hcursor _
  have hback : step .endless (running (⟨.move, -1, []⟩ :: swing :: rest) m₂) =
      running (swing :: rest) { m₂.trace (.moved m₂.cursor m.cursor) with cursor := m.cursor } :=
    @step_move .endless m₂ (-1) m.cursor (Int.add_neg_cancel_right (m.cursor : Int) 1)
      (Nat.le_of_lt hcursor) _
  refine ⟨{ m₂.trace (.moved m₂.cursor m.cursor) with cursor := m.cursor }, ?_, ?_, rfl⟩
  · rw [← hback, ← hright]
    rfl
  · exact (Machine.trace_tape ..).trans (Machine.trace_tape ..)

/-- On a cell that is not zero, `swing` never ends unless it is interrupted. -/
theorem not_isOver_of_swing (rest : List Node) {m : Machine}
    (hfault : m.tape.fault? .load m.cursor = none) (hpeek : m.tape.peek m.cursor ≠ 0)
    (hcursor : m.cursor < Register.lastPosition) (t : Nat) :
    ¬ ((running (swing :: rest) m).after .endless t).IsOver := by
  have hcycles : ∀ n, ∃ m', (running (swing :: rest) m).after .endless (3 * n) =
      running (swing :: rest) m' ∧ m'.tape = m.tape ∧ m'.cursor = m.cursor := by
    intro n
    induction n with
    | zero => exact ⟨m, rfl, rfl, rfl⟩
    | succ n ih =>
      obtain ⟨m₁, hphase, htape, hcursor₁⟩ := ih
      obtain ⟨m₂, hpass, htape₂, hcursor₂⟩ := @after_swing rest m₁ (by rwa [htape, hcursor₁])
        (by rwa [htape, hcursor₁]) (by rwa [hcursor₁])
      refine ⟨m₂, ?_, htape₂.trans htape, hcursor₂.trans hcursor₁⟩
      rw [Nat.mul_succ, ← after_after, hphase, hpass]
  -- What is over stays over, also until the end of a pass.
  intro hover
  obtain ⟨m', hphase, -, -⟩ := hcycles t
  have hlater : t ≤ 3 * t := Nat.le_mul_of_pos_left t (by decide)
  rw [← after_eq_of_le .endless hlater hover, hphase] at hover
  exact hover

end Phase

/-! ### Running the program loaded -/

namespace Runner

variable {r : Runner}

/-- Halting counts no pass. -/
theorem halt_ticks (m : Machine) (cause : Stop) : (halt m cause).ticks = m.ticks := by
  rw [halt]
  split
  · rfl
  · exact Machine.trace_ticks _ _

/-- No loop pass begins at the end of a run. -/
theorem ticks_result {phase : Phase} {result : Except RunFault Unit} {r' : Runner}
    (h : r.result? phase = some (result, r')) : r'.machine.ticks = phase.machine.ticks := by
  cases phase with
  | running todo m => cases h
  | finished m =>
    have hticks : (r.completed m).2.machine.ticks = m.ticks := by
      have hflush : m.flush.2.ticks = m.ticks := rfl
      unfold completed
      split
      · next heq =>
        rw [heq] at hflush
        exact hflush
      · next fault m' heq =>
        rw [heq] at hflush
        rw [machine_concluded]
        exact hflush
    rwa [Option.some.inj h] at hticks
  | stopped cause m =>
    have hmachine := r.machine_concluded cause (halt m cause)
    rw [Option.some.inj h] at hmachine
    exact hmachine ▸ halt_ticks m cause

/-- With patience up to a `check`, a run comes to one result. If the run without an interrupt comes
to a result before the pass `1024 * max 1 check`, at whose beginning the `check` is made, then this
is the result, and everything is left the same. Otherwise the run stops with the `interrupt` at the
beginning of this pass; and where output `IsInMemory`, what a sink `i` has received by then is what
the run without an interrupt writes there first. -/
theorem returns_upTo (hloaded : r.program.isSome) (hmemory : r.machine.IsInMemory)
    (check : Nat) (interrupt : Interrupt) :
    (∃! outcome : Except RunFault Unit × Runner,
        r.Returns (.upTo check interrupt) outcome.1 outcome.2) ∧
      (∀ result r', r.Returns .endless result r' → r'.machine.ticks < 1024 * max 1 check →
        r.Returns (.upTo check interrupt) result r') ∧
      ((∀ result r', r.Returns .endless result r' → 1024 * max 1 check ≤ r'.machine.ticks) →
        ∃ r', r.Returns (.upTo check interrupt) (.error (.stopped (.interrupted interrupt))) r' ∧
          r'.machine.ticks = 1024 * max 1 check ∧
          ∀ i, (∀ handler ∈ r.machine.logger, handler.sink ≠ i) → ∃ least, ∀ fuel ≥ least,
            r'.machine.sinks.received i <+:
              (r.run fuel .endless).2.machine.sinks.received i) := by
  have hstart :
      (Phase.running r.loaded (start r.machine)).machine.ticks < Patience.lastPass check :=
    Nat.mul_pos (by decide) (Nat.lt_of_lt_of_le Nat.zero_lt_one (Nat.le_max_left 1 check))
  obtain ⟨t, hover⟩ := Phase.exists_isOver interrupt r.loaded (start r.machine) hstart
  obtain ⟨⟨result, r'⟩, hresult⟩ := r.exists_result? hover
  refine ⟨?_, ?_, fun hlong => ?_⟩
  · have hreturns := (returns_iff hloaded).mpr ⟨t, hresult⟩
    refine ⟨(result, r'), hreturns, fun outcome houtcome => ?_⟩
    obtain ⟨hfirst, hsecond⟩ := houtcome.unique hloaded hreturns
    exact Prod.ext hfirst hsecond
  · intro result r' hreturns hticks
    obtain ⟨s, hs⟩ := (returns_iff hloaded).mp hreturns
    rw [ticks_result hs] at hticks
    rcases Phase.after_upTo interrupt hstart s with ⟨hsame, -⟩ | ⟨s', hle, -, hlast⟩
    · exact (returns_iff hloaded).mpr ⟨s, by rw [phase, hsame]; exact hs⟩
    · -- The run without an interrupt would have begun the last pass.
      have hmono := Phase.ticks_after .endless (Phase.running r.loaded (start r.machine)) hle
      rw [hlast] at hmono
      exact absurd hticks (Nat.not_lt_of_le hmono)
  · rcases Phase.after_upTo interrupt hstart t with ⟨hsame, hticks⟩ | ⟨s, hle, hstopped, hlast⟩
    · -- The run without an interrupt would be over too early.
      rw [hsame] at hresult
      have hreturns := (returns_iff hloaded).mpr ⟨t, hresult⟩
      have hpasses := hlong result r' hreturns
      rw [ticks_result hresult] at hpasses
      exact absurd hticks (Nat.not_lt_of_le hpasses)
    · refine ⟨{ r with
        machine := halt (r.phase .endless s).machine (.interrupted interrupt), halted := false },
        (returns_iff hloaded).mpr ⟨t, by rw [phase, hstopped]; rfl⟩,
        (halt_ticks _ _).trans hlast, fun i hi => ⟨s, fun fuel hfuel => ?_⟩⟩
      have hprecedes : (start r.machine).Precedes (r.phase .endless s).machine :=
        Phase.precedes_after .endless (Phase.running r.loaded (start r.machine)) (Nat.zero_le s)
      have hreceived := received_halt (hprecedes.isInMemory hmemory) (hprecedes.logger ▸ hi)
        (.interrupted interrupt)
      rw [hreceived]
      exact received_run hloaded hfuel i

/-- Writes a byte to memory and then moves to and fro forever. -/
def waiting : Runner :=
  { (fresh [{ kind := .memory }]).setOutput (some 0) with
    program := some [⟨.add, 65, []⟩, ⟨.write, 0, []⟩, Phase.swing] }

/-- `waiting` comes to no result by itself. -/
theorem not_returns_waiting (result : Except RunFault Unit) (r' : Runner) :
    ¬ waiting.Returns .endless result r' := by
  intro hreturns
  obtain ⟨t, ht⟩ := (returns_iff rfl).mp hreturns
  have hover := isOver_of_result? ht
  obtain ⟨m, hphase, hfault, hpeek, hcursor⟩ : ∃ m,
      waiting.phase .endless 2 = .running [Phase.swing] m ∧
        m.tape.fault? .load m.cursor = none ∧ m.tape.peek m.cursor ≠ 0 ∧
        m.cursor < Register.lastPosition :=
    ⟨(waiting.phase .endless 2).machine, rfl, by decide +kernel, by decide +kernel,
      by decide +kernel⟩
  have hlater := Phase.after_eq_of_le .endless (Nat.le_add_left t 2) hover
  rw [← Phase.after_after] at hlater
  exact Phase.not_isOver_of_swing [] hfault hpeek hcursor t (hphase ▸ hlater ▸ hover)

/-- The run of `waiting`, which never ends by itself, is interrupted by the first check. -/
theorem returns_upTo_waiting :
    waiting.program.isSome ∧ waiting.machine.IsInMemory ∧
      ∃ r', waiting.Returns (.upTo 1 .canceled) (.error (.stopped (.interrupted .canceled))) r' ∧
        r'.machine.ticks = 1024 ∧
        ∃ least, ∀ fuel ≥ least, r'.machine.sinks.received 0 <+:
          (waiting.run fuel .endless).2.machine.sinks.received 0 := by
  have hloaded : waiting.program.isSome := rfl
  have hmemory : waiting.machine.IsInMemory := by decide
  obtain ⟨-, -, hinterrupted⟩ := returns_upTo hloaded hmemory 1 .canceled
  obtain ⟨r', hreturns, hticks, hreceived⟩ := hinterrupted fun result r' hreturns =>
    absurd hreturns (not_returns_waiting result r')
  exact ⟨hloaded, hmemory, r', hreturns, hticks, hreceived 0 nofun⟩

end Runner

end TapeMachine
