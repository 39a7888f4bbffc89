import Mathlib.Logic.Function.Iterate
import TapeMachine.Proofs.Execution

/-!
# Runs step by step

`Machine.exec` gives what a run leads to, but not what happens on the way. Here a run is taken one
step at a time. The nodes still to be run are one list: a loop that begins a pass puts its body in
front of itself, so that no stack is needed. The two ways of running agree, whatever the streams do
and however the run ends.

The module introduces:

* `Phase`, `Phase.step`, `Phase.after`: where a run stands, and where it stands some steps later;
* `Phase.machine_step`, `Phase.step_stopped_cases`: what a step consists of, and where it stops;
* `Machine.exec_isMet`: what `exec` gives is met step by step, and fuel that does not suffice was at
  least spent;
* `Machine.exec_of_finished`, `Machine.exec_of_stopped`: more fuel than steps is enough;
* `Runner.phase`, `Runner.Returns`: the phases of running the program loaded, and what it comes to;
* `Runner.observed`: what is observed in the course of running it;
* `Runner.returns_iff`: what running the program comes to is decided by the phase at its end;
* `Runner.Returns.unique`: it comes to one result only.
-/

namespace TapeMachine

/-- Where a run stands. -/
inductive Phase where
  /-- Nodes are still to be run, one after another. -/
  | running (todo : List Node) (machine : Machine)
  /-- The end of the program was reached. -/
  | finished (machine : Machine)
  /-- The run stopped before. -/
  | stopped (cause : Stop) (machine : Machine)

/-- The phase behind an operation, given how the run goes on if it does. -/
def Progress.phase {α : Type} (goOn : α → Machine → Phase) : Progress α → Phase
  | .next value m => goOn value m
  | .stop cause m => .stopped cause m

/-- The machine behind an operation. -/
def Progress.machine {α : Type} : Progress α → Machine
  | .next _ m => m
  | .stop _ m => m

@[simp] theorem Progress.phase_next {α : Type} (goOn : α → Machine → Phase) (value : α)
    (m : Machine) : (Progress.next value m).phase goOn = goOn value m := rfl

/-- The machine of a phase. -/
def Phase.machine : Phase → Machine
  | .running _ m => m
  | .finished m => m
  | .stopped _ m => m

/-- Going on with the machine as it is keeps it. -/
theorem Progress.machine_phase {α : Type} {goOn : α → Machine → Phase} (progress : Progress α)
    (h : ∀ value m, (goOn value m).machine = m) :
    (progress.phase goOn).machine = progress.machine := by
  cases progress with
  | next value m => exact h value m
  | stop cause m => rfl

namespace Phase

/-- One step of a run: the next node is carried out, or a loop looks at its cell and is left or
begins a pass. A run that is over stays as it is. -/
def step (patience : Patience) : Phase → Phase
  | .running [] m => .finished m
  | .running (node :: rest) m =>
    if node.op = .loop then
      m.load.phase fun value m =>
        if value = 0 then .running rest m
        else (m.tick patience).phase fun _ m => .running (node.body ++ node :: rest) m
    else (m.perform node).phase fun _ m => .running rest m
  | phase => phase

/-- Where a run stands after a number of steps. -/
def after (patience : Patience) (t : Nat) (phase : Phase) : Phase :=
  (step patience)^[t] phase

/-- Whether a run is over. -/
def IsOver : Phase → Prop
  | .running _ _ => False
  | _ => True

section Steps

variable (patience : Patience)

/-- A loop is left if its cell is zero; otherwise it counts a pass, and its body is run before it.
-/
theorem step_of_loop {node : Node} (hop : node.op = .loop) (rest : List Node) (m : Machine) :
    step patience (.running (node :: rest) m) = m.load.phase fun value m =>
      if value = 0 then .running rest m
      else (m.tick patience).phase fun _ m => .running (node.body ++ node :: rest) m :=
  if_pos hop

/-- Any other node is performed. -/
theorem step_of_ne_loop {node : Node} (hop : node.op ≠ .loop) (rest : List Node) (m : Machine) :
    step patience (.running (node :: rest) m) =
      (m.perform node).phase fun _ m => .running rest m :=
  if_neg hop

/-- A property of the machine holds after a step if it holds after what the step consists of. -/
theorem machine_step {p : Machine → Prop} {node : Node} (rest : List Node) {m : Machine}
    (hload : node.op = .loop → p m.load.machine)
    (htick : ∀ m', p m' → p (m'.tick patience).machine)
    (hperform : node.op ≠ .loop → p (m.perform node).machine) :
    p (step patience (.running (node :: rest) m)).machine := by
  by_cases hop : node.op = .loop
  · have h := hload hop
    rw [step_of_loop patience hop]
    cases hloaded : m.load with
    | stop cause m₁ =>
      rw [hloaded] at h
      exact h
    | next value m₁ =>
      rw [hloaded] at h
      rw [Progress.phase_next]
      split
      · exact h
      · rw [Progress.machine_phase _ fun _ _ => rfl]
        exact htick m₁ h
  · rw [step_of_ne_loop patience hop, Progress.machine_phase _ fun _ _ => rfl]
    exact hperform hop

/-- A step stops where a loop cannot look at its cell or begin a pass, or where another node stops.
-/
theorem step_stopped_cases {node : Node} {rest : List Node} {m m' : Machine} {cause : Stop}
    (h : step patience (.running (node :: rest) m) = .stopped cause m') :
    node.op = .loop ∧ (m.load = .stop cause m' ∨
        ∃ value m₁, m.load = .next value m₁ ∧ m₁.tick patience = .stop cause m') ∨
      node.op ≠ .loop ∧ m.perform node = .stop cause m' := by
  by_cases hop : node.op = .loop
  · refine Or.inl ⟨hop, ?_⟩
    rw [step_of_loop patience hop] at h
    cases hload : m.load with
    | stop cause₁ m₁ =>
      rw [hload] at h
      cases h
      exact Or.inl rfl
    | next value m₁ =>
      rw [hload, Progress.phase_next] at h
      -- A loop that is left does not stop; one that is entered may be interrupted.
      split at h
      · cases h
      · cases htick : m₁.tick patience with
        | next _ m₂ =>
          rw [htick] at h
          cases h
        | stop cause₁ m₂ =>
          rw [htick] at h
          cases h
          exact Or.inr ⟨value, m₁, rfl, htick⟩
  · refine Or.inr ⟨hop, ?_⟩
    rw [step_of_ne_loop patience hop] at h
    cases hperform : m.perform node with
    | next _ m₁ =>
      rw [hperform] at h
      cases h
    | stop cause₁ m₁ =>
      rw [hperform] at h
      cases h
      rfl

/-- A phase that is over has no further step. -/
theorem step_of_isOver {phase : Phase} (h : phase.IsOver) : step patience phase = phase := by
  cases phase with
  | running todo m => exact h.elim
  | finished m => rfl
  | stopped cause m => rfl

/-- A last step may be set apart. -/
theorem after_succ (t : Nat) (phase : Phase) :
    phase.after patience (t + 1) = (phase.after patience t).step patience :=
  Function.iterate_succ_apply' _ _ _

/-- A first step may be set apart. -/
theorem after_step (t : Nat) (phase : Phase) :
    (phase.step patience).after patience t = phase.after patience (t + 1) :=
  (Function.iterate_succ_apply _ _ _).symm

/-- Steps may be counted in two parts. -/
theorem after_after (s t : Nat) (phase : Phase) :
    (phase.after patience s).after patience t = phase.after patience (s + t) := by
  rw [after, after, after, Nat.add_comm, Function.iterate_add_apply]

/-- A phase that is over stays as it is. -/
theorem after_of_isOver {phase : Phase} (h : phase.IsOver) (t : Nat) :
    phase.after patience t = phase :=
  Function.iterate_fixed (step_of_isOver patience h) t

/-- A run that is over stays where it is. -/
theorem after_eq_of_le {phase : Phase} {s t : Nat} (hle : s ≤ t)
    (h : (phase.after patience s).IsOver) :
    phase.after patience t = phase.after patience s := by
  obtain ⟨k, rfl⟩ := Nat.exists_eq_add_of_le hle
  rw [← after_after, after_of_isOver patience h]

/-- A run comes to one end only. -/
theorem after_unique {phase : Phase} {s t : Nat} (hs : (phase.after patience s).IsOver)
    (ht : (phase.after patience t).IsOver) :
    phase.after patience s = phase.after patience t := by
  rcases Nat.le_total s t with hle | hle
  · exact (after_eq_of_le patience hle hs).symm
  · exact after_eq_of_le patience hle ht

end Steps

end Phase

/-! ### Both ways of running agree -/

/-- Whether what a run of some nodes gives is met by the steps from a phase. Behind the nodes `rest`
is still to be run. A run that used up its fuel took at least as many steps. -/
def Outcome.IsMet (patience : Patience) (rest : List Node) (fuel : Nat) (phase : Phase) :
    Outcome → Prop
  | .finished m => ∃ t, phase.after patience t = .running rest m
  | .stopped cause m => ∃ t, phase.after patience t = .stopped cause m
  | .unfinished m => ∃ t todo, fuel ≤ t ∧ phase.after patience t = .running todo m

namespace Machine

variable {patience : Patience} {fuel : Nat} {nodes rest : List Node} {m : Machine}

/-- What is met from a later phase is met from an earlier one. -/
private theorem isMet_of_after {phase : Phase} {outcome : Outcome} (s : Nat)
    (h : outcome.IsMet patience rest fuel (phase.after patience s)) :
    outcome.IsMet patience rest (fuel + s) phase := by
  cases outcome with
  | finished m =>
    obtain ⟨t, ht⟩ := h
    exact ⟨s + t, by rw [← Phase.after_after, ht]⟩
  | stopped cause m =>
    obtain ⟨t, ht⟩ := h
    exact ⟨s + t, by rw [← Phase.after_after, ht]⟩
  | unfinished m =>
    obtain ⟨t, todo, hle, ht⟩ := h
    exact ⟨s + t, todo, by omega, by rw [← Phase.after_after, ht]⟩

/-- What is met is also met with less fuel. -/
private theorem isMet_mono {phase : Phase} {outcome : Outcome} {fuel' : Nat} (hle : fuel' ≤ fuel)
    (h : outcome.IsMet patience rest fuel phase) : outcome.IsMet patience rest fuel' phase := by
  cases outcome with
  | finished m => exact h
  | stopped cause m => exact h
  | unfinished m =>
    obtain ⟨t, todo, ht, hphase⟩ := h
    exact ⟨t, todo, Nat.le_trans hle ht, hphase⟩

/-- What a run of nodes gives is met step by step. -/
theorem exec_isMet (patience : Patience) (fuel : Nat) : ∀ (nodes rest : List Node) (m : Machine),
    (exec patience fuel nodes m).IsMet patience rest fuel (.running (nodes ++ rest) m) := by
  -- Every unit of fuel pays for the step that begins a node or a pass.
  induction fuel with
  | zero => exact fun nodes rest m => ⟨0, nodes ++ rest, Nat.le_refl 0, rfl⟩
  | succ fuel ih =>
    intro nodes rest m
    cases nodes with
    | nil => exact ⟨0, rfl⟩
    | cons node nodes =>
      -- It is enough to look at what follows the first step.
      suffices h : (exec patience (fuel + 1) (node :: nodes) m).IsMet patience rest fuel
          (Phase.step patience (.running (node :: (nodes ++ rest)) m)) from
        isMet_of_after 1 h
      by_cases hop : node.op = .loop
      · rw [exec_of_loop nodes hop, Phase.step_of_loop patience hop]
        cases hload : m.load with
        | stop cause m₁ => exact ⟨0, rfl⟩
        | next value m₁ =>
          by_cases hzero : value = 0
          · simp only [Progress.phase, if_pos hzero]
            exact ih nodes rest m₁
          · simp only [Progress.phase, if_neg hzero]
            cases htick : m₁.tick patience with
            | stop cause m₂ => exact ⟨0, rfl⟩
            | next _ m₂ =>
              dsimp only
              -- The body is run with the loop itself behind it.
              have hbody := ih node.body (node :: (nodes ++ rest)) m₂
              cases hexec : exec patience fuel node.body m₂ with
              | finished m₃ =>
                rw [hexec] at hbody
                obtain ⟨t, ht⟩ := hbody
                have hagain := ih (node :: nodes) rest m₃
                rw [List.cons_append, ← ht] at hagain
                exact isMet_mono (Nat.le_add_right fuel t) (isMet_of_after t hagain)
              | stopped cause m₃ =>
                rw [hexec] at hbody
                exact hbody
              | unfinished m₃ =>
                rw [hexec] at hbody
                exact hbody
      · rw [exec_of_ne_loop nodes hop, Phase.step_of_ne_loop patience hop]
        cases hperform : m.perform node with
        | stop cause m₁ => exact ⟨0, rfl⟩
        | next _ m₁ => exact ih nodes rest m₁

/-- Fuel that does not suffice was spent on as many steps. -/
theorem phase_of_unfinished {m' : Machine} (h : exec patience fuel nodes m = .unfinished m') :
    ∃ t todo, fuel ≤ t ∧ (Phase.running nodes m).after patience t = .running todo m' := by
  have hmet := exec_isMet patience fuel nodes [] m
  rw [h, List.append_nil] at hmet
  exact hmet

/-- A run that stopped is reached by steps. -/
theorem phase_of_stopped {cause : Stop} {m' : Machine}
    (h : exec patience fuel nodes m = .stopped cause m') :
    ∃ t, (Phase.running nodes m).after patience t = .stopped cause m' := by
  have hmet := exec_isMet patience fuel nodes [] m
  rw [h, List.append_nil] at hmet
  exact hmet

/-- A run that finished is reached by steps. -/
theorem phase_of_finished {m' : Machine} (h : exec patience fuel nodes m = .finished m') :
    ∃ t, (Phase.running nodes m).after patience t = .finished m' := by
  have hmet := exec_isMet patience fuel nodes [] m
  rw [h, List.append_nil] at hmet
  obtain ⟨t, ht⟩ := hmet
  exact ⟨t + 1, by rw [Phase.after_succ, ht]; rfl⟩

/-- What a run of nodes gives that had fuel for more steps than it took to be over. -/
private theorem exec_of_isOver {t : Nat} (hlt : t < fuel)
    (hover : ((Phase.running nodes m).after patience t).IsOver) :
    (∃ m', exec patience fuel nodes m = .finished m' ∧
        (Phase.running nodes m).after patience t = .finished m') ∨
      ∃ cause m', exec patience fuel nodes m = .stopped cause m' ∧
        (Phase.running nodes m).after patience t = .stopped cause m' := by
  cases hexec : exec patience fuel nodes m with
  | finished m' =>
    obtain ⟨s, hs⟩ := phase_of_finished hexec
    refine Or.inl ⟨m', rfl, ?_⟩
    rw [← hs]
    exact Phase.after_unique patience hover (by rw [hs]; trivial)
  | stopped cause m' =>
    obtain ⟨s, hs⟩ := phase_of_stopped hexec
    refine Or.inr ⟨cause, m', rfl, ?_⟩
    rw [← hs]
    exact Phase.after_unique patience hover (by rw [hs]; trivial)
  | unfinished m' =>
    -- The run would go on where it is over already.
    obtain ⟨s, todo, hle, hs⟩ := phase_of_unfinished hexec
    rw [← Phase.after_eq_of_le patience (by omega : t ≤ s) hover, hs] at hover
    exact hover.elim

/-- With more fuel than steps, a run finishes as the steps do. -/
theorem exec_of_finished {t : Nat} {m' : Machine} (hlt : t < fuel)
    (h : (Phase.running nodes m).after patience t = .finished m') :
    exec patience fuel nodes m = .finished m' := by
  obtain ⟨m₁, hexec, hphase⟩ | ⟨cause, m₁, -, hphase⟩ :=
    exec_of_isOver hlt (by rw [h]; trivial)
  · cases h.symm.trans hphase
    exact hexec
  · cases h.symm.trans hphase

/-- With more fuel than steps, a run stops as the steps do. -/
theorem exec_of_stopped {t : Nat} {cause : Stop} {m' : Machine} (hlt : t < fuel)
    (h : (Phase.running nodes m).after patience t = .stopped cause m') :
    exec patience fuel nodes m = .stopped cause m' := by
  obtain ⟨m₁, -, hphase⟩ | ⟨cause, m₁, hexec, hphase⟩ :=
    exec_of_isOver hlt (by rw [h]; trivial)
  · cases h.symm.trans hphase
  · cases h.symm.trans hphase
    exact hexec

end Machine

/-! ### Running the program loaded -/

namespace Runner

variable {r r' : Runner} {patience : Patience} {result : Except RunFault Unit}

/-- Where running the program loaded stands after a number of steps. -/
def phase (r : Runner) (patience : Patience) (t : Nat) : Phase :=
  (Phase.running r.loaded (start r.machine)).after patience t

/-- What a run gives that a stop puts an end to. The end of the input is no failure. -/
def concluded (r : Runner) (cause : Stop) (machine : Machine) : Except RunFault Unit × Runner :=
  if cause.isEndOfInput then (.ok (), { r with machine, halted := true })
  else (.error (.stopped cause), { r with machine, halted := false })

/-- What a run gives that reaches the end of the program: everything is flushed first. -/
def completed (r : Runner) (machine : Machine) : Except RunFault Unit × Runner :=
  match machine.flush with
  | (none, machine) => (.ok (), { r with machine, halted := false })
  | (some fault, machine) => r.concluded (.output fault) machine

/-- What a run gives by the phase it has come to; nothing as long as it goes on. -/
def result? (r : Runner) : Phase → Option (Except RunFault Unit × Runner)
  | .running _ _ => none
  | .finished m => some (r.completed m)
  | .stopped cause m => some (r.concluded cause (halt m cause))

/-- Whether running the program loaded comes to an end with a result, and what it leaves. -/
def Returns (r : Runner) (patience : Patience) (result : Except RunFault Unit) (r' : Runner) :
    Prop :=
  result ≠ .error .unfinished ∧ ∃ fuel, r.run fuel patience = (result, r')

/-- The phases of a run are one step apart. -/
theorem phase_succ (r : Runner) (patience : Patience) (t : Nat) :
    r.phase patience (t + 1) = (r.phase patience t).step patience :=
  Phase.after_succ patience t _

/-- What is observed in the first steps of a run, given what is observed of one step. -/
def observed {α : Type} (r : Runner) (patience : Patience) (observe : Phase → List α) (t : Nat) :
    List α :=
  (List.range t).flatMap fun s => observe (r.phase patience s)

/-- Each phase adds what can be observed at it. -/
theorem observed_succ {α : Type} (r : Runner) (patience : Patience) (observe : Phase → List α)
    (t : Nat) :
    r.observed patience observe (t + 1) =
      r.observed patience observe t ++ observe (r.phase patience t) := by
  simp [observed, List.range_succ]

/-- What a run gives, whatever the fuel, by what running the nodes gives. -/
theorem run_of_isSome (hloaded : r.program.isSome) (fuel : Nat) :
    r.run fuel patience = match Machine.exec patience fuel r.loaded (start r.machine) with
      | .finished m => r.completed m
      | .stopped cause m => r.concluded cause (halt m cause)
      | .unfinished machine => (.error .unfinished, { r with machine, halted := false }) := by
  unfold run
  split
  · next hnone => simp [hnone] at hloaded
  · next program hprogram =>
    have hnodes : r.loaded = program := by rw [loaded, hprogram, Option.getD_some]
    rw [hnodes]
    cases Machine.exec patience fuel program (start r.machine) with
    | finished m =>
      dsimp only [completed]
      rcases m.flush with ⟨_ | fault, m'⟩ <;> rfl
    | stopped cause m => rfl
    | unfinished m => rfl

/-- A run that stopped is not unfinished. -/
theorem concluded_ne_unfinished (r : Runner) (cause : Stop) (m : Machine) :
    (r.concluded cause m).1 ≠ .error .unfinished := by
  rw [concluded]
  split <;> simp

/-- A run that is complete is not unfinished. -/
theorem completed_ne_unfinished (r : Runner) (m : Machine) :
    (r.completed m).1 ≠ .error .unfinished := by
  unfold completed
  split
  · simp
  · next fault m' _ => exact r.concluded_ne_unfinished (.output fault) m'

/-- A run that is over has a result. -/
theorem exists_result? (r : Runner) {phase : Phase} (h : phase.IsOver) :
    ∃ outcome, r.result? phase = some outcome := by
  cases phase with
  | running todo m => exact h.elim
  | finished m => exact ⟨r.completed m, rfl⟩
  | stopped cause m => exact ⟨r.concluded cause (halt m cause), rfl⟩

/-- A run that has a result is over. -/
theorem isOver_of_result? {phase : Phase} {outcome : Except RunFault Unit × Runner}
    (h : r.result? phase = some outcome) : phase.IsOver := by
  cases phase with
  | running todo m => cases h
  | finished m => trivial
  | stopped cause m => trivial

/-- Running the program loaded comes to a result exactly if a phase of it has this result. -/
theorem returns_iff (hloaded : r.program.isSome) :
    r.Returns patience result r' ↔ ∃ t, r.result? (r.phase patience t) = some (result, r') := by
  constructor
  · rintro ⟨hover, fuel, hrun⟩
    rw [run_of_isSome hloaded] at hrun
    cases hexec : Machine.exec patience fuel r.loaded (start r.machine) with
    | finished m =>
      obtain ⟨t, ht⟩ := Machine.phase_of_finished hexec
      rw [hexec] at hrun
      exact ⟨t, by rw [phase, ht]; exact congrArg some hrun⟩
    | stopped cause m =>
      obtain ⟨t, ht⟩ := Machine.phase_of_stopped hexec
      rw [hexec] at hrun
      exact ⟨t, by rw [phase, ht]; exact congrArg some hrun⟩
    -- Returning rules out that the fuel was used up.
    | unfinished m =>
      simp only [hexec, Prod.mk.injEq] at hrun
      exact absurd hrun.1.symm hover
  · rintro ⟨t, ht⟩
    cases hphase : r.phase patience t with
    | running todo m =>
      rw [hphase] at ht
      cases ht
    | finished m =>
      rw [hphase, result?, Option.some.injEq] at ht
      -- One unit of fuel more than steps is enough.
      have hexec := Machine.exec_of_finished (Nat.lt_succ_self t) hphase
      have hover := r.completed_ne_unfinished m
      rw [ht] at hover
      exact ⟨hover, t + 1, by rw [run_of_isSome hloaded, hexec, ← ht]⟩
    | stopped cause m =>
      rw [hphase, result?, Option.some.injEq] at ht
      have hexec := Machine.exec_of_stopped (Nat.lt_succ_self t) hphase
      have hover := r.concluded_ne_unfinished cause (halt m cause)
      rw [ht] at hover
      exact ⟨hover, t + 1, by rw [run_of_isSome hloaded, hexec, ← ht]⟩

/-- Fuel that suffices shows what running comes to. -/
theorem returns_of_run {result : Except RunFault Unit} {fuel : Nat}
    (h : (r.run fuel patience).1 = result) (hresult : result ≠ .error .unfinished) :
    r.Returns patience result (r.run fuel patience).2 :=
  ⟨hresult, fuel, Prod.ext h rfl⟩

/-- Running the program loaded comes to one result only. -/
theorem Returns.unique (hloaded : r.program.isSome) {result₁ result₂ : Except RunFault Unit}
    {r₁ r₂ : Runner} (h₁ : r.Returns patience result₁ r₁) (h₂ : r.Returns patience result₂ r₂) :
    result₁ = result₂ ∧ r₁ = r₂ := by
  obtain ⟨s, hs⟩ := (returns_iff hloaded).mp h₁
  obtain ⟨t, ht⟩ := (returns_iff hloaded).mp h₂
  have hphase : r.phase patience s = r.phase patience t :=
    Phase.after_unique patience (isOver_of_result? hs) (isOver_of_result? ht)
  rw [hphase, ht, Option.some.injEq, Prod.mk.injEq] at hs
  exact ⟨hs.1.symm, hs.2.symm⟩

end Runner

end TapeMachine
