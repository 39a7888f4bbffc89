import TapeMachine.Proofs.View

/-!
# The effect of running a program

The effect of a program follows the structure of its nodes, with no fuel and no machine. This module
shows that running the program on a machine that nothing hinders has exactly this effect.

The module introduces:

* `Program.effect`: the endings that a program has;
* `Outcome.ending`: what a run led to, as far as a program is concerned;
* `Machine.effect_of_exec`: what a run leads to is an ending of the program;
* `Machine.exec_of_effect`: every ending of a program is reached with fuel enough, unless memory is
  exhausted;
* `Program.effect_isFunctional`: a program has at most one ending.
-/

namespace TapeMachine

mutual

/-- The endings that a node has. A node without a meaning has none. -/
def Node.effect : Node → Effect
  | ⟨op, amount, body⟩ =>
    if op = .loop then Effect.loop (Program.effect body)
    else fun s e => Node.act { op, amount, body } s = some e

/-- The endings that nodes have when they are run one after another. -/
def Program.effect : List Node → Effect
  | [] => Effect.skip
  | node :: rest => node.effect.seq (Program.effect rest)

end

/-- A loop repeats what its body does. -/
theorem Node.effect_of_loop {node : Node} (h : node.op = .loop) :
    node.effect = Effect.loop (Program.effect node.body) := by
  cases node
  exact (Node.effect.eq_1 ..).trans (if_pos h)

/-- Any other node does what its operation says. -/
theorem Node.effect_of_ne_loop {node : Node} (h : node.op ≠ .loop) :
    node.effect = fun s e => node.act s = some e := by
  cases node
  exact (Node.effect.eq_1 ..).trans (if_neg h)

/-- A node that always acts in one way has that effect. -/
private theorem Node.effect_of_act {op : Op} {amount : Int64} {body : List Node}
    {f : Snapshot → Ending} (hop : op ≠ .loop)
    (hact : ∀ s, Node.act ⟨op, amount, body⟩ s = some (f s)) :
    Node.effect ⟨op, amount, body⟩ = Effect.of f := by
  rw [Node.effect_of_ne_loop hop]
  funext s e
  rw [hact, Option.some.injEq, Effect.of]

section Operations

variable (amount : Int64) (body : List Node)

/-- The node of an addition. -/
@[simp] theorem Node.effect_add :
    Node.effect ⟨.add, amount, body⟩ = Effect.of (Snapshot.add amount.toInt) :=
  Node.effect_of_act (by decide) fun _ => rfl

/-- The node of a move. -/
@[simp] theorem Node.effect_move :
    Node.effect ⟨.move, amount, body⟩ = Effect.of (Snapshot.move amount.toInt) :=
  Node.effect_of_act (by decide) fun _ => rfl

/-- The node of a write. -/
@[simp] theorem Node.effect_write : Node.effect ⟨.write, amount, body⟩ = Effect.of Snapshot.write :=
  Node.effect_of_act (by decide) fun _ => rfl

/-- The node of a read. -/
@[simp] theorem Node.effect_read : Node.effect ⟨.read, amount, body⟩ = Effect.of Snapshot.read :=
  Node.effect_of_act (by decide) fun _ => rfl

/-- The node that clears a cell. -/
@[simp] theorem Node.effect_clear :
    Node.effect ⟨.clear, amount, body⟩ = Effect.of fun s => .done (s.put 0) :=
  Node.effect_of_act (by decide) fun _ => rfl

/-- The node of a dump, which is no effect on what a program can see. -/
@[simp] theorem Node.effect_dump : Node.effect ⟨.dump, amount, body⟩ = Effect.skip :=
  Node.effect_of_act (by decide) fun _ => rfl

/-- `effect_of_loop` for a node that is given by its parts. -/
@[simp] theorem Node.effect_loop :
    Node.effect ⟨.loop, amount, body⟩ = Effect.loop (Program.effect body) :=
  Node.effect_of_loop rfl

end Operations

/-- No nodes do nothing. -/
@[simp] theorem Program.effect_nil : Program.effect [] = Effect.skip := rfl

/-- Nodes do one thing after another. -/
@[simp] theorem Program.effect_cons (node : Node) (rest : List Node) :
    Program.effect (node :: rest) = node.effect.seq (Program.effect rest) := rfl

/-- Nodes in a row do things in a row. -/
theorem Program.effect_append (first second : List Node) :
    Program.effect (first ++ second) = (Program.effect first).seq (Program.effect second) := by
  induction first with
  | nil => simp
  | cons node rest ih => simp [ih, Effect.seq_assoc]

/-- A program has at most one ending from each snapshot. -/
theorem Program.effect_isFunctional : (program : List Node) → (Program.effect program).IsFunctional
  | [] => Effect.isFunctional_of _
  | ⟨op, amount, body⟩ :: rest => by
    refine Effect.IsFunctional.seq ?_ (Program.effect_isFunctional rest)
    by_cases hop : op = .loop
    · rw [Node.effect_of_loop hop]
      exact (Program.effect_isFunctional body).loop
    · rw [Node.effect_of_ne_loop hop]
      exact fun s e e' h h' => Option.some.inj (h.symm.trans h')

/-- What a run led to, as far as a program is concerned. -/
def Outcome.ending (sink : Nat) : Outcome → Option Ending
  | .finished m => some (.done (m.view sink))
  | .stopped cause m => Machine.endingOf sink (.stop cause m)
  | .unfinished _ => none

section Ending

variable {outcome : Outcome} {sink : Nat} {s : Snapshot}

/-- A run reaches the end if it is finished. -/
theorem Outcome.ending_eq_done_iff : outcome.ending sink = some (.done s) ↔
    ∃ m, outcome = .finished m ∧ m.view sink = s := by
  cases outcome with
  | finished m => simp [Outcome.ending]
  | stopped cause m =>
    simp only [Outcome.ending, Machine.endingOf]
    split <;> simp_all
  | unfinished m => simp [Outcome.ending]

/-- A run is out of input if it stopped at the end of a file. -/
theorem Outcome.ending_eq_outOfInput_iff : outcome.ending sink = some (.outOfInput s) ↔
    ∃ m, outcome = .stopped (.input .endOfFile) m ∧ m.view sink = s := by
  cases outcome with
  | finished m => simp [Outcome.ending]
  | stopped cause m =>
    simp only [Outcome.ending, Machine.endingOf, Outcome.stopped.injEq]
    split <;> simp_all
  | unfinished m => simp [Outcome.ending]

/-- A run left the tape if it stopped with an underflow. -/
theorem Outcome.ending_eq_offTape_iff : outcome.ending sink = some .offTape ↔
    ∃ cursor amount m, outcome = .stopped (.underflow cursor amount) m := by
  cases outcome with
  | finished m => simp [Outcome.ending]
  | stopped cause m =>
    simp only [Outcome.ending, Machine.endingOf, Outcome.stopped.injEq]
    split <;> simp_all
  | unfinished m => simp [Outcome.ending]

end Ending

/-- Goes on from a run that reached the end of its nodes. -/
def Outcome.andThen (f : Machine → Outcome) : Outcome → Outcome
  | .finished m => f m
  | outcome => outcome

/-- Whether a run stopped for lack of memory, which takes bounded memory. -/
def Outcome.Exhausts (memory : Memory) (outcome : Outcome) : Prop :=
  memory = .addressable ∧ ∃ fault m, outcome = .stopped (.memory fault) m

/-- Whether a run leaves a machine that nothing hinders, at the end of the input as well, and did
not fail because of an output. -/
def Outcome.Leaves (sink : Nat) (memory : Memory) : Outcome → Prop
  | .finished m => m.Unhindered sink memory
  | .stopped cause m => Machine.Leaves sink memory (.stop cause m)
  | .unfinished _ => True

namespace Machine

/-- A run that stopped has no ending that is an end of nodes. -/
theorem isStop_of_endingOf {sink : Nat} {cause : Stop} {m : Machine} {e : Ending}
    (h : endingOf sink (.stop cause m) = some e) : e.IsStop := by
  unfold endingOf at h
  split at h <;> cases h <;> trivial

/-! ### One step of a run -/

section Step

variable {patience : Patience} {fuel : Nat} {node : Node} (rest : List Node) {m : Machine}

/-- A loop loads its cell; unless that is zero, it counts a pass, runs its body and is run again. -/
theorem exec_of_loop (hop : node.op = .loop) :
    exec patience (fuel + 1) (node :: rest) m = match m.load with
      | .stop cause m => .stopped cause m
      | .next value m =>
        if value = 0 then exec patience fuel rest m
        else match m.tick patience with
          | .stop cause m => .stopped cause m
          | .next _ m =>
            (exec patience fuel node.body m).andThen (exec patience fuel (node :: rest)) := by
  rw [exec, if_pos hop]
  cases m.load with
  | stop cause m₁ => rfl
  | next value m₁ =>
    by_cases hzero : value = 0
    · simp only [if_pos hzero]
    · simp only [if_neg hzero]
      cases m₁.tick patience with
      | stop cause m₂ => rfl
      | next _ m₂ => cases exec patience fuel node.body m₂ <;> rfl

/-- Any other node is performed. -/
theorem exec_of_ne_loop (hop : node.op ≠ .loop) :
    exec patience (fuel + 1) (node :: rest) m = match m.perform node with
      | .stop cause m => .stopped cause m
      | .next _ m => exec patience fuel rest m := by
  rw [exec]
  refine (if_neg hop).trans ?_
  cases m.perform node <;> rfl

variable {sink : Nat} {memory : Memory}

/-- Where nothing hinders the machine, a loop tests its cell and is passed over or begins a pass,
unless memory is exhausted. -/
private theorem exec_loop_cases (h : m.Unhindered sink memory) (hop : node.op = .loop) :
    (∀ fuel, (exec .endless (fuel + 1) (node :: rest) m).Exhausts memory) ∨
      ∃ m', m'.Unhindered sink memory ∧ m'.view sink = m.view sink ∧
        ∀ fuel, exec .endless (fuel + 1) (node :: rest) m =
          if (m.view sink).here = 0 then exec .endless fuel rest m'
          else (exec .endless fuel node.body m').andThen (exec .endless fuel (node :: rest)) := by
  obtain ⟨hmemory, fault, m₁, hload⟩ | ⟨m₁, hload, h₁, hview₁⟩ := h.load
  · exact Or.inl fun fuel => ⟨hmemory, fault, m₁, by rw [exec_of_loop rest hop, hload]⟩
  refine Or.inr ?_
  by_cases hzero : (m.view sink).here = 0
  · refine ⟨m₁, h₁, hview₁, fun fuel => ?_⟩
    rw [exec_of_loop rest hop, hload]
    simp only [if_pos hzero]
  · obtain ⟨m₂, htick, h₂, hview₂⟩ := h₁.tick
    refine ⟨m₂, h₂, hview₂.trans hview₁, fun fuel => ?_⟩
    rw [exec_of_loop rest hop, hload]
    simp only [if_neg hzero, htick]

end Step

/-! ### Runs have the effect of the program -/

/-- A run leaves a machine that nothing hinders, and what the run led to is an ending of its nodes.
-/
private theorem exec_unhindered_and_effect {sink : Nat} {memory : Memory} (fuel : Nat) :
    ∀ (nodes : List Node) (m : Machine), m.Unhindered sink memory →
      (exec .endless fuel nodes m).Leaves sink memory ∧
        ∀ e, (exec .endless fuel nodes m).ending sink = some e →
          Program.effect nodes (m.view sink) e := by
  -- Both at once: what is said of the passes after the first needs a machine that nothing hinders.
  induction fuel with
  | zero => exact fun nodes m _ => ⟨trivial, nofun⟩
  | succ fuel ih =>
    intro nodes m h
    cases nodes with
    | nil =>
      refine ⟨h, fun e h' => ?_⟩
      cases h'
      exact rfl
    | cons node rest =>
      rw [Program.effect_cons]
      by_cases hop : node.op = .loop
      · rw [Node.effect_of_loop hop]
        obtain hfault | ⟨m₁, h₁, hview, heq⟩ := exec_loop_cases rest h hop
        · obtain ⟨-, fault, m', hstop⟩ := hfault fuel
          rw [hstop]
          exact ⟨trivial, nofun⟩
        rw [heq, ← hview]
        by_cases hzero : (m₁.view sink).here = 0
        · rw [if_pos hzero]
          obtain ⟨hleaves, heffect⟩ := ih rest m₁ h₁
          exact ⟨hleaves, fun e he => Effect.seq_of_done (.exit hzero) (heffect e he)⟩
        · rw [if_neg hzero]
          obtain ⟨hleaves, heffect⟩ := ih node.body m₁ h₁
          -- The pass is over, or it stopped, or it used up the fuel.
          cases hbody : exec .endless fuel node.body m₁ with
          | finished m₂ =>
            rw [hbody] at hleaves
            obtain ⟨hleaves', heffect'⟩ := ih (node :: rest) m₂ hleaves
            refine ⟨hleaves', fun e he => ?_⟩
            have hpass : Program.effect node.body (m₁.view sink) (.done (m₂.view sink)) :=
              heffect _ (by rw [hbody]; rfl)
            have hrest := heffect' e he
            rw [Program.effect_cons, Node.effect_of_loop hop] at hrest
            rcases hrest with ⟨t, hloop, hrest⟩ | ⟨hloop, hstop⟩
            · exact Effect.seq_of_done (.pass hzero hpass hloop) hrest
            · exact Effect.seq_of_stop (.pass hzero hpass hloop) hstop
          | stopped cause m₂ =>
            rw [hbody] at hleaves
            refine ⟨hleaves, fun e he => ?_⟩
            have hstop := isStop_of_endingOf he
            exact Effect.seq_of_stop (.stop hzero (heffect e (by rw [hbody]; exact he)) hstop) hstop
          | unfinished m₂ => exact ⟨trivial, nofun⟩
      · rw [Node.effect_of_ne_loop hop, exec_of_ne_loop rest hop]
        obtain ⟨-, fault, m', hstop⟩ | ⟨hact, hleaves⟩ := perform_ending h node
        · rw [hstop]
          exact ⟨trivial, nofun⟩
        cases hperform : m.perform node with
        | next _ m₁ =>
          rw [hperform] at hact hleaves
          obtain ⟨hleaves', heffect⟩ := ih rest m₁ hleaves
          exact ⟨hleaves', fun e he => Effect.seq_of_done hact.symm (heffect e he)⟩
        | stop cause m₁ =>
          rw [hperform] at hact hleaves
          refine ⟨hleaves, fun e he => ?_⟩
          exact Effect.seq_of_stop (hact.symm.trans he) (isStop_of_endingOf he)

/-- A run leaves a machine that nothing hinders, at the end of the input as well, and does not fail
because of an output. -/
theorem Unhindered.leaves {m : Machine} {sink : Nat} {memory : Memory}
    (h : m.Unhindered sink memory) (fuel : Nat) (nodes : List Node) :
    (exec .endless fuel nodes m).Leaves sink memory :=
  (exec_unhindered_and_effect fuel nodes m h).1

/-- Nothing hinders a machine at the end of a run. -/
theorem Unhindered.exec {m m' : Machine} {sink fuel : Nat} {memory : Memory} {nodes : List Node}
    (h : m.Unhindered sink memory) (hexec : exec .endless fuel nodes m = .finished m') :
    m'.Unhindered sink memory := by
  have hleaves := h.leaves fuel nodes
  rwa [hexec] at hleaves

/-- What a run leads to is an ending of its program. -/
theorem effect_of_exec {m : Machine} {sink fuel : Nat} {memory : Memory} {nodes : List Node}
    {e : Ending} (h : m.Unhindered sink memory)
    (hexec : (exec .endless fuel nodes m).ending sink = some e) :
    Program.effect nodes (m.view sink) e :=
  (exec_unhindered_and_effect fuel nodes m h).2 e hexec

/-! ### Every ending is reached -/

/-- More fuel changes nothing about a run that had enough. -/
theorem exec_of_le {patience : Patience} {fuel fuel' : Nat} (hle : fuel ≤ fuel') :
    ∀ {nodes : List Node} {m : Machine}, (∀ m', exec patience fuel nodes m ≠ .unfinished m') →
      exec patience fuel' nodes m = exec patience fuel nodes m := by
  induction fuel generalizing fuel' with
  | zero => exact fun h => absurd rfl (h _)
  | succ fuel ih =>
    obtain ⟨fuel', rfl⟩ : ∃ n, fuel' = n + 1 := ⟨fuel' - 1, by omega⟩
    have hle' : fuel ≤ fuel' := by omega
    intro nodes m hover
    cases nodes with
    | nil => rfl
    | cons node rest =>
      by_cases hop : node.op = .loop
      · rw [exec_of_loop rest hop] at hover
        rw [exec_of_loop rest hop, exec_of_loop rest hop]
        cases hload : m.load with
        | stop cause m₁ => rfl
        | next value m₁ =>
          simp only [hload] at hover
          by_cases hzero : value = 0
          · simp only [if_pos hzero] at hover ⊢
            exact ih hle' hover
          · simp only [if_neg hzero] at hover ⊢
            cases htick : m₁.tick patience with
            | stop cause m₂ => rfl
            | next _ m₂ =>
              simp only [htick] at hover
              -- A pass without an end would leave the loop without one.
              have hbody : exec patience fuel' node.body m₂ = exec patience fuel node.body m₂ := by
                refine ih hle' fun m' hm' => ?_
                rw [hm'] at hover
                exact hover m' rfl
              simp only [hbody]
              cases hrun : exec patience fuel node.body m₂ with
              | finished m₃ =>
                rw [hrun] at hover
                exact ih hle' hover
              | stopped cause m₃ => rfl
              | unfinished m₃ => rfl
      · rw [exec_of_ne_loop rest hop] at hover
        rw [exec_of_ne_loop rest hop, exec_of_ne_loop rest hop]
        cases hperform : m.perform node with
        | next _ m₁ =>
          rw [hperform] at hover
          exact ih hle' hover
        | stop cause m₁ => rfl

/-- Whether a run of nodes leads to an ending, unless it exhausts the memory. -/
def Reaches (m : Machine) (sink : Nat) (memory : Memory) (nodes : List Node) (e : Ending) : Prop :=
  ∃ fuel, (exec .endless fuel nodes m).ending sink = some e ∨
    (exec .endless fuel nodes m).Exhausts memory

/-- A run that led to something had fuel enough. -/
private theorem ne_unfinished {outcome : Outcome} {sink : Nat} {memory : Memory} {e : Ending}
    (h : outcome.ending sink = some e ∨ outcome.Exhausts memory) (m : Machine) :
    outcome ≠ .unfinished m := by
  rintro rfl
  obtain h | ⟨-, fault, m', h⟩ := h
  · cases h
  · cases h

section Reach

variable {sink : Nat} {memory : Memory} {node : Node} {rest : List Node} {m : Machine} {e : Ending}

/-- A loop and what follows it reach their endings if its body and what follows it do. -/
private theorem reaches_loop (hop : node.op = .loop)
    (hbody : ∀ {m : Machine} {e}, m.Unhindered sink memory →
      Program.effect node.body (m.view sink) e → m.Reaches sink memory node.body e)
    (hrest : ∀ {m : Machine} {e}, m.Unhindered sink memory → Program.effect rest (m.view sink) e →
      m.Reaches sink memory rest e)
    {e₁ : Ending} (h : m.Unhindered sink memory)
    (hloop : Effect.loop (Program.effect node.body) (m.view sink) e₁)
    (hthen : (∃ t, e₁ = .done t ∧ Program.effect rest t e) ∨ (e₁ = e ∧ e.IsStop)) :
    m.Reaches sink memory (node :: rest) e := by
  -- Induction on the passes; what follows the loop is run when it is left.
  generalize hs : m.view sink = s at hloop
  induction hloop generalizing m with
  | exit hzero =>
    obtain hfault | ⟨m₁, h₁, hview, heq⟩ := exec_loop_cases rest h hop
    · exact ⟨1, Or.inr (hfault 0)⟩
    simp only [hs, if_pos hzero] at hview heq
    obtain ⟨t, ht, hthen⟩ | ⟨rfl, hstop⟩ := hthen
    · cases ht
      obtain ⟨fuel, hfuel⟩ := hrest h₁ (hview ▸ hthen)
      exact ⟨fuel + 1, by rw [heq]; exact hfuel⟩
    · exact hstop.elim
  | pass hcell hpass _ ih =>
    obtain hfault | ⟨m₁, h₁, hview, heq⟩ := exec_loop_cases rest h hop
    · exact ⟨1, Or.inr (hfault 0)⟩
    simp only [hs, if_neg hcell] at hview heq
    obtain ⟨fuel₁, hfuel₁ | hfault⟩ := hbody h₁ (hview ▸ hpass)
    · have hover := @ne_unfinished _ _ memory _ (Or.inl hfuel₁)
      cases hrun : exec .endless fuel₁ node.body m₁ with
      | finished m₂ =>
        rw [hrun] at hfuel₁
        have hview₂ := Ending.done.inj (Option.some.inj hfuel₁)
        obtain ⟨fuel₂, hfuel₂⟩ := ih (h₁.exec hrun) hthen hview₂
        -- The pass and what follows it get the same fuel, which is enough for either.
        refine ⟨max fuel₁ fuel₂ + 1, ?_⟩
        rw [heq, exec_of_le (Nat.le_max_left fuel₁ fuel₂) hover, hrun, Outcome.andThen,
          exec_of_le (Nat.le_max_right fuel₁ fuel₂) (ne_unfinished hfuel₂)]
        exact hfuel₂
      | stopped cause m₂ =>
        rw [hrun] at hfuel₁
        exact (isStop_of_endingOf hfuel₁).elim
      | unfinished m₂ => exact absurd hrun (hover m₂)
    · obtain ⟨hmemory, fault, m₂, hrun⟩ := hfault
      exact ⟨fuel₁ + 1, Or.inr ⟨hmemory, fault, m₂, by rw [heq, hrun]; rfl⟩⟩
  | stop hcell hpass hstop =>
    obtain hfault | ⟨m₁, h₁, hview, heq⟩ := exec_loop_cases rest h hop
    · exact ⟨1, Or.inr (hfault 0)⟩
    simp only [hs, if_neg hcell] at hview heq
    obtain ⟨t, ht, -⟩ | ⟨rfl, -⟩ := hthen
    · subst ht
      exact hstop.elim
    · obtain ⟨fuel, hfuel⟩ := hbody h₁ (hview ▸ hpass)
      refine ⟨fuel + 1, ?_⟩
      have hover := ne_unfinished hfuel
      rw [heq]
      cases hrun : exec .endless fuel node.body m₁ with
      | finished m₂ =>
        rw [hrun] at hfuel
        obtain hfuel | ⟨-, fault, m₃, hfuel⟩ := hfuel
        · cases hfuel
          exact hstop.elim
        · cases hfuel
      | stopped cause m₂ =>
        rw [hrun] at hfuel
        exact hfuel
      | unfinished m₂ => exact absurd hrun (hover m₂)

/-- Any other node and what follows it reach their endings if what follows it does. -/
private theorem reaches_step (hop : node.op ≠ .loop)
    (hrest : ∀ {m : Machine} {e}, m.Unhindered sink memory → Program.effect rest (m.view sink) e →
      m.Reaches sink memory rest e)
    (h : m.Unhindered sink memory) (heffect : Program.effect (node :: rest) (m.view sink) e) :
    m.Reaches sink memory (node :: rest) e := by
  rw [Program.effect_cons, Node.effect_of_ne_loop hop] at heffect
  -- Memory may run out in the middle of the operation, and then the run ends there.
  obtain ⟨hmemory, fault, m₁, hperform⟩ | ⟨hact, hleaves⟩ := perform_ending h node
  · exact ⟨1, Or.inr ⟨hmemory, fault, m₁, by rw [exec_of_ne_loop rest hop, hperform]⟩⟩
  cases hperform : m.perform node with
  | next _ m₁ =>
    rw [hperform] at hact hleaves
    rcases heffect with ⟨t, hs, hthen⟩ | ⟨hs, hstop⟩
    · cases hact.trans hs
      obtain ⟨fuel, hfuel⟩ := hrest hleaves hthen
      exact ⟨fuel + 1, by rw [exec_of_ne_loop rest hop, hperform]; exact hfuel⟩
    · cases hact.trans hs
      exact hstop.elim
  | stop cause m₁ =>
    rw [hperform] at hact
    rcases heffect with ⟨t, hs, -⟩ | ⟨hs, -⟩
    · exact (isStop_of_endingOf (hact.trans hs)).elim
    · exact ⟨1, Or.inl (by rw [exec_of_ne_loop rest hop, hperform]; exact hact.trans hs)⟩

end Reach

/-- Every ending of a program is reached with fuel enough. -/
theorem exec_of_effect {sink : Nat} {memory : Memory} : (nodes : List Node) → {m : Machine} →
    {e : Ending} → m.Unhindered sink memory → Program.effect nodes (m.view sink) e →
      m.Reaches sink memory nodes e
  | [], m, e, _, heffect => ⟨1, Or.inl (by cases heffect; rfl)⟩
  | ⟨op, amount, body⟩ :: rest, m, e, h, heffect => by
    by_cases hop : op = .loop
    · rw [Program.effect_cons, Node.effect_of_loop hop] at heffect
      rcases heffect with ⟨t, hloop, hthen⟩ | ⟨hloop, hstop⟩
      · exact reaches_loop hop (exec_of_effect body) (exec_of_effect rest) h hloop
          (Or.inl ⟨t, rfl, hthen⟩)
      · exact reaches_loop hop (exec_of_effect body) (exec_of_effect rest) h hloop
          (Or.inr ⟨rfl, hstop⟩)
    · exact reaches_step hop (exec_of_effect rest) h heffect

section Ready

variable {m : Machine} {sink : Nat} {memory : Memory} {input : Bytes} {program : List Node}
  {e : Ending}

/-- Unless memory is exhausted, the endings of a program on a blank tape are those of its runs. -/
theorem Ready.ending_iff (h : m.Ready sink memory input)
    (hmemory : ∀ fuel, ¬ (exec .endless fuel program m).Exhausts memory) :
    (∃ fuel, (exec .endless fuel program m).ending sink = some e) ↔
      Program.effect program (.fresh input) e := by
  rw [← h.view_eq]
  constructor
  · rintro ⟨fuel, hfuel⟩
    exact effect_of_exec h.unhindered hfuel
  · intro heffect
    obtain ⟨fuel, hfuel⟩ := exec_of_effect program h.unhindered heffect
    exact ⟨fuel, hfuel.resolve_right (hmemory fuel)⟩

/-- A program that has an end on a blank tape gets there, if memory is endless. -/
theorem Ready.finishes {s : Snapshot} (h : m.Ready sink .endless input)
    (heffect : Program.effect program (.fresh input) (.done s)) :
    ∃ fuel m', exec .endless fuel program m = .finished m' ∧ m'.view sink = s := by
  obtain ⟨fuel, hfuel⟩ := (h.ending_iff fun _ ⟨hmemory, _⟩ => nomatch hmemory).mpr heffect
  exact ⟨fuel, Outcome.ending_eq_done_iff.mp hfuel⟩

end Ready

end Machine

end TapeMachine
