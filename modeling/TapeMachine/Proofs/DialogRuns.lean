import TapeMachine.Proofs.DialogRefinement
import TapeMachine.Proofs.RunEffect
import TapeMachine.Proofs.ScriptResolution

/-!
# Which nodes a dialog gets to

The program of a dialog ends with the loop of its dispatch, and whenever the loop is about to test
its cell, the node selected is one that the dialog leads to. This holds of every run, whatever the
streams, the limit of the tape and the patience: a pass that is completed is a turn of the talk, and
one that is not leads to no other pass. For the tree of a script, all such nodes are zero or have an
entry in the table.

The module introduces:

* `Generator.selected`: the node selected on a machine;
* `Generator.loopNodes_pass`: the loop of a dispatch is a loop of the program;
* `Generator.selected_of_visit`: what holds of the start and is kept by the targets holds of the
  node selected whenever the dispatch tests it;
* `Dialog.exists_resolve_iff_isWellFormed`: which scripts have a tree, and how it is run.
-/

namespace TapeMachine

namespace Dialog

/-- An action leads to one of its targets. -/
theorem Action.mem_targets_of_perform {action : Action} {talk next : Talk}
    (h : action.perform talk = .next next) : next.node ∈ action.targets := by
  cases action with
  | say text target =>
    cases h
    exact List.mem_singleton_self target
  | ask prompt no yes =>
    rw [Action.perform] at h
    split at h
    · cases h
    · next agreed rest hanswer =>
      cases h
      cases agreed <;> simp [Action.targets]

end Dialog

namespace Generator

open Dialog

/-- The node selected on a machine. -/
def selected (m : Machine) : Nat :=
  (m.tape.peek Register.node.toNat).toNat

theorem talk_seen (m : Machine) (input output : Bytes) :
    Talk.ofSnapshot (m.seen input output) = ⟨selected m, input, output⟩ := rfl

theorem seen_start (m : Machine) (input : Bytes) :
    (Runner.start m).seen input [] = .fresh input := by
  refine Snapshot.ext rfl ?_ rfl rfl
  funext pos
  simp [Machine.seen, Runner.start, Snapshot.fresh]

variable {entries : List (Int × Action)} {start : Nat}

/-- The loop of a dispatch is a loop of the program: a pass clears the register of the countdown, so
its body neither comes to nothing nor clears a cell. -/
theorem loopNodes_pass {inner : Fragment} {f : Snapshot → Ending}
    (hinner : ∀ s : Snapshot, s.Tidy Register.node → inner.effect s (f s))
    (hpass : ∀ s, f s ≠ .offTape ∧ ∀ t, f s = .done t → t.cells Register.nodeWork = 0) :
    Source.loopNodes (Fragment.sources inner) =
      [⟨.loop, 0, Source.condense (Fragment.sources inner)⟩] := by
  -- A snapshot with a countdown in progress tells a pass from no code and from a decrement.
  obtain ⟨s, hs, -, hwork⟩ := exists_counting
  have heffect := hinner s hs
  obtain ⟨-, hempty⟩ | ⟨hminus, -⟩ | hloop := Source.loopNodes_cases (Fragment.sources inner)
  · have hcondensed := Source.effects_refines_condense _ (hs.cursor ▸ hs.onTape) (hpass s).1 heffect
    rw [Source.condense, hempty, Program.effect_nil, Effect.skip_iff] at hcondensed
    exact absurd ((hpass s).2 s hcondensed) hwork
  · rw [Fragment.effect, hminus, Source.effects_cons, Source.effects_nil, Effect.seq_skip,
      Source.effect_symbol, Effect.of_iff] at heffect
    have hkept : (s.put (s.here + UInt8.ofInt (-1))).cells Register.nodeWork =
        s.cells Register.nodeWork := by
      rw [Snapshot.put, hs.cursor]
      exact Snapshot.cells_set_of_ne (by decide)
    exact absurd (hkept.symm.trans ((hpass s).2 _ heffect.symm)) hwork
  · exact hloop

/-- Whether nodes are a pass of a dispatch: they end as a turn of the talk does, and leave the
cursor and the pads as they were. -/
def IsPass (entries : List (Int × Action)) (pass : List Node) : Prop :=
  ∀ s : Snapshot, s.Tidy Register.node → ∃ e, Program.effect pass s e ∧
    ((Talk.ofSnapshot s).proceed (actionOf entries (Talk.ofSnapshot s).node)).Shown e ∧
    ∀ t, e = .done t → t.Tidy Register.node

/-- The program of a dispatch selects a node and ends with a loop of passes. -/
theorem exists_dispatch_program (hentries : Dispatchable entries) (hstart : start ≤ 255)
    (wraps : Bool) :
    ∃ (code : Fragment) (σ : Session) (opening pass : List Node),
      Emits { wraps } (dispatchFrom start (tableOf entries)) code σ ∧
        Source.condense (Fragment.sources code) = opening ++ [⟨.loop, 0, pass⟩] ∧
        (∀ input, Program.effect opening (.fresh input) (.done (opened start input))) ∧
        IsPass entries pass := by
  obtain ⟨f, hf, hpass⟩ := exists_realizes_pass hentries
  obtain ⟨code, opening, inner, σ, hemits, hsources, hopening, hinner⟩ :=
    exists_emits_dispatchFrom hentries hstart wraps hf
  refine ⟨code, σ, Source.condense (Fragment.sources opening),
    Source.condense (Fragment.sources inner), hemits, ?_, fun input => ?_, fun s hs => ?_⟩
  · -- The register of the node is the first cell, so no move back follows the loop.
    have hclosing :
        Source.condense (Fragment.sources (Fragment.moving (0 - Register.node))) = [] := by
      rw [Source.condense]
      exact Source.condenseFrom_nil .none
    rw [hsources, Source.condense_append_loop, hclosing,
      loopNodes_pass (fun s hs => (hinner s hs).1) fun s => ⟨(hpass s).1.ne_offTape, (hpass s).2⟩]
    rfl
  · exact Source.effects_refines_condense _ onTape_zero (by simp) (hopening input)
  · have hcondensed := Source.effects_refines_condense _ (hs.cursor ▸ hs.onTape)
      (hpass s).1.ne_offTape (hinner s hs).1
    exact ⟨f s, hcondensed, (hpass s).1, (hinner s hs).2⟩

/-! ### Visits of the dispatch -/

/-- Whether a machine is about to select an action: the cursor is on the register of the node, and
the pads are zero. -/
def AtDispatch (m : Machine) : Prop :=
  (m.seen [] []).Tidy Register.node

theorem AtDispatch.seen {m : Machine} (h : AtDispatch m) (input output : Bytes) :
    (m.seen input output).Tidy Register.node :=
  ⟨h.cursor, h.onTape, h.pad⟩

theorem AtDispatch.of_seen {m : Machine} {input output : Bytes}
    (h : (m.seen input output).Tidy Register.node) : AtDispatch m :=
  ⟨h.cursor, h.onTape, h.pad⟩

/-- A pass that is completed leaves the node selected or selects a target of its action. -/
theorem IsPass.selected_cases {pass : List Node} (hpass : IsPass entries pass) {m m' : Machine}
    (hm : AtDispatch m) (h : Machine.Follows (Program.effect pass) m m') :
    AtDispatch m' ∧ (selected m' = selected m ∨
      ∃ action, actionOf entries (selected m) = some action ∧ selected m' ∈ action.targets) := by
  -- What the pass did on the machine is the one thing that it can do to the snapshot.
  obtain ⟨read, written, hfollows⟩ := h
  have hrun := hfollows [] []
  obtain ⟨e, heffect, hshown, htidy⟩ := hpass _ (hm.seen (read ++ []) [])
  obtain rfl := Program.effect_isFunctional pass heffect hrun
  refine ⟨.of_seen (htidy _ rfl), ?_⟩
  have hturn := hshown.eq_next
  rw [talk_seen, talk_seen] at hturn
  cases haction : actionOf entries (selected m) with
  | none =>
    rw [haction] at hturn
    exact Or.inl (congrArg Talk.node (Turn.next.inj hturn)).symm
  | some action =>
    rw [haction] at hturn
    exact Or.inr ⟨action, rfl, Action.mem_targets_of_perform hturn⟩

/-- When the first pass begins, the node to start with is selected. -/
theorem selected_of_opening {opening : List Node} (hstart : start ≤ 255)
    (hopening : ∀ input, Program.effect opening (.fresh input) (.done (opened start input)))
    {m m' : Machine} (h : Machine.Follows (Program.effect opening) (Runner.start m) m') :
    AtDispatch m' ∧ selected m' = start := by
  obtain ⟨read, written, hfollows⟩ := h
  have hrun := hfollows [] []
  rw [seen_start] at hrun
  have hseen := Ending.done.inj (Program.effect_isFunctional opening hrun (hopening _))
  have htalk := talk_opened hstart (read ++ [])
  rw [← hseen, talk_seen] at htalk
  exact ⟨.of_seen (hseen ▸ opened_tidy start (read ++ [])), congrArg Talk.node htalk⟩

/-- Of every run, whatever the machine: what holds of the node to start with and is kept by the
targets of the actions holds of the node selected, whenever the dispatch is about to test it. -/
theorem selected_of_visit {opening pass : List Node} (hstart : start ≤ 255)
    (hopening : ∀ input, Program.effect opening (.fresh input) (.done (opened start input)))
    (hpass : IsPass entries pass) {p : Nat → Prop} (hp : p start)
    (hclosed : ∀ node action, p node → actionOf entries node = some action →
      ∀ next ∈ action.targets, p next)
    {r : Runner} {patience : Patience} {t : Nat} {m : Machine}
    (hprogram : r.program = some (opening ++ [⟨.loop, 0, pass⟩]))
    (h : r.phase patience t = .running [⟨.loop, 0, pass⟩] m) :
    AtDispatch m ∧ p (selected m) := by
  rw [Runner.phase, Runner.loaded, hprogram, Option.getD_some] at h
  -- The run has come to the end of what stands before the loop, and from there to the loop again.
  obtain ⟨s, -, m₁, hopened, hvisit⟩ := Phase.exists_completed h
  obtain ⟨hfirst, hselected⟩ :=
    selected_of_opening hstart hopening (Phase.follows_of_after hopened)
  refine Phase.visits_invariant (fun m => AtDispatch m ∧ p (selected m)) (by rfl) (by simp) ?_
    ⟨hfirst, hselected ▸ hp⟩ hvisit
  rintro m m' ⟨hm, hnode⟩ - hfollows
  obtain ⟨hm', hsame | ⟨action, haction, htarget⟩⟩ := hpass.selected_cases hm hfollows
  · exact ⟨hm', hsame ▸ hnode⟩
  · exact ⟨hm', hclosed _ _ hnode haction _ htarget⟩

/-- A run that nothing hinders gets to the dispatch, with the node to start with. -/
theorem exists_visit {opening pass : List Node} (hstart : start ≤ 255)
    (hopening : ∀ input, Program.effect opening (.fresh input) (.done (opened start input)))
    {r : Runner} {sink : Nat} {input : Bytes}
    (hprogram : r.program = some (opening ++ [⟨.loop, 0, pass⟩]))
    (hready : (Runner.start r.machine).Ready sink .endless input) :
    ∃ t m, r.phase .endless t = .running [⟨.loop, 0, pass⟩] m ∧ selected m = start := by
  obtain ⟨fuel, m, hexec, -⟩ := hready.finishes (hopening input)
  -- The opening is run to its end alone, and to the loop with the loop behind it.
  have hmet : ∀ rest, ∃ t,
      (Phase.running (opening ++ rest) (Runner.start r.machine)).after .endless t =
        .running rest m := by
    intro rest
    have hmet := Machine.exec_isMet .endless fuel opening rest (Runner.start r.machine)
    rw [hexec] at hmet
    exact hmet
  obtain ⟨s, hs⟩ := hmet []
  obtain ⟨t, ht⟩ := hmet [⟨.loop, 0, pass⟩]
  rw [List.append_nil] at hs
  refine ⟨t, m, ?_, (selected_of_opening hstart hopening (Phase.follows_of_after hs)).2⟩
  rw [Runner.phase, Runner.loaded, hprogram, Option.getD_some]
  exact ht

end Generator

/-! ### Scripts -/

namespace Dialog

open Generator

/-- `Script.resolve` succeeds for exactly the scripts that are `IsWellFormed`. The `tree` numbers
the nodes of its `script`, as `IsNumberedBy` says, and its table leads nowhere else. So code for it
can be emitted, and in every run of the program the node `selected` is zero or has an entry whenever
the dispatch, with which the program ends, is about to test it; a run that nothing hinders gets
there with the node to start with. -/
theorem exists_resolve_iff_isWellFormed (script : Script) :
    ((∃ tree, script.resolve = .ok tree) ↔ script.IsWellFormed) ∧
      ∀ tree, script.resolve = .ok tree → script.IsNumberedBy tree ∧
        ∀ wraps, ∃ code σ opening pass,
          Session.perform { wraps } tree.emit = (.ok code, σ) ∧
          Program.parse (Fragment.text code) = .ok (opening ++ [⟨.loop, 0, pass⟩]) ∧
          (∀ (r : Runner) patience t m, r.program = some (opening ++ [⟨.loop, 0, pass⟩]) →
            r.phase patience t = .running [⟨.loop, 0, pass⟩] m →
              m.cursor = Register.node.toNat ∧
                (selected m = 0 ∨ (selected m : Int) ∈ tree.table.map (·.1))) ∧
          ∀ (r : Runner) sink input, r.program = some (opening ++ [⟨.loop, 0, pass⟩]) →
            (Runner.start r.machine).Ready sink .endless input →
              ∃ t m, r.phase .endless t = .running [⟨.loop, 0, pass⟩] m ∧
                selected m = tree.start := by
  refine ⟨⟨?_, fun hscript => ⟨_, Script.resolve_eq_ok_iff.mpr ⟨hscript, rfl⟩⟩⟩, ?_⟩
  · rintro ⟨tree, htree⟩
    exact (Script.resolve_eq_ok_iff.mp htree).1
  intro tree htree
  obtain ⟨hscript, rfl⟩ := Script.resolve_eq_ok_iff.mp htree
  refine ⟨Script.isNumberedBy_tree hscript, fun wraps => ?_⟩
  have hstart := Script.start_tree_mem hscript
  have hlast := hscript.count.2
  obtain ⟨code, σ, opening, pass, hemits, hcode, hopening, hpass⟩ :=
    exists_dispatch_program (Script.dispatchable_entries hscript) (hstart.2.trans hlast) wraps
  refine ⟨code, σ, opening, pass, ?_, ?_, fun r patience t m hprogram hphase => ?_,
    fun r sink input hprogram hready => ?_⟩
  · rw [Tree.emit, Tree.table_eq_tableOf]
    exact hemits
  · rw [Fragment.parse_text, hcode]
  · -- No action leads beyond the last node, nor does the start.
    have hclosed : ∀ node action, node ≤ script.nodes.length →
        actionOf script.tree.entries node = some action →
          ∀ next ∈ action.targets, next ≤ script.nodes.length :=
      fun _ _ _ haction _ hnext => Script.targets_le_of_actionOf haction hnext
    obtain ⟨hm, hnode⟩ := selected_of_visit (hstart.2.trans hlast) hopening hpass hstart.2 hclosed
      hprogram hphase
    refine ⟨Int.ofNat_inj.mp hm.cursor, ?_⟩
    rw [Script.mem_table_tree_iff]
    omega
  · exact exists_visit (hstart.2.trans hlast) hopening hprogram hready

/-- A remark that leads to a question, which a yes leads back from. The dialog starts with the
question. -/
theorem exists_resolve_remark :
    let script : Script := {
      start := utf8 "ask"
      nodes := [{ name := utf8 "tell", say := some (utf8 "Well."), next := utf8 "ask" },
        { name := utf8 "ask", ask := some (utf8 "Again?"), yes := utf8 "tell" }] }
    let tree : Tree := {
      names := [utf8 "tell", utf8 "ask"]
      actions := [.say (utf8 "Well.") 2, .ask (utf8 "Again?") 0 1]
      start := 2 }
    script.resolve = .ok tree ∧ script.IsWellFormed ∧ script.IsNumberedBy tree ∧
      ∃ code σ opening pass r t m,
        Session.perform { wraps := true } tree.emit = (.ok code, σ) ∧
        Program.parse (Fragment.text code) = .ok (opening ++ [⟨.loop, 0, pass⟩]) ∧
        Runner.program r = some (opening ++ [⟨.loop, 0, pass⟩]) ∧
        r.phase .endless t = .running [⟨.loop, 0, pass⟩] m ∧ selected m = 2 := by
  intro script tree
  have htree : script.resolve = .ok tree := by decide
  obtain ⟨hiff, hresolved⟩ := exists_resolve_iff_isWellFormed script
  obtain ⟨hnumbered, hrun⟩ := hresolved tree htree
  obtain ⟨code, σ, opening, pass, hemit, hparse, -, hfirst⟩ := hrun true
  -- Any runner with this program will do.
  let r : Runner := {
    machine := Machine.forInput .endless (utf8 "n")
    program := some (opening ++ [⟨.loop, 0, pass⟩])
    halted := false
    closers := [] }
  obtain ⟨t, m, hphase, hselected⟩ :=
    hfirst r 0 (utf8 "n") rfl (Machine.ready_forInput .endless (utf8 "n"))
  exact ⟨htree, hiff.mp ⟨tree, htree⟩, hnumbered, code, σ, opening, pass, r, t, m, hemit, hparse,
    rfl, hphase, hselected⟩

end Dialog

end TapeMachine
