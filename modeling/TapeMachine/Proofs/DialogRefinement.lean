import TapeMachine.Proofs.DispatchEffect

/-!
# Dispatching refines the dialog machine

A pass of the loop of a dispatch is a turn of a talk, so the loop ends as the talk does. The program
of the generated text has the same loop: no pass fails to end, and some pass changes the registers,
so the loop is not one of those that come to nothing.

The module introduces:

* `Dialog.exists_lastTurn_of_loop`, `Dialog.exists_loop_of_lastTurn`: passes end as talks do;
* `Generator.exists_emits_dispatchFrom`: the program that runs a dialog, and its endings;
* `Generator.exec_dispatchFrom_iff`: running the program of a dialog has the endings of the talk,
  and no others.
-/

namespace TapeMachine

/-! ### Passes and turns -/

namespace Dialog

/-- Whether an ending shows the last turn of a talk. -/
def Concluded (before : Talk) (last : Turn) : Ending → Prop
  | .done t => last = .closed ∧ .ofSnapshot t = before
  | .outOfInput t => last = .unanswered t.output
  | .offTape => False

/-- A pass that is done shows that the talk goes on from where it got to. -/
theorem Turn.Shown.eq_next {turn : Turn} {t : Snapshot} (h : turn.Shown (.done t)) :
    turn = .next (.ofSnapshot t) := by
  cases turn with
  | next talk =>
    cases h
    rfl
  | unanswered output => exact h.elim
  | closed => exact h.elim

/-- A pass that stops shows that the talk lacks an answer. -/
theorem Turn.Shown.eq_unanswered {turn : Turn} {e : Ending} (h : turn.Shown e) (hstop : e.IsStop) :
    ∃ t, e = .outOfInput t ∧ turn = .unanswered t.output := by
  cases turn with
  | next talk =>
    cases e with
    | done t => exact hstop.elim
    | outOfInput t => exact h.elim
    | offTape => exact h.elim
  | unanswered output =>
    cases e with
    | done t => exact h.elim
    | outOfInput t =>
      cases h
      exact ⟨t, rfl, rfl⟩
    | offTape => exact h.elim
  | closed => exact h.elim

/-- A pass that shows a `turn` does not leave the tape. -/
theorem Turn.Shown.ne_offTape {turn : Turn} {e : Ending} (h : turn.Shown e) : e ≠ .offTape := by
  rintro rfl
  obtain ⟨t, ht, -⟩ := h.eq_unanswered trivial
  cases ht

section Passes

variable {actions : Nat → Option Action} {f : Snapshot → Ending}
  (hturn : ∀ s, ((Talk.ofSnapshot s).proceed (actions (Talk.ofSnapshot s).node)).Shown (f s))
  (hback : ∀ s t : Snapshot, s.Tidy Register.node → f s = .done t → t.Tidy Register.node)
  {s : Snapshot}

/-- Node zero closes the talk. -/
theorem turn_of_zero (hs : s.Tidy Register.node) (hzero : s.here = 0) :
    (Talk.ofSnapshot s).turn actions = .closed := by
  refine if_pos ?_
  rw [Snapshot.here, hs.cursor] at hzero
  rw [Talk.ofSnapshot, hzero]
  rfl

/-- At another node, the talk proceeds with the action of the node. -/
theorem turn_of_ne_zero (hs : s.Tidy Register.node) (hcell : s.here ≠ 0) :
    (Talk.ofSnapshot s).turn actions =
      (Talk.ofSnapshot s).proceed (actions (Talk.ofSnapshot s).node) := by
  refine if_neg fun hnode => hcell ?_
  rw [Snapshot.here, hs.cursor]
  exact UInt8.toNat_inj.mp hnode

include hback

/-- The loop reaches its end with node zero. -/
theorem node_eq_zero_of_loop {t : Snapshot} (hs : s.Tidy Register.node)
    (h : Effect.loop (Effect.of f) s (.done t)) : t.cells Register.node = 0 := by
  obtain ⟨ht, hzero⟩ := Effect.loop_invariant (Snapshot.Tidy Register.node)
    (fun s t hs _ => hback s t hs) h hs
  rwa [Snapshot.here, ht.cursor] at hzero

include hturn

/-- A loop whose passes are turns ends as the talk does. -/
theorem exists_lastTurn_of_loop {e : Ending} (hs : s.Tidy Register.node)
    (h : Effect.loop (Effect.of f) s e) : ∃ turns before last,
      Talk.lastTurn actions turns (.ofSnapshot s) = some (before, last) ∧
        Concluded before last e := by
  induction h with
  | @exit s hzero =>
    refine ⟨1, .ofSnapshot s, .closed, ?_, rfl, rfl⟩
    rw [Talk.lastTurn, turn_of_zero hs hzero]
  -- A pass that is done is a turn behind which the talk goes on.
  | @pass s t e hcell hpass _ ih =>
    obtain ⟨turns, before, last, hlast, hconcluded⟩ := ih (hback s t hs hpass)
    refine ⟨turns + 1, before, last, ?_, hconcluded⟩
    have hshown := hturn s
    rw [Effect.of_iff.mp hpass] at hshown
    rw [Talk.lastTurn, turn_of_ne_zero hs hcell, hshown.eq_next]
    exact hlast
  | @stop s e hcell hpass hstop =>
    have hshown := hturn s
    rw [Effect.of_iff.mp hpass] at hshown
    obtain ⟨t, rfl, hunanswered⟩ := hshown.eq_unanswered hstop
    refine ⟨1, .ofSnapshot s, .unanswered t.output, ?_, rfl⟩
    rw [Talk.lastTurn, turn_of_ne_zero hs hcell, hunanswered]

/-- If a talk ends, so does a loop whose passes are its turns. -/
theorem exists_loop_of_lastTurn {turns : Nat} {before : Talk} {last : Turn}
    (hs : s.Tidy Register.node)
    (h : Talk.lastTurn actions turns (.ofSnapshot s) = some (before, last)) :
    ∃ e, Effect.loop (Effect.of f) s e ∧ Concluded before last e := by
  -- Node zero closes the talk and leaves the loop; any other node has a turn and a pass.
  induction turns generalizing s with
  | zero => cases h
  | succ turns ih =>
    rw [Talk.lastTurn] at h
    by_cases hzero : s.here = 0
    · rw [turn_of_zero hs hzero] at h
      cases h
      exact ⟨.done s, .exit hzero, rfl, rfl⟩
    · have hshown := hturn s
      rw [turn_of_ne_zero hs hzero] at h
      cases hpass : f s with
      | done t =>
        rw [hpass] at hshown
        rw [hshown.eq_next] at h
        obtain ⟨e, hloop, hconcluded⟩ := ih (hback s t hs hpass) h
        exact ⟨e, .pass hzero hpass hloop, hconcluded⟩
      | outOfInput t =>
        rw [hpass] at hshown
        obtain ⟨_, ht, hunanswered⟩ := hshown.eq_unanswered trivial
        cases ht
        rw [hunanswered] at h
        cases h
        exact ⟨.outOfInput t, .stop hzero hpass trivial, rfl⟩
      | offTape => exact absurd hpass hshown.ne_offTape

/-- The loop reaches its end exactly if the talk closes. -/
theorem exists_loop_done_iff {rest output : Bytes} (hs : s.Tidy Register.node) :
    (∃ t, Effect.loop (Effect.of f) s (.done t) ∧ t.input = rest ∧ t.output = output) ↔
      Talk.Closes actions (.ofSnapshot s) rest output := by
  constructor
  · rintro ⟨t, hloop, rfl, rfl⟩
    obtain ⟨turns, _, _, hlast, rfl, rfl⟩ := exists_lastTurn_of_loop hturn hback hs hloop
    -- The loop is left at node zero, so this is the node of the talk, too.
    have hnode : (Talk.ofSnapshot t) = ⟨0, t.input, t.output⟩ := by
      rw [Talk.ofSnapshot, node_eq_zero_of_loop hback hs hloop]
      rfl
    exact ⟨turns, hnode ▸ hlast⟩
  · rintro ⟨turns, hlast⟩
    obtain ⟨e, hloop, hconcluded⟩ := exists_loop_of_lastTurn hturn hback hs hlast
    cases e with
    | done t =>
      obtain ⟨-, htalk⟩ := hconcluded
      exact ⟨t, hloop, congrArg Talk.input htalk, congrArg Talk.output htalk⟩
    | outOfInput t => cases hconcluded
    | offTape => exact hconcluded.elim

/-- The loop runs out of input exactly if the talk lacks an answer. -/
theorem exists_loop_outOfInput_iff {output : Bytes} (hs : s.Tidy Register.node) :
    (∃ t, Effect.loop (Effect.of f) s (.outOfInput t) ∧ t.output = output) ↔
      Talk.Starves actions (.ofSnapshot s) output := by
  constructor
  · rintro ⟨t, hloop, rfl⟩
    obtain ⟨turns, before, _, hlast, rfl⟩ := exists_lastTurn_of_loop hturn hback hs hloop
    exact ⟨turns, before, hlast⟩
  · rintro ⟨turns, before, hlast⟩
    obtain ⟨e, hloop, hconcluded⟩ := exists_loop_of_lastTurn hturn hback hs hlast
    cases e with
    | done t => cases hconcluded.1
    | outOfInput t => exact ⟨t, hloop, (Turn.unanswered.inj hconcluded).symm⟩
    | offTape => exact hconcluded.elim

end Passes

end Dialog

/-! ### The program of a dialog -/

namespace Generator

open Dialog

variable {entries : List (Int × Action)} {start : Nat}

/-- Entries that can be dispatched have the numbers that a dialog allows. -/
private theorem checkIds_of_dispatchable {actions : List (Int × Action)}
    (hactions : Dispatchable actions) : checkIds (actions.map (·.1)) = pure () := by
  induction actions with
  | nil => rfl
  | cons entry rest ih =>
    obtain ⟨⟨hlow, hhigh⟩, -⟩ := hactions entry List.mem_cons_self
    have hnode : checkNode entry.1 = pure () := if_neg (by omega)
    rw [List.map_cons, checkIds, if_neg (by omega), hnode,
      ih fun e he => hactions e (List.mem_cons_of_mem _ he)]
    rfl

/-- A node is selected, and the dispatch is about to begin. -/
def opened (start : Nat) (input : Bytes) : Snapshot :=
  ((Snapshot.fresh input).set Register.node (UInt8.ofInt start)).goTo Register.node

/-- The code of a dispatch: a loop between code that selects the first node and a move back. -/
theorem exists_emits_dispatchFrom (hentries : Dispatchable entries) (hstart : start ≤ 255)
    (wraps : Bool) {f : Snapshot → Ending}
    (hpass : Realizes .inKnowledge Register.node (passOf entries) Register.node f) :
    ∃ (code opening inner : Fragment) (σ : Session),
      Emits { wraps } (dispatchFrom start (tableOf entries)) code σ ∧
        Fragment.sources code = Fragment.sources opening ++ .loop (Fragment.sources inner) ::
          Fragment.sources (Fragment.moving (0 - Register.node)) ∧
        (∀ input, opening.effect (.fresh input) (.done (opened start input))) ∧
        ∀ s : Snapshot, s.Tidy Register.node →
          inner.effect s (f s) ∧ ∀ t, f s = .done t → t.Tidy Register.node := by
  have hnode : Register.Usable Register.node := by decide
  have hset := Realizes.saveCursor onTape_zero
    (Realizes.setAt 0 (hnode.isOpen _) (hnode.adds start))
  obtain ⟨first, σ₁, hfirst, -, hcursor₁, hclean₁, heffect₁⟩ := @hset { wraps } rfl rfl
  obtain ⟨inner, σ₂, hloop, -, hcursor₂, hclean₂, hinner⟩ :=
    Realizes.exists_loop hnode.onTape hpass hclean₁
  -- The checks of the table do not fail, so the dispatch emits its loop.
  have hids : checkIds ((tableOf entries).map (·.1)) = pure () := by
    rw [tableOf_eq, List.map_map]
    exact checkIds_of_dispatchable fun e he => hentries e (mem_of_mem_arranged he)
  obtain ⟨rest, hrest, hsources⟩ : ∃ rest : Fragment,
      Emits σ₁ (dispatch (tableOf entries)) rest { σ₂ with cursor := σ₁.cursor } ∧
        Fragment.sources rest = Fragment.sources (Fragment.moving Register.node) ++
          .loop (Fragment.sources inner) ::
            Fragment.sources (Fragment.moving (0 - Register.node)) := by
    rw [dispatch, hids, pure_bind]
    refine ⟨_, emits_noted_iff.mpr ⟨_, emits_saveCursor_iff.mpr
      ⟨_, σ₂, hloop, hcursor₁ ▸ onTape_zero, rfl, rfl⟩, rfl⟩, ?_⟩
    simp [hcursor₁, hcursor₂, Code.sources]
  refine ⟨first ++ (rest ++ []), first ++ Fragment.moving Register.node, inner,
    { σ₂ with cursor := σ₁.cursor }, ?_, ?_, fun input => ?_, hinner⟩
  · rw [dispatchFrom, checkNode_of_le hstart, pure_bind, emits_sequence_cons_iff]
    exact ⟨first, _, σ₁, hfirst, emits_sequence_cons_iff.mpr
      ⟨_, _, _, hrest, emits_sequence_nil_iff.mpr ⟨rfl, rfl⟩, rfl⟩, rfl⟩
  · simp only [Fragment.sources_append, List.append_nil, hsources, List.append_assoc]
  · rw [Fragment.effect_append]
    exact Effect.seq_of_done (heffect₁ ⟨_, agrees_fresh wraps input⟩ trivial)
      (Fragment.effect_moving onTape_zero hnode.onTape)

/-- Setting a cell that is no pad leaves the pads zero. -/
private theorem pads_set {s : Snapshot} {cell : Int} (hcell : Register.isPad cell = false)
    (v : UInt8) (h : ∀ pad, Register.isPad pad = true → s.cells pad = 0) (pad : Int)
    (hpad : Register.isPad pad = true) : (s.set cell v).cells pad = 0 := by
  have hne : pad ≠ cell := by
    rintro rfl
    exact absurd (hpad.symm.trans hcell) (by decide)
  rw [Snapshot.cells_set_of_ne hne]
  exact h pad hpad

/-- A countdown may be under way when a pass begins. -/
theorem exists_counting : ∃ s : Snapshot, s.Tidy Register.node ∧ s.here ≠ 0 ∧
    s.cells Register.nodeWork ≠ 0 :=
  ⟨(((Snapshot.fresh []).set Register.node 1).set Register.nodeWork 1).goTo Register.node,
    ⟨rfl, by decide,
      fun {pad} => pads_set (by decide) 1 (pads_set (by decide) 1 fun _ _ => rfl) pad⟩,
    by decide, by decide⟩

/-- The program of a dispatch has the endings of its loop, and no others. -/
theorem effect_dispatch_iff {opening inner : Fragment} {f : Snapshot → Ending} {s : Snapshot}
    {input : Bytes} {e : Ending} (hopening : opening.effect (.fresh input) (.done s))
    (hs : s.Tidy Register.node)
    (hinner : ∀ s : Snapshot, s.Tidy Register.node →
      inner.effect s (f s) ∧ ∀ t, f s = .done t → t.Tidy Register.node)
    (hpass : ∀ s, f s ≠ .offTape ∧ ∀ t, f s = .done t → t.cells Register.nodeWork = 0) :
    Program.effect (Source.condense (Fragment.sources opening ++ .loop (Fragment.sources inner) ::
        Fragment.sources (Fragment.moving (0 - Register.node)))) (.fresh input) e ↔
      ((Effect.loop (Effect.of f)).seq (Effect.of fun t => .done (t.goTo 0))) s e := by
  -- A pass clears the register of the countdown, so the loop does not come to nothing.
  have hchange : ∃ s : Snapshot, s.Tidy Register.node ∧ s.here ≠ 0 ∧ f s ≠ .done s := by
    obtain ⟨s, hs, hcell, hwork⟩ := exists_counting
    exact ⟨s, hs, hcell, fun hdone => hwork ((hpass s).2 s hdone)⟩
  have hloop : ∀ e, Program.effect (Source.loopNodes (Fragment.sources inner)) s e ↔
      Effect.loop (Effect.of f) s e := fun e =>
    Source.effect_loopNodes_iff (Snapshot.Tidy Register.node) (fun s hs => hs.cursor ▸ hs.onTape)
      (fun s hs _ => ⟨(hinner s hs).1, (hpass s).1⟩) (fun s t hs _ => (hinner s hs).2 t) hchange hs
  have hback : ∀ t : Snapshot, t.Tidy Register.node →
      (Program.effect (Source.condense (Fragment.sources (Fragment.moving (0 - Register.node))))
        t e ↔ .done (t.goTo 0) = e) := by
    intro t ht
    have hsum : t.cursor + (0 - Register.node) = 0 := by
      rw [ht.cursor]
      rfl
    have hmove := Fragment.effect_moving (ht.cursor ▸ ht.onTape) (hsum ▸ onTape_zero)
    rw [hsum] at hmove
    exact Source.effect_condense_iff (ht.cursor ▸ ht.onTape) (by simp) hmove
  rw [Source.condense_append_loop, Program.effect_append, Program.effect_append,
    (Program.effect_isFunctional _).seq_of_done_iff
      (Source.effects_refines_condense _ onTape_zero (by simp) hopening)]
  simp only [Effect.seq, hloop]
  -- The loop ends tidy, so the move back starts from the register of the node.
  refine or_congr (exists_congr fun t => and_congr_right fun ht => hback t ?_) Iff.rfl
  exact (Effect.loop_invariant (Snapshot.Tidy Register.node) (fun s t hs _ => (hinner s hs).2 t)
    ht hs).1

/-- A dialog opens at its node, with the pads zero. -/
theorem opened_tidy (start : Nat) (input : Bytes) : (opened start input).Tidy Register.node :=
  ⟨rfl, by decide, fun {pad} => pads_set (by decide) (UInt8.ofInt start) (fun _ _ => rfl) pad⟩

/-- A dialog opens with its first node, all of the input and no output. -/
theorem talk_opened (hstart : start ≤ 255) (input : Bytes) :
    Talk.ofSnapshot (opened start input) = ⟨start, input, []⟩ := by
  have hbyte : (UInt8.ofInt start).toNat = start := by
    have := toNat_ofInt start
    omega
  rw [Talk.ofSnapshot, opened, Snapshot.goTo_cells, Snapshot.cells_set_self, hbyte]
  rfl

/-- A dispatch can be generated, and the endings of its program are those of a loop of turns. -/
theorem exists_dispatch_effect (hentries : Dispatchable entries) (hstart : start ≤ 255)
    (wraps : Bool) :
    ∃ (code : Fragment) (σ : Session) (f : Snapshot → Ending),
      Emits { wraps } (dispatchFrom start (tableOf entries)) code σ ∧
        (∀ s, ((Talk.ofSnapshot s).proceed (actionOf entries (Talk.ofSnapshot s).node)).Shown
          (f s)) ∧
        (∀ s t, s.Tidy Register.node → f s = .done t → t.Tidy Register.node) ∧
        ∀ input e, Program.effect (Source.condense (Fragment.sources code)) (.fresh input) e ↔
          ((Effect.loop (Effect.of f)).seq (Effect.of fun t => .done (t.goTo 0)))
            (opened start input) e := by
  obtain ⟨f, hf, hpass⟩ := exists_realizes_pass hentries
  obtain ⟨code, opening, inner, σ, hemits, hsources, hopening, hinner⟩ :=
    exists_emits_dispatchFrom hentries hstart wraps hf
  refine ⟨code, σ, f, hemits, fun s => (hpass s).1, fun s t hs => (hinner s hs).2 t,
    fun input e => ?_⟩
  rw [hsources]
  exact effect_dispatch_iff (hopening input) (opened_tidy start input) hinner fun s =>
    ⟨(hpass s).1.ne_offTape, (hpass s).2⟩

/-- If the `entries` are `Dispatchable`, code to dispatch them from `start` can be emitted, and its
text can be parsed. Unless it `Exhausts` bounded `memory`, a machine that runs the `program` reaches
its end exactly if the talk `Closes`, with the same bytes written and left to be read, with zero in
`Register.node` and with the cursor on the first cell; and it runs out of `input` exactly if the
talk `Starves`, with the same bytes written. -/
theorem exec_dispatchFrom_iff (hentries : Dispatchable entries) (hstart : start ≤ 255)
    (wraps : Bool) :
    ∃ code σ program,
      Session.perform { wraps } (dispatchFrom start (tableOf entries)) = (.ok code, σ) ∧
      Program.parse (Fragment.text code) = .ok program ∧
      ∀ {m : Machine} {sink : Nat} {memory : Memory} {input : Bytes}, m.Ready sink memory input →
        (∃ fuel, (m.exec .endless fuel program).Exhausts memory) ∨
          ((∀ rest output, (∃ fuel m', m.exec .endless fuel program = .finished m' ∧
              (m'.view sink).input = rest ∧ (m'.view sink).output = output) ↔
                Talk.Closes (actionOf entries) ⟨start, input, []⟩ rest output) ∧
            (∀ fuel m', m.exec .endless fuel program = .finished m' →
              (m'.view sink).cells Register.node = 0 ∧ (m'.view sink).cursor = 0) ∧
            ∀ output, (∃ fuel m', m.exec .endless fuel program = .stopped (.input .endOfFile) m' ∧
              (m'.view sink).output = output) ↔
                Talk.Starves (actionOf entries) ⟨start, input, []⟩ output) := by
  obtain ⟨code, σ, f, hemits, hturn, hback, heffect⟩ := exists_dispatch_effect hentries hstart wraps
  refine ⟨code, σ, _, hemits, Fragment.parse_text code, fun {m sink memory input} hm => ?_⟩
  generalize Source.condense (Fragment.sources code) = program at heffect ⊢
  by_cases hmemory : ∃ fuel, (m.exec .endless fuel program).Exhausts memory
  · exact Or.inl hmemory
  have hs := opened_tidy start input
  -- Without a lack of memory, the machine ends exactly as the loop and the move back do.
  have hending : ∀ e, (∃ fuel, (m.exec .endless fuel program).ending sink = some e) ↔ _ := fun e =>
    (hm.ending_iff fun fuel h => hmemory ⟨fuel, h⟩).trans (heffect input e)
  have hdone : ∀ u, (∃ fuel m', m.exec .endless fuel program = .finished m' ∧ m'.view sink = u) ↔
      ∃ t, Effect.loop (Effect.of f) (opened start input) (.done t) ∧ t.goTo 0 = u := by
    intro u
    have hseq := hending (.done u)
    simpa only [Outcome.ending_eq_done_iff, Effect.seq_done_iff, Effect.of_iff, Ending.done.injEq]
      using hseq
  have hstop : ∀ u, (∃ fuel m', m.exec .endless fuel program = .stopped (.input .endOfFile) m' ∧
      m'.view sink = u) ↔ Effect.loop (Effect.of f) (opened start input) (.outOfInput u) := by
    intro u
    have hseq := hending (.outOfInput u)
    simpa [Outcome.ending_eq_outOfInput_iff, Effect.seq] using hseq
  refine Or.inr ⟨fun rest output => ?_, fun fuel m' hexec => ?_, fun output => ?_⟩
  · rw [← talk_opened hstart, ← exists_loop_done_iff hturn hback hs]
    constructor
    · rintro ⟨fuel, m', hexec, rfl, rfl⟩
      obtain ⟨t, hloop, hview⟩ := (hdone _).mp ⟨fuel, m', hexec, rfl⟩
      rw [← hview]
      exact ⟨t, hloop, rfl, rfl⟩
    · rintro ⟨t, hloop, rfl, rfl⟩
      obtain ⟨fuel, m', hexec, hview⟩ := (hdone _).mpr ⟨t, hloop, rfl⟩
      exact ⟨fuel, m', hexec, by rw [hview]; rfl, by rw [hview]; rfl⟩
  · obtain ⟨t, hloop, hview⟩ := (hdone _).mp ⟨fuel, m', hexec, rfl⟩
    have hnode := node_eq_zero_of_loop hback hs hloop
    rw [← hview]
    exact ⟨hnode, rfl⟩
  · rw [← talk_opened hstart, ← exists_loop_outOfInput_iff hturn hback hs]
    constructor
    · rintro ⟨fuel, m', hexec, rfl⟩
      exact ⟨_, (hstop _).mp ⟨fuel, m', hexec, rfl⟩, rfl⟩
    · rintro ⟨t, hloop, rfl⟩
      obtain ⟨fuel, m', hexec, hview⟩ := (hstop t).mpr hloop
      exact ⟨fuel, m', hexec, congrArg Snapshot.output hview⟩

/-- A question that is asked again after a yes. Of two entries for a node the last one counts. Bytes
that are no answer are passed over, and what follows the last answer is left. -/
theorem exec_dispatchFrom_again : ∃ entries : List (Int × Action),
    entries = [(9, .say (utf8 "Fine.") 4), (4, .say (utf8 "Never said.") 9),
      (4, .ask (utf8 "Again?") 0 9)] ∧ Dispatchable entries ∧
    ∃ code σ program fuel m',
      Session.perform { wraps := true } (dispatchFrom (4 : Nat) (tableOf entries)) = (.ok code, σ) ∧
      Program.parse (Fragment.text code) = .ok program ∧
      (Machine.forInput .endless (utf8 "?y\nn!")).exec .endless fuel program = .finished m' ∧
      (m'.view 0).output = utf8 "Again? [y/n]\n> Fine.\nAgain? [y/n]\n> " ∧
      (m'.view 0).input = utf8 "!" ∧ (m'.view 0).cells Register.node = 0 ∧
      (m'.view 0).cursor = 0 := by
  refine ⟨_, rfl, by decide, ?_⟩
  obtain ⟨code, σ, program, hemit, hparse, hrun⟩ := @exec_dispatchFrom_iff
    [(9, .say (utf8 "Fine.") 4), (4, .say (utf8 "Never said.") 9), (4, .ask (utf8 "Again?") 0 9)] 4
      (by decide) (by decide) true
  obtain ⟨fuel, hmemory, -⟩ | ⟨hdone, hend, -⟩ :=
    hrun (Machine.ready_forInput .endless (utf8 "?y\nn!"))
  · cases hmemory
  obtain ⟨fuel, m', hexec, hinput, houtput⟩ := (hdone (utf8 "!") _).mpr ⟨4, rfl⟩
  obtain ⟨hnode, hcursor⟩ := hend fuel m' hexec
  exact ⟨code, σ, program, fuel, m', hemit, hparse, hexec, houtput, hinput, hnode, hcursor⟩

end Generator

end TapeMachine
