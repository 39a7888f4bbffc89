import TapeMachine.Proofs.CellArithmetic
import TapeMachine.Proofs.CursorAgreement

/-!
# How often bodies are run

Conditions and counted loops are generated around a body, which may be any directives, may run
forever and may write to any cell. Their code is described by what the body's program does when it
stands by itself: both have the same endings, put together as often as the cell tested says.

Text that a body is put into can be condensed in other ways than the body alone, as runs of symbols
are collapsed across its ends, and a loop may even vanish if nothing is left in it. Neither changes
how the code ends, from any tape.

The module introduces:

* `Fragment.run`: what the program of generated code does, put together along the code;
* `Generator.Session.Acts`: a step generates code whose endings are those of an effect;
* `Generator.Session.Wraps`: what a body does in a session decides what the step around it does;
* `Generator.Session.Builds`: the same for the programs of all directives, on machines;
* `Generator.Session.builds_ifZero_doOnceIf_repeatBy`: conditions run their body once or never, and
  counted loops run it as often as their cell says.
-/

namespace TapeMachine

/-! ### What programs of generated code do -/

namespace Fragment

variable {code body : Fragment} {s : Snapshot} {e : Ending}

/-- What the program of generated code does, from a cursor where a session expects it. Loops that
condense to nothing are left out. -/
def run (code : Fragment) : Effect :=
  Source.effects (Source.prune (sources code))

/-- The program of a fragment has at most one ending. -/
theorem run_isFunctional (code : Fragment) : code.run.IsFunctional :=
  Source.effects_isFunctional _

/-- The program of two fragments in a row does what both do in a row. -/
theorem run_append (first second : Fragment) :
    run (first ++ second) = first.run.seq second.run := by
  rw [run, sources_append, Source.prune_append, Source.effects_append]
  rfl

/-- Notes are no part of a program. -/
theorem run_noted (note : Bytes) (body : Fragment) : run [.noted note body] = body.run := by
  rw [run, sources_noted]
  rfl

/-- A loop that has a node. -/
theorem run_loop (hnodes : Source.loopNodes (sources body) ≠ []) :
    run [.loop body] = Effect.loop body.run := by
  rw [run, sources_loop, Source.prune_cons, Source.prune_nil, Source.pruned_loop, if_neg hnodes,
    Source.effects_cons, Source.effects_nil, Effect.seq_skip, Source.effect_loop]
  rfl

/-- Where the text has an ending on the tape, its program has the same one. -/
theorem run_of_effect (hs : OnTape s.cursor) (hne : e ≠ .offTape) (h : code.effect s e) :
    code.run s e :=
  Source.effects_refines_prune _ hs hne h

/-- A move between cells of the tape is passed over. -/
theorem run_moving_seq_iff {amount pos : Int} {b : Effect} (hs : OnTape s.cursor)
    (hpos : s.cursor + amount = pos) (ht : OnTape pos) :
    ((run (moving amount)).seq b) s e ↔ b (s.goTo pos) e :=
  (run_isFunctional _).seq_of_done_iff
    (run_of_effect hs (by simp) (hpos ▸ effect_moving hs (hpos.symm ▸ ht)))

end Fragment

namespace Generator

variable {σ σ₁ σ₂ σ' : Session} {code : Fragment} {s t : Snapshot} {e : Ending} {a b : Effect}

/-- The program of code that follows the rules does what the code does. -/
theorem Derives.program_iff (h : Derives σ code σ') (htape : OnTape σ.cursor)
    (hs : s.cursor = σ.cursor) :
    Program.effect (Source.condense (Fragment.sources code)) s e ↔ code.run s e :=
  (h.treads htape).effect_condense_iff htape hs

/-- The cursor is where the session says when the program of its code has ended. -/
theorem Derives.run_cursor (h : Derives σ code σ') (htape : OnTape σ.cursor)
    (hs : s.cursor = σ.cursor) (ht : code.run s (.done t)) : t.cursor = σ'.cursor :=
  (h.treads htape).cursor_eq hs ht

/-! ### Steps and their endings -/

/-- Whether a step generates code that has the endings of an effect, from every tape. -/
def Session.Acts (σ : Session) (step : Gen Fragment) (σ' : Session) (a : Effect) : Prop :=
  ∃ code, Emits σ step code σ' ∧ Derives σ code σ' ∧
    (OnTape σ.cursor → ∀ ⦃s e⦄, s.cursor = σ.cursor → (code.run s e ↔ a s e))

section Acts

variable {step first body : Gen Fragment} {rest : List (Gen Fragment)} {f : Snapshot → Ending}
  {next control : Int}

namespace Session.Acts

/-- What a step does may be told in other words. -/
theorem congr (h : σ.Acts step σ' a)
    (hab : OnTape σ.cursor → ∀ s e, s.cursor = σ.cursor → (a s e ↔ b s e)) : σ.Acts step σ' b := by
  obtain ⟨code, hemits, hderives, hrun⟩ := h
  refine ⟨code, hemits, hderives, fun htape s e hs => ?_⟩
  rw [hrun htape hs, hab htape s e hs]

/-- No steps do nothing. -/
theorem nil (σ : Session) : σ.Acts (sequence []) σ .skip :=
  ⟨[], by simp, .record rfl rfl rfl, fun _ _ _ _ => Iff.rfl⟩

/-- The first step of a sequence is followed by the `rest`. -/
theorem cons (hfirst : σ.Acts first σ₁ a) (hrest : σ₁.Acts (sequence rest) σ' b) :
    σ.Acts (sequence (first :: rest)) σ' (a.seq b) := by
  obtain ⟨code₁, hemits₁, hderives₁, hrun₁⟩ := hfirst
  obtain ⟨code₂, hemits₂, hderives₂, hrun₂⟩ := hrest
  refine ⟨code₁ ++ code₂, emits_sequence_cons_iff.mpr ⟨_, _, σ₁, hemits₁, hemits₂, rfl⟩,
    hderives₁.append hderives₂, fun htape s e hs => ?_⟩
  rw [Fragment.run_append]
  -- Behind the first step the cursor is where the others expect it, whatever the tape holds.
  refine Effect.seq_congr (fun e => hrun₁ htape hs) fun t ht => ?_
  exact hrun₂ (hderives₁.onTape htape) (hderives₁.run_cursor htape hs ht)

/-- A note around a step changes nothing about what it does. -/
theorem noted (note : Bytes) (h : σ.Acts body σ' a) : σ.Acts (Generator.noted note body) σ' a := by
  obtain ⟨code, hemits, hderives, hrun⟩ := h
  refine ⟨_, emits_noted_iff.mpr ⟨code, hemits, rfl⟩, hderives.noted _, fun htape s e hs => ?_⟩
  rw [Fragment.run_noted]
  exact hrun htape hs

end Session.Acts

/-- What is realized on every tape, without leaving it, is the only ending. -/
theorem Realizes.acts (h : Realizes .nothing σ.cursor step next f) (hf : ∀ s, f s ≠ .offTape) :
    ∃ σ', σ'.cursor = next ∧ σ.Acts step σ' (.of f) := by
  obtain ⟨code, σ', hemits, hderives, hnext, -, heffect⟩ := h rfl (Trust.allows_nothing _)
  refine ⟨σ', hnext, code, hemits, hderives, fun htape s e hs => ?_⟩
  have hrun : code.run s (f s) := by
    refine Fragment.run_of_effect (hs ▸ htape) (hf s) ?_
    exact heffect (Trust.fits_nothing hs htape) trivial
  refine ⟨fun h => code.run_isFunctional hrun h, ?_⟩
  rintro rfl
  exact hrun

/-- The session in which the body of a loop is generated. -/
def Session.inLoop (σ : Session) (control : Int) : Session :=
  { σ with cursor := control, knowledge := σ.knowledge.enter control }

/-- A loop around a body that does something. -/
theorem Session.Acts.loopOn (hcontrol : OnTape control)
    (hbody : (σ.inLoop control).Acts body σ₁ a) (hback : σ₁.cursor = control)
    (hbusy : ∃ s, s.cursor = control ∧ ¬ a s (.done s)) :
    ∃ σ', σ'.cursor = control ∧
      σ.Acts (Generator.loopOn control body) σ' fun s => Effect.loop a (s.goTo control) := by
  obtain ⟨inner, hemits, hderives, hrun⟩ := hbody
  have hrun := hrun hcontrol
  obtain ⟨knowledge, hleave⟩ := Knowledge.exists_leave hderives.frame.2
  -- Without a node in it the loop would vanish, but then its body could not do anything.
  have hnodes : Source.loopNodes (Fragment.sources inner) ≠ [] := by
    intro hempty
    obtain ⟨busy, hcursor, hchange⟩ := hbusy
    refine hchange ((hrun hcursor).mp ((hderives.program_iff hcontrol hcursor).mp ?_))
    rw [Source.condense, Source.condenseFrom_eq_nil hempty]
    rfl
  refine ⟨{ σ₁ with knowledge }, hback, _, emits_loopOn_iff.mpr ⟨inner, σ₁, knowledge, hcontrol,
    hemits, hleave, rfl, rfl⟩, .append (.move σ hcontrol) (.loop hderives hback hleave),
    fun htape s e hs => ?_⟩
  have hsum : s.cursor + (control - σ.cursor) = control := by
    rw [hs]
    omega
  rw [Fragment.run_append, Fragment.run_moving_seq_iff (hs ▸ htape) hsum hcontrol,
    Fragment.run_loop hnodes]
  refine Effect.loop_congr (fun s => s.cursor = control) (fun s e hs _ => hrun hs)
    (fun s t hs _ ht => ?_) rfl
  exact (hderives.run_cursor hcontrol hs ht).trans hback

end Acts

/-! ### Failures -/

section Fails

variable {fault : Fault} {step body : Gen Fragment}

/-- A sequence fails where its first step does. -/
theorem perform_sequence_of_error (h : σ.perform step = (.error fault, σ'))
    (rest : List (Gen Fragment)) : σ.perform (sequence (step :: rest)) = (.error fault, σ') :=
  Session.perform_bind_of_error h _

/-- A loop fails where its `body` does. -/
theorem perform_loopOn_of_error {control : Int} (hcontrol : OnTape control)
    (h : (σ.inLoop control).perform body = (.error fault, σ')) :
    σ.perform (loopOn control body) = (.error fault, σ') := by
  have hmove := (emits_moveTo_iff (σ := σ)).mpr ⟨hcontrol, rfl, rfl⟩
  have henter : Emits { σ with cursor := control } (enterLoop control) () (σ.inLoop control) :=
    emits_modify_iff.mpr rfl
  unfold loopOn
  rw [hmove.perform_bind, henter.perform_bind]
  exact Session.perform_bind_of_error h _

end Fails

/-! ### Steps around a body -/

/-- Whether what a body does in one session decides what a step around it does in another. -/
structure Session.Wraps (σ : Session) (step : Gen Fragment → Gen Fragment) (σ₁ : Session)
    (admits : Effect → Prop) (whole : Effect → Effect) : Prop where
  /-- Where the body fails, so does the step. -/
  fails : ∀ ⦃body fault σ₂⦄, σ₁.perform body = (.error fault, σ₂) →
    σ.perform (step body) = (.error fault, σ₂)
  /-- What the body does is put into what the step does. -/
  acts : ∀ ⦃body σ₂ a⦄, σ₁.Acts body σ₂ a → admits a → ∃ σ', σ.Acts (step body) σ' (whole a)

namespace Session.Wraps

variable {step : Gen Fragment → Gen Fragment} {first : Gen Fragment}
  {rest : Gen Fragment → List (Gen Fragment)} {admits : Effect → Prop}
  {whole whole' : Effect → Effect}

/-- What a step does around a body may be told in other words. -/
theorem congr (h : σ.Wraps step σ₁ admits whole) (hsame : OnTape σ.cursor → ∀ a s e,
    s.cursor = σ.cursor → (whole a s e ↔ whole' a s e)) : σ.Wraps step σ₁ admits whole' := by
  refine ⟨h.fails, fun body σ₂ a hbody hadmits => ?_⟩
  obtain ⟨σ', hwhole⟩ := h.acts hbody hadmits
  exact ⟨σ', hwhole.congr fun htape => hsame htape a⟩

/-- A single step around a body is a sequence of one. -/
theorem single (h : σ.Wraps step σ₁ admits whole) :
    σ.Wraps (fun body => sequence [step body]) σ₁ admits whole := by
  refine ⟨fun body fault σ₂ hbody => perform_sequence_of_error (h.fails hbody) [],
    fun body σ₂ a hbody hadmits => ?_⟩
  obtain ⟨σ', hwhole⟩ := h.acts hbody hadmits
  refine ⟨σ', (hwhole.cons (.nil σ')).congr fun _ s e _ => ?_⟩
  rw [Effect.seq_skip]

/-- Another step may come first. -/
theorem cons (hfirst : σ.Acts first σ₁ b)
    (hrest : σ₁.Wraps (fun body => sequence (rest body)) σ₂ admits whole) :
    σ.Wraps (fun body => sequence (first :: rest body)) σ₂ admits fun a => b.seq (whole a) := by
  refine ⟨fun body fault σ₃ hbody => ?_, fun body σ₃ a hbody hadmits => ?_⟩
  · obtain ⟨code, hemits, -, -⟩ := hfirst
    rw [sequence, hemits.perform_bind]
    exact Session.perform_bind_of_error (hrest.fails hbody) _
  · obtain ⟨σ', hwhole⟩ := hrest.acts hbody hadmits
    exact ⟨σ', hfirst.cons hwhole⟩

/-- A note may be put around a step around a body. -/
theorem noted (note : Bytes) (h : σ.Wraps step σ₁ admits whole) :
    σ.Wraps (fun body => Generator.noted note (step body)) σ₁ admits whole := by
  refine ⟨fun body fault σ₂ hbody => ?_, fun body σ₂ a hbody hadmits => ?_⟩
  · have hcursor : Emits σ Generator.cursor σ.cursor σ := emits_cursor_iff.mpr ⟨rfl, rfl⟩
    rw [Generator.noted, hcursor.perform_bind]
    exact Session.perform_bind_of_error (h.fails hbody) _
  · obtain ⟨σ', hwhole⟩ := h.acts hbody hadmits
    exact ⟨σ', hwhole.noted note⟩

/-- The cursor may be taken back behind a step around a body. -/
theorem saveCursor (htape : OnTape σ.cursor) (h : σ.Wraps step σ₁ admits whole) :
    σ.Wraps (fun body => Generator.saveCursor (step body)) σ₁ admits
      fun a => (whole a).seq (.of fun t => .done (t.goTo σ.cursor)) := by
  have hcursor : Emits σ Generator.cursor σ.cursor σ := emits_cursor_iff.mpr ⟨rfl, rfl⟩
  refine ⟨fun body fault σ₂ hbody => ?_, fun body σ₂ a hbody hadmits => ?_⟩
  · rw [Generator.saveCursor, hcursor.perform_bind]
    exact perform_sequence_of_error (h.fails hbody) _
  · obtain ⟨σ₃, hwhole⟩ := h.acts hbody hadmits
    obtain ⟨σ', -, hmove⟩ := (Realizes.moveTo σ₃.cursor htape).acts (by simp)
    obtain ⟨code, hemits, hderives, hrun⟩ := hwhole.cons (hmove.cons (.nil σ'))
    refine ⟨σ', code, emits_bind_iff.mpr ⟨_, σ, hcursor, hemits⟩, hderives, fun htape s e hs => ?_⟩
    rw [hrun htape hs, Effect.seq_skip]

end Session.Wraps

/-! ### Doing something once -/

/-- Clears a cell and takes the cursor somewhere. -/
def clearing (cell back : Int) : Effect :=
  .of fun t => .done ((t.set cell 0).goTo back)

/-- Runs a body if a cell is not zero, and then clears the cell, whatever the body left in it. -/
def onceIf (flag : Int) (a : Effect) : Effect := fun s e =>
  if s.cells flag = 0 then e = .done (s.goTo flag)
  else (a.seq (clearing flag flag)) (s.goTo flag) e

/-- What ends with clearing the `flag` ends on a zero. -/
private theorem here_of_clearing {flag : Int} (h : (a.seq (clearing flag flag)) s (.done t)) :
    t.here = 0 := by
  obtain ⟨u, -, ht⟩ := Effect.seq_done_iff.mp h
  cases ht
  simp

/-- `doOnceIf flag` does any body once if the `flag` is set. -/
theorem wraps_doOnceIf {flag : Int} (hflag : OnTape flag) :
    σ.Wraps (doOnceIf flag) (σ.inLoop flag) (fun _ => True) (onceIf flag) := by
  refine ⟨fun body fault σ₂ hbody =>
    perform_loopOn_of_error hflag (perform_sequence_of_error hbody _),
    fun body σ₂ a hbody _ => ?_⟩
  obtain ⟨σ₃, hback, hclear⟩ :=
    (Realizes.clearAt σ₂.cursor (Trust.isOpen_nothing hflag)).acts (by simp)
  have hpass := (hbody.cons (hclear.cons (.nil σ₃))).congr (b := a.seq (clearing flag flag))
    fun _ s e _ => by rw [Effect.seq_skip, clearing]
  -- A pass leaves a zero behind, so a tape with something else in the cell is changed.
  have hbusy : ∃ s : Snapshot, s.cursor = flag ∧ ¬ (a.seq (clearing flag flag)) s (.done s) := by
    refine ⟨⟨flag, fun _ => 1, [], []⟩, rfl, fun h => ?_⟩
    have hzero : (1 : UInt8) = 0 := here_of_clearing h
    cases hzero
  obtain ⟨σ', -, hloop⟩ := hpass.loopOn hflag hback hbusy
  refine ⟨σ', hloop.congr fun _ s e _ => ?_⟩
  unfold onceIf
  split
  · next hzero => exact Effect.loop_of_zero hzero
  · next hcell => exact Effect.loop_iff_of_zero_behind hcell fun t ht => here_of_clearing ht

/-! ### Counted loops -/

/-- Counts a cell down. -/
def countDown (count : Int) : Effect :=
  .of fun t => .done ((t.set count (t.cells count - 1)).goTo count)

/-- Whether a body that is run from a cell leaves in it what it found there. -/
def Keeps (count : Int) (a : Effect) : Prop :=
  ∀ ⦃s t⦄, s.cursor = count → a s (.done t) → t.cells count = s.cells count

/-- Runs a body as often as a cell says, and counts the cell down each time. -/
def repeated (count : Int) (a : Effect) : Effect := fun s =>
  (a.seq (countDown count)).times (s.cells count).toNat (s.goTo count)

/-- A body that keeps the `count`, and the decrement behind it, take one from the `count`. -/
private theorem Keeps.here_of_countDown {count : Int} (ha : Keeps count a) (hs : s.cursor = count)
    (h : (a.seq (countDown count)) s (.done t)) : t.cursor = count ∧ t.here = s.here - 1 := by
  obtain ⟨u, hu, ht⟩ := Effect.seq_done_iff.mp h
  cases ht
  refine ⟨rfl, ?_⟩
  rw [Snapshot.here_goTo, Snapshot.cells_set_self, ha hs hu, Snapshot.here, hs]

/-- `repeatBy count` repeats a body that keeps the `count` as often as the `count` says. -/
theorem wraps_repeatBy {count : Int} (hcount : OnTape count) :
    σ.Wraps (repeatBy count) (σ.inLoop count) (Keeps count) (repeated count) := by
  refine ⟨fun body fault σ₂ hbody => perform_loopOn_of_error hcount (perform_sequence_of_error
    (perform_sequence_of_error hbody _) _), fun body σ₂ a hbody hkeeps => ?_⟩
  obtain ⟨σ₃, -, hdec⟩ :=
    (Realizes.decAt σ₂.cursor (Trust.isOpen_nothing hcount)).acts (by simp)
  obtain ⟨σ₄, hback, hmove⟩ := (Realizes.moveTo σ₃.cursor hcount).acts (by simp)
  have hpass := ((hbody.cons (hdec.cons (.nil σ₃))).cons (hmove.cons (.nil σ₄))).congr
    (b := a.seq (countDown count)) fun _ s e _ => by
      rw [Effect.seq_skip, Effect.seq_skip, Effect.seq_assoc, Effect.of_done_seq]
      rfl
  -- A body such as one that increments the cell could cancel out, but not one that keeps it.
  have hbusy : ∃ s : Snapshot, s.cursor = count ∧ ¬ (a.seq (countDown count)) s (.done s) := by
    refine ⟨⟨count, fun _ => 1, [], []⟩, rfl, fun h => ?_⟩
    have hone : (1 : UInt8) = 1 - 1 := (hkeeps.here_of_countDown rfl h).2
    cases hone
  obtain ⟨σ', -, hloop⟩ := hpass.loopOn hcount hback hbusy
  refine ⟨σ', hloop.congr fun _ s e _ => ?_⟩
  exact Effect.loop_iff_times (fun s => s.cursor = count)
    (fun s t hs ht => hkeeps.here_of_countDown hs ht) rfl

/-! ### Conditions -/

/-- Runs a body behind a test if some condition holds, and then clears the outcome. In any case the
cursor is taken back. -/
def onlyIf (runs : Snapshot → Prop) [DecidablePred runs] (back : Int) (a : Effect) : Effect :=
  fun s e =>
    if runs s then (a.seq (clearing Register.flag back)) (tested s 1) e
    else e = .done ((tested s 0).goTo back)

/-- A test of a `cell` that tells whether `runs` holds lets a body run only if it does. -/
theorem exists_wraps_onlyIf {cell : Int} {runs : Snapshot → Prop} [DecidablePred runs]
    {check : Gen Fragment} (htape : OnTape σ.cursor) (hcell : OnTape cell)
    (hcheck : Realizes .nothing cell check Register.flag
      fun s => .done (tested s (if runs s then 1 else 0)))
    (hsame : ∀ s, runs (s.goTo cell) ↔ runs s) :
    ∃ σ₁, σ₁.cursor = Register.flag ∧ σ.Wraps (fun body => saveCursor (sequence [moveTo cell, check,
      doOnceIf Register.flag body])) σ₁ (fun _ => True) (onlyIf runs σ.cursor) := by
  obtain ⟨σ₁, hcursor, hmove⟩ := (Realizes.moveTo σ.cursor hcell).acts (by simp)
  obtain ⟨σ₂, -, htest⟩ := (hcursor.symm ▸ hcheck).acts (by simp)
  have hflag : OnTape Register.flag := by decide
  refine ⟨σ₂.inLoop Register.flag, rfl, ((Session.Wraps.cons hmove (.cons htest
    (wraps_doOnceIf hflag).single)).saveCursor htape).congr fun _ a s e _ => ?_⟩
  rw [Effect.seq_assoc, Effect.of_done_seq, Effect.seq_assoc, Effect.of_done_seq]
  simp only [hsame, tested_goTo, onlyIf]
  split
  · -- The outcome is one, so the body is run, and the cursor goes back behind it.
    have honce : ∀ e, onceIf Register.flag a (tested s 1) e ↔
        (a.seq (clearing Register.flag Register.flag)) (tested s 1) e := by
      intro e
      have houtcome : (tested s 1).cells Register.flag = 1 := by simp [tested]
      rw [onceIf, houtcome, if_neg (by decide)]
      rfl
    rw [Effect.seq_congr honce fun _ _ => Iff.rfl, Effect.seq_assoc, clearing, Effect.of_done_seq]
    rfl
  · have hnever : ∀ e, onceIf Register.flag a (tested s 0) e ↔
        (Effect.of fun s => .done (s.goTo Register.flag)) (tested s 0) e := by
      intro e
      have houtcome : (tested s 0).cells Register.flag = 0 := by simp [tested]
      rw [onceIf, if_pos houtcome, Effect.of_iff, eq_comm]
    rw [Effect.seq_congr hnever fun _ _ => Iff.rfl, Effect.of_done_seq]
    exact eq_comm

/-! ### The programs of bodies -/

/-- Whether a step generates code whose program has the endings of an effect, on all machines that
have the cursor where the session has it: whatever they come to is such an ending, and all such
endings are come to, unless bounded memory is exhausted. -/
def Session.Does (σ : Session) (step : Gen Fragment) (a : Effect) : Prop :=
  ∃ code σ' program, σ.perform step = (.ok code, σ') ∧
    Program.parse (Fragment.text code) = .ok program ∧
    ∀ ⦃m : Machine⦄ ⦃sink : Nat⦄ ⦃memory : Memory⦄, m.Unhindered sink memory →
      (m.view sink).cursor = σ.cursor →
      (∀ fuel e, (m.exec .endless fuel program).ending sink = some e → a (m.view sink) e) ∧
        ∀ e, a (m.view sink) e → m.Reaches sink memory program e

/-- The program of a step's code. -/
theorem Session.Acts.exists_program {step : Gen Fragment} (h : σ.Acts step σ' a)
    (htape : OnTape σ.cursor) : ∃ code program, σ.perform step = (.ok code, σ') ∧
      Program.parse (Fragment.text code) = .ok program ∧
      ∀ ⦃s e⦄, s.cursor = σ.cursor → (Program.effect program s e ↔ a s e) := by
  obtain ⟨code, hemits, hderives, hrun⟩ := h
  refine ⟨code, _, hemits, Fragment.parse_text code, fun s e hs => ?_⟩
  rw [hderives.program_iff htape hs, hrun htape hs]

/-- What a step does by its code, it does on machines that run the program. -/
theorem Session.Acts.does {step : Gen Fragment} (h : σ.Acts step σ' a) (htape : OnTape σ.cursor) :
    σ.Does step a := by
  obtain ⟨code, program, hemits, hparse, hprogram⟩ := h.exists_program htape
  refine ⟨code, σ', program, hemits, hparse, fun m sink memory hm hs => ⟨fun fuel e he => ?_,
    fun e he => ?_⟩⟩
  · exact (hprogram hs).mp (Machine.effect_of_exec hm he)
  · exact Machine.exec_of_effect _ hm ((hprogram hs).mpr he)

/-- Whether a step can be put around all directives. There is a session, with the cursor on the cell
`start`, in which they are generated. If they fail there, the step fails as they do and leaves what
they leave; so there is only one such session, which directives that fail at once leave. If they
have a program there, and what it does is admitted, the step does what `whole` makes of it. -/
def Session.Builds (σ : Session) (step : Gen Fragment → Gen Fragment) (start : Int)
    (admits : Effect → Prop) (whole : Effect → Effect) : Prop :=
  ∃ σ₁ : Session, σ₁.cursor = start ∧ ∀ body : List Directive,
    (∀ fault σ₂, σ₁.perform (emitAll body) = (.error fault, σ₂) →
      σ.perform (step (emitAll body)) = (.error fault, σ₂)) ∧
    ∀ code σ₂ program, σ₁.perform (emitAll body) = (.ok code, σ₂) →
      Program.parse (Fragment.text code) = .ok program → admits (Program.effect program) →
      σ.Does (step (emitAll body)) (whole (Program.effect program))

/-- What a step does around a body by its code, it does on machines that run the programs. -/
theorem Session.Wraps.builds {step : Gen Fragment → Gen Fragment} {start : Int}
    {admits : Effect → Prop} {whole : Effect → Effect} (htape : OnTape σ.cursor)
    (h : σ.Wraps step σ₁ admits whole) (hstart : σ₁.cursor = start) :
    σ.Builds step start admits whole := by
  refine ⟨σ₁, hstart, fun body => ⟨fun fault σ₂ hfail => h.fails hfail, ?_⟩⟩
  intro code σ₂ program hemits hparse hadmits
  have hprogram : program = Source.condense (Fragment.sources code) :=
    Except.ok.inj (hparse.symm.trans (Fragment.parse_text code))
  have hderives : Derives σ₁ code σ₂ := derivable_emitAll body hemits
  have hbody : σ₁.Acts (emitAll body) σ₂ (Program.effect program) :=
    ⟨code, hemits, hderives, fun htape s e hs => hprogram ▸ (hderives.program_iff htape hs).symm⟩
  obtain ⟨σ', hwhole⟩ := h.acts hbody hadmits
  exact hwhole.does htape

/-- `ifZero` and `ifNonzero` run their body once or never, as `onlyIf` says, and leave nothing else
but zeros in the registers of the test. `doOnceIf` runs its body once, whatever the body does to the
`flag`. `repeatBy` runs a body that `Keeps` the `count` as often as the `count` says. The bodies may
be any directives, and what they do is what their program does by itself, on every tape. -/
theorem Session.builds_ifZero_doOnceIf_repeatBy (htape : OnTape σ.cursor) :
    (∀ pos, OnTape pos → Testable pos →
      σ.Builds (ifZero pos) Register.flag (fun _ => True)
        (onlyIf (fun s => s.cells pos = 0) σ.cursor) ∧
      σ.Builds (ifNonzero pos) Register.flag (fun _ => True)
        (onlyIf (fun s => s.cells pos ≠ 0) σ.cursor)) ∧
    (∀ flag, OnTape flag → σ.Builds (doOnceIf flag) flag (fun _ => True) (onceIf flag)) ∧
    ∀ count, OnTape count → σ.Builds (repeatBy count) count (Keeps count) (repeated count) := by
  refine ⟨fun pos hpos htestable => ⟨?_, ?_⟩, fun flag hflag => ?_, fun count hcount => ?_⟩
  · have hcheck := Realizes.checkZero (Trust.isOpen_nothing hpos) htestable
    obtain ⟨σ₁, hflag, hwraps⟩ := exists_wraps_onlyIf htape hpos hcheck fun _ => Iff.rfl
    exact (hwraps.noted _).builds htape hflag
  · have hcheck : Realizes .nothing pos checkNonzero Register.flag
        fun s => .done (tested s (if s.cells pos ≠ 0 then 1 else 0)) :=
      (Realizes.checkNonzero (Trust.isOpen_nothing hpos) htestable).congr fun s _ => by
        rw [ite_not]
    obtain ⟨σ₁, hflag, hwraps⟩ := exists_wraps_onlyIf htape hpos hcheck fun _ => Iff.rfl
    exact (hwraps.noted _).builds htape hflag
  · exact (wraps_doOnceIf hflag).builds htape rfl
  · exact (wraps_repeatBy hcount).builds htape rfl

/-- The program of a body that increments a cell. -/
private theorem exists_increment {cell : Int} (hcell : OnTape cell) (htape : OnTape σ.cursor) :
    ∃ code σ' program, σ.perform (emitAll [.incAt (.cell cell)]) = (.ok code, σ') ∧
      Program.parse (Fragment.text code) = .ok program ∧ ∀ ⦃s e⦄, s.cursor = σ.cursor →
        (Program.effect program s e ↔ .done ((s.set cell (s.cells cell + 1)).goTo cell) = e) := by
  obtain ⟨σ', -, hinc⟩ := (Realizes.incAt σ.cursor (Trust.isOpen_nothing hcell)).acts (by simp)
  obtain ⟨code, program, hemits, hparse, hprogram⟩ := (hinc.cons (.nil σ')).exists_program htape
  refine ⟨code, σ', program, hemits, hparse, fun s e hs => ?_⟩
  rw [hprogram hs, Effect.seq_skip, Effect.of_iff]

/-- The tape of the example below with some passes still to come. -/
private def passesLeft (n : Nat) : Snapshot :=
  (((Snapshot.fresh []).set 30 (UInt8.ofNat n)).set 32 (9 - UInt8.ofNat n)).goTo 30

/-- A cell that holds seven is not zero, so that `ifNonzero` increments another one once, and
`repeatBy` does so seven times. -/
theorem Session.builds_ifNonzero_repeatBy_incAt : ∃ (m m₁ m₂ : Machine) (code₁ code₂ : Fragment)
    (σ σ₁ σ₂ : Session) (program₁ program₂ : Program) (fuel₁ fuel₂ : Nat),
      m.Unhindered 0 .endless ∧ (m.view 0).cells 30 = 7 ∧ (m.view 0).cells 32 = 2 ∧
      σ.cursor = 30 ∧
      (σ.perform (ifNonzero 30 (emitAll [.incAt (.cell 32)])) = (.ok code₁, σ₁) ∧
        Program.parse (Fragment.text code₁) = .ok program₁ ∧
        m.exec .endless fuel₁ program₁ = .finished m₁ ∧ (m₁.view 0).cells 32 = 3 ∧
        (m₁.view 0).cells 30 = 7) ∧
      σ.perform (repeatBy 30 (emitAll [.incAt (.cell 32)])) = (.ok code₂, σ₂) ∧
        Program.parse (Fragment.text code₂) = .ok program₂ ∧
        m.exec .endless fuel₂ program₂ = .finished m₂ ∧ (m₂.view 0).cells 32 = 9 ∧
        (m₂.view 0).cells 30 = 0 := by
  obtain ⟨m, hm, hview⟩ := exists_numbers
  let σ : Session := { wraps := true, cursor := 30 }
  have hcursor : (m.view 0).cursor = σ.cursor := by rw [hview]; rfl
  have hseven : (m.view 0).cells 30 = 7 := by rw [hview]; rfl
  have htwo : (m.view 0).cells 32 = 2 := by rw [hview]; rfl
  obtain ⟨hconditions, -, hloops⟩ := @Session.builds_ifZero_doOnceIf_repeatBy σ (by decide)
  -- The condition: its body starts on the outcome of the test.
  obtain ⟨inside₁, hflag, hbuilds₁⟩ := (hconditions 30 (by decide) (by decide)).2
  obtain ⟨_, _, body₁, hemit, hparse, hbody₁⟩ :=
    exists_increment (σ := inside₁) (show OnTape 32 by decide) (by rw [hflag]; decide)
  obtain ⟨code₁, σ₁, program₁, hemit₁, hparse₁, hrun₁⟩ :=
    (hbuilds₁ _).2 _ _ _ hemit hparse trivial
  have hnonzero : (m.view 0).cells 30 ≠ 0 := by rw [hseven]; decide
  have hend₁ : onlyIf (fun s => s.cells 30 ≠ 0) 30 (Program.effect body₁) (m.view 0)
      (.done (((((tested (m.view 0) 1).set 32 ((tested (m.view 0) 1).cells 32 + 1)).goTo 32).set
        Register.flag 0).goTo 30)) := by
    rw [onlyIf, if_pos hnonzero]
    exact Effect.seq_of_done ((hbody₁ hflag.symm).mpr rfl) rfl
  obtain ⟨fuel₁, hdone₁ | ⟨hmemory, -⟩⟩ := (hrun₁ hm hcursor).2 _ hend₁
  swap
  · cases hmemory
  obtain ⟨m₁, hexec₁, hview₁⟩ := Outcome.ending_eq_done_iff.mp hdone₁
  -- The loop: its body keeps the count, and each pass leads from one tape to the next.
  obtain ⟨inside₂, hcount, hbuilds₂⟩ := hloops 30 (by decide)
  obtain ⟨_, _, body₂, hemit', hparse', hbody₂⟩ :=
    exists_increment (σ := inside₂) (show OnTape 32 by decide) (by rw [hcount]; decide)
  have hkeeps : Keeps 30 (Program.effect body₂) := by
    intro s t hs ht
    cases (hbody₂ (hs.trans hcount.symm)).mp ht
    rw [Snapshot.goTo_cells, Snapshot.cells_set_of_ne (by decide)]
  obtain ⟨code₂, σ₂, program₂, hemit₂, hparse₂, hrun₂⟩ :=
    (hbuilds₂ _).2 _ _ _ hemit' hparse' hkeeps
  have hpass : ∀ n, ((Program.effect body₂).seq (countDown 30)) (passesLeft (n + 1))
      (.done (passesLeft n)) := by
    intro n
    refine Effect.seq_of_done ((hbody₂ hcount.symm).mpr rfl) (congrArg Ending.done ?_)
    refine Snapshot.ext rfl (funext fun p => ?_) rfl rfl
    simp only [passesLeft, Snapshot.goTo_cells, Snapshot.set_cells, Function.update_apply,
      UInt8.ofNat_add]
    grind
  have hend₂ : repeated 30 (Program.effect body₂) (m.view 0) (.done (passesLeft 0)) := by
    have hstart : (m.view 0).goTo 30 = passesLeft 7 := by rw [hview]; rfl
    have htimes : ((m.view 0).cells 30).toNat = 7 := by rw [hseven]; rfl
    rw [repeated, hstart, htimes]
    exact Effect.times_of_done passesLeft hpass 7
  obtain ⟨fuel₂, hdone₂ | ⟨hmemory, -⟩⟩ := (hrun₂ hm hcursor).2 _ hend₂
  swap
  · cases hmemory
  obtain ⟨m₂, hexec₂, hview₂⟩ := Outcome.ending_eq_done_iff.mp hdone₂
  refine ⟨m, m₁, m₂, code₁, code₂, σ, σ₁, σ₂, program₁, program₂, fuel₁, fuel₂, hm, hseven, htwo,
    rfl, ⟨hemit₁, hparse₁, hexec₁, ?_, ?_⟩, hemit₂, hparse₂, hexec₂, ?_, ?_⟩
  · rw [hview₁, hview]
    rfl
  · rw [hview₁, hview]
    rfl
  · rw [hview₂]
    rfl
  · rw [hview₂]
    rfl

end Generator

end TapeMachine
