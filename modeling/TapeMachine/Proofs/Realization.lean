import TapeMachine.Proofs.Trust

/-!
# What the steps of a session realize

A step of a session realizes a function on snapshots if it generates code, from every session with
the cursor on a given cell, and the code does what the function says on every snapshot that is as
the code relies on it to be. This is total correctness: the step does not fail, and the code ends.
What is known of the cells decides how constants are added, but not what the code does.

The module introduces:

* `Generator.Realizes`: a step realizes a function, given what is relied on and where the cursor is
  before and behind it; `Generator.RealizesOn`: it does so on the snapshots with some property;
* `Generator.Realizes.cons`, `Generator.Realizes.saveCursor`, `Generator.Realizes.loopOn`: how steps
  are put together;
* `Generator.RealizesOn.loopOn_of_kept`: a loop whose passes leave what the next one asks for;
* `Generator.Realizes.repeatBy`, `Generator.RealizesOn.doOnceIf`: the loops that always end.
-/

namespace TapeMachine

namespace Generator

/-- Whether a step, with the cursor on the cell `pos` before it, generates code that leads to the
cell `next` and does what a function says on the snapshots with a property. -/
def RealizesOn (T : Trust) (p : Snapshot → Prop) (pos : Int) (step : Gen Fragment) (next : Int)
    (f : Snapshot → Ending) : Prop :=
  ∀ ⦃σ : Session⦄, σ.cursor = pos → T.Allows σ.knowledge.dirty → ∃ code σ', Emits σ step code σ' ∧
    Derives σ code σ' ∧ σ'.cursor = next ∧ T.Allows σ'.knowledge.dirty ∧
      ∀ ⦃s : Snapshot⦄, T.Fits σ s → p s → code.effect s (f s)

/-- Whether the code of a step does what a function says on every snapshot. -/
def Realizes (T : Trust) (pos : Int) (step : Gen Fragment) (next : Int) (f : Snapshot → Ending) :
    Prop :=
  RealizesOn T (fun _ => True) pos step next f

section Steps

variable {T : Trust} {p q : Snapshot → Prop} {pos mid next : Int}
  {step body first second : Gen Fragment} {rest : List (Gen Fragment)} {f g : Snapshot → Ending}

/-! ### Putting steps together -/

namespace RealizesOn

/-- Functions may be told apart only by snapshots with the cursor on the right cell and with zero in
the pads that are relied on. -/
theorem congr (h : RealizesOn T p pos step next f)
    (hp : ∀ s, s.TidyOn T.Relied pos → q s → p s ∧ f s = g s) : RealizesOn T q pos step next g := by
  intro σ hcursor hallows
  obtain ⟨code, σ', hemits, hderives, hnext, hallows', heffect⟩ := h hcursor hallows
  refine ⟨code, σ', hemits, hderives, hnext, hallows', fun s hs hq => ?_⟩
  obtain ⟨hp, hfg⟩ := hp s (hcursor ▸ T.tidy_of_fits hallows hs) hq
  rw [← hfg]
  exact heffect hs hp

/-- Two steps one after another whose code is put together. -/
theorem append (hfirst : RealizesOn T p pos first mid f)
    (hsecond : RealizesOn T q mid second next g) (hq : ∀ s t, p s → f s = .done t → q t) :
    RealizesOn T p pos (do let a ← first; return a ++ (← second)) next
      fun s => (f s).andThen g := by
  intro σ hcursor hallows
  obtain ⟨a, σ₁, hemits₁, hderives₁, hmid, hallows₁, heffect₁⟩ := hfirst hcursor hallows
  obtain ⟨b, σ₂, hemits₂, hderives₂, hnext, hallows₂, heffect₂⟩ := hsecond hmid hallows₁
  refine ⟨a ++ b, σ₂, ?_, hderives₁.append hderives₂, hnext, hallows₂, fun s hs hp => ?_⟩
  · simp only [emits_bind_iff, emits_pure_iff]
    exact ⟨a, σ₁, hemits₁, b, σ₂, hemits₂, rfl, rfl⟩
  · rw [Fragment.effect_append]
    refine Effect.seq_andThen (heffect₁ hs hp) fun t ht => ?_
    exact heffect₂ (T.fits_of_effect hderives₁ hallows₁ hs (ht ▸ heffect₁ hs hp)) (hq s t hp ht)

/-- A note around a step changes nothing about what it does. -/
theorem noted (note : Bytes) (hbody : RealizesOn T p pos body next f) :
    RealizesOn T p pos (Generator.noted note body) next f := by
  intro σ hcursor hallows
  obtain ⟨code, σ', hemits, hderives, hnext, hallows', heffect⟩ := hbody hcursor hallows
  refine ⟨_, σ', emits_noted_iff.mpr ⟨code, hemits, rfl⟩, hderives.noted _, hnext, hallows',
    fun s hs hp => ?_⟩
  rw [Fragment.effect_noted]
  exact heffect hs hp

/-- A step that asks where the cursor is. -/
theorem cursor_bind {next' : Int → Gen Fragment} (h : RealizesOn T p pos (next' pos) next f) :
    RealizesOn T p pos (cursor >>= next') next f := by
  intro σ hcursor hallows
  obtain ⟨code, σ', hemits, hrest⟩ := h hcursor hallows
  refine ⟨code, σ', emits_bind_iff.mpr ⟨pos, σ, ?_, hemits⟩, hrest⟩
  exact emits_cursor_iff.mpr ⟨hcursor.symm, rfl⟩

end RealizesOn

namespace Realizes

/-- What is done on every snapshot is done on some. -/
theorem on (h : Realizes T pos step next f) (p : Snapshot → Prop) :
    RealizesOn T p pos step next f :=
  RealizesOn.congr h fun _ _ _ => ⟨trivial, rfl⟩

/-- What a step does may be told in other words, where the snapshot is tidy. -/
theorem congr (h : Realizes T pos step next f) (hfg : ∀ s, s.TidyOn T.Relied pos → f s = g s) :
    Realizes T pos step next g :=
  RealizesOn.congr h fun s hs _ => ⟨trivial, hfg s hs⟩

/-- No steps do nothing. -/
theorem nil (pos : Int) : Realizes T pos (sequence []) pos .done :=
  fun σ hcursor hallows => ⟨[], σ, by simp, .record rfl rfl rfl, hcursor, hallows, fun _ _ _ => rfl⟩

/-- Steps in a row do one thing after the other. -/
theorem append (hfirst : Realizes T pos first mid f) (hsecond : Realizes T mid second next g) :
    Realizes T pos (do let a ← first; return a ++ (← second)) next fun s => (f s).andThen g :=
  RealizesOn.append hfirst hsecond fun _ _ _ _ => trivial

/-- The first step of a sequence is followed by the `rest`. -/
theorem cons (hfirst : Realizes T pos first mid f)
    (hrest : Realizes T mid (sequence rest) next g) :
    Realizes T pos (sequence (first :: rest)) next fun s => (f s).andThen g :=
  hfirst.append hrest

/-- A note around a step changes nothing about what it does. -/
theorem noted (note : Bytes) (hbody : Realizes T pos body next f) :
    Realizes T pos (Generator.noted note body) next f :=
  RealizesOn.noted note hbody

/-- A step that begins by looking where the cursor is finds it at `pos`. -/
theorem cursor_bind {next' : Int → Gen Fragment} (h : Realizes T pos (next' pos) next f) :
    Realizes T pos (cursor >>= next') next f :=
  RealizesOn.cursor_bind h

/-- A move takes the cursor to its `target`. -/
theorem moveTo (pos : Int) {target : Int} (htape : OnTape target) :
    Realizes T pos (Generator.moveTo target) target fun s => .done (s.goTo target) := by
  intro σ hcursor hallows
  refine ⟨_, _, emits_moveTo_iff.mpr ⟨htape, rfl, rfl⟩, .move σ htape, rfl, hallows,
    fun s hs _ => ?_⟩
  obtain ⟨hs, hpos, -⟩ := T.tidy_of_fits hallows hs
  have hsum : s.cursor + (target - σ.cursor) = target := by
    rw [hs]
    omega
  have hmove := Fragment.effect_moving (hs ▸ hpos) (hsum.symm ▸ htape)
  rwa [hsum] at hmove

end Realizes

namespace RealizesOn

/-- A step in front of others, none of which depends on a property of the snapshot. -/
theorem cons (hfirst : RealizesOn T p pos first mid f)
    (hrest : Realizes T mid (sequence rest) next g) :
    RealizesOn T p pos (sequence (first :: rest)) next fun s => (f s).andThen g :=
  hfirst.append hrest fun _ _ _ _ => trivial

/-- A step in front of others that depend on a property of the snapshot. -/
theorem cons_on (hfirst : Realizes T pos first mid fun s => f s)
    (hrest : RealizesOn T q mid (sequence rest) next g) (hq : ∀ s t, p s → f s = .done t → q t) :
    RealizesOn T p pos (sequence (first :: rest)) next fun s => (f s).andThen g :=
  (hfirst.on p).append hrest hq

/-- Some steps in front of others, all in one sequence. -/
theorem sequence_append {before : List (Gen Fragment)}
    (hbefore : RealizesOn T p pos (sequence before) mid f)
    (hrest : RealizesOn T q mid (sequence rest) next g) (hq : ∀ s t, p s → f s = .done t → q t) :
    RealizesOn T p pos (sequence (before ++ rest)) next fun s => (f s).andThen g := by
  intro σ hcursor hallows
  obtain ⟨code, σ', hemits, hrealized⟩ := hbefore.append hrest hq hcursor hallows
  refine ⟨code, σ', emits_sequence_append_iff.mpr ?_, hrealized⟩
  simp only [emits_bind_iff, emits_pure_iff] at hemits
  obtain ⟨a, σ₁, ha, b, _, hb, rfl, rfl⟩ := hemits
  exact ⟨a, b, σ₁, ha, hb, rfl⟩

/-- `saveCursor` takes the cursor back to `pos`, from wherever the `body` has taken it. -/
theorem saveCursor (htape : OnTape pos) (hbody : RealizesOn T p pos body mid f) :
    RealizesOn T p pos (Generator.saveCursor body) pos
      fun s => (f s).andThen fun t => .done (t.goTo pos) := by
  unfold Generator.saveCursor
  exact cursor_bind (hbody.cons ((Realizes.moveTo mid htape).cons (.nil pos)))

/-- A loop on a cell can be generated if its body can, and its passes do what the body realizes. -/
theorem exists_loop {control : Int} (htape : OnTape control)
    (hbody : RealizesOn T p control body control f)
    {σ : Session} (hallows : T.Allows σ.knowledge.dirty) : ∃ inner σ',
      Emits σ (Generator.loopOn control body) (Fragment.moving (control - σ.cursor) ++
        [.loop inner]) σ' ∧
        Derives σ (Fragment.moving (control - σ.cursor) ++ [.loop inner]) σ' ∧ σ'.cursor = control ∧
        T.Allows σ'.knowledge.dirty ∧ ∀ s : Snapshot, s.TidyOn T.Relied control → p s →
          Fragment.effect inner s (f s) ∧ ∀ t, f s = .done t → t.TidyOn T.Relied control := by
  obtain ⟨inner, σ₁, hemits, hderives, hback, hallows₁, heffect⟩ :=
    @hbody { σ with cursor := control, knowledge := σ.knowledge.enter control } rfl hallows
  obtain ⟨knowledge, hleave⟩ := Knowledge.exists_leave hderives.frame.2
  refine ⟨inner, _, emits_loopOn_iff.mpr ⟨inner, σ₁, knowledge, htape, hemits, hleave, rfl, rfl⟩,
    .append (.move σ htape) (.loop hderives hback hleave), hback,
    (Knowledge.leave_frame hderives.frame.2 hleave).2 ▸ hallows₁, fun s hs hp => ?_⟩
  -- Inside the loop nothing is known, so the body may be run from every tidy snapshot.
  have hstart := T.fits_of_tidy (σ := { σ with cursor := control }) hallows hs
  have hpass := heffect hstart hp
  refine ⟨hpass, fun t ht => ?_⟩
  exact hback ▸ T.tidy_of_fits hallows₁ (T.fits_of_effect hderives hallows₁ hstart (ht ▸ hpass))

/-- A loop on a cell realizes a function if its passes lead to the value of the function. They may
do so on some snapshots only, as the loop need not end on others, and each pass has to find what
its body asks for. -/
theorem loopOn_of_kept (pos : Int) {control : Int} (htape : OnTape control)
    (hbody : RealizesOn T q control body control f)
    (hkept : ∀ s t, s.TidyOn T.Relied control → q s → f s = .done t → t.here ≠ 0 → q t)
    (hloop : ∀ s, s.TidyOn T.Relied control → p s →
      (s.here ≠ 0 → q s) ∧ Effect.loop (Effect.of f) s (g s)) :
    RealizesOn T (fun s => p (s.goTo control)) pos (Generator.loopOn control body) control
      fun s => g (s.goTo control) := by
  intro σ hcursor hallows
  obtain ⟨inner, σ', hemits, hderives, hback, hallows', heffect⟩ := hbody.exists_loop htape hallows
  refine ⟨_, σ', hemits, hderives, hback, hallows', fun s hs hp => ?_⟩
  obtain ⟨hs, hpos, hzero⟩ := T.tidy_of_fits hallows hs
  have hsum : s.cursor + (control - σ.cursor) = control := by
    rw [hs]
    omega
  have htidy : (s.goTo control).TidyOn T.Relied control := ⟨rfl, htape, hzero⟩
  obtain ⟨hstart, hloop⟩ := hloop _ htidy hp
  rw [Fragment.effect_append, Fragment.moving_seq_iff (hs ▸ hpos) hsum htape, Fragment.effect_loop]
  -- Where a pass is made, the body does what it realizes, and leaves as much for the next one.
  refine (Effect.loop_congr (fun s => s.TidyOn T.Relied control ∧ (s.here ≠ 0 → q s))
    (fun s e hs hcell => ?_) (fun s t hs hcell ht => ?_) ⟨htidy, hstart⟩).mp hloop
  · refine ⟨?_, Fragment.effect_isFunctional inner (heffect s hs.1 (hs.2 hcell)).1⟩
    rintro rfl
    exact (heffect s hs.1 (hs.2 hcell)).1
  · exact ⟨(heffect s hs.1 (hs.2 hcell)).2 t ht, hkept s t hs.1 (hs.2 hcell) ht⟩

/-- A loop does `g` where it comes to `control` and `p` holds, if that is an ending of the loop
around `f`. -/
theorem loopOn (pos : Int) {control : Int} (htape : OnTape control)
    (hbody : Realizes T control body control f)
    (hloop : ∀ s, s.TidyOn T.Relied control → p s → Effect.loop (Effect.of f) s (g s)) :
    RealizesOn T (fun s => p (s.goTo control)) pos (Generator.loopOn control body) control
      fun s => g (s.goTo control) :=
  loopOn_of_kept pos htape hbody (fun _ _ _ _ _ _ => trivial)
    fun s hs hp => ⟨fun _ => trivial, hloop s hs hp⟩

end RealizesOn

namespace Realizes

/-- The same where nothing is asked of the snapshot. -/
theorem saveCursor (htape : OnTape pos) (hbody : Realizes T pos body mid f) :
    Realizes T pos (Generator.saveCursor body) pos
      fun s => (f s).andThen fun t => .done (t.goTo pos) :=
  RealizesOn.saveCursor htape hbody

/-- The code of a loop is a move and a loop around the code of its `body`, whose passes do `f`. -/
theorem exists_loop {control : Int} (htape : OnTape control)
    (hbody : Realizes T control body control f)
    {σ : Session} (hallows : T.Allows σ.knowledge.dirty) : ∃ inner σ',
      Emits σ (Generator.loopOn control body) (Fragment.moving (control - σ.cursor) ++
        [.loop inner]) σ' ∧
        Derives σ (Fragment.moving (control - σ.cursor) ++ [.loop inner]) σ' ∧ σ'.cursor = control ∧
        T.Allows σ'.knowledge.dirty ∧ ∀ s : Snapshot, s.TidyOn T.Relied control →
          Fragment.effect inner s (f s) ∧ ∀ t, f s = .done t → t.TidyOn T.Relied control := by
  obtain ⟨inner, σ', hemits, hderives, hback, hallows', heffect⟩ :=
    RealizesOn.exists_loop htape hbody hallows
  exact ⟨inner, σ', hemits, hderives, hback, hallows', fun s hs => heffect s hs trivial⟩

/-- A loop does `g` if that is always an ending of the loop around `f`. -/
theorem loopOn (pos : Int) {control : Int} (htape : OnTape control)
    (hbody : Realizes T control body control f)
    (hloop : ∀ s, s.TidyOn T.Relied control → Effect.loop (Effect.of f) s (g s)) :
    Realizes T pos (Generator.loopOn control body) control fun s => g (s.goTo control) :=
  RealizesOn.loopOn (p := fun _ => True) pos htape hbody fun s hs _ => hloop s hs

end Realizes

/-! ### Single operations -/

/-- The code of a constant, whose effect is that of the code that adds it. -/
theorem exists_emits_add (σ : Session) (amount : Int) : ∃ code σ',
    Emits σ (add amount) code σ' ∧ Derives σ code σ' ∧ (σ' = σ ∨ σ' = σ.bump (Word.wrap amount)) ∧
      ∀ s : Snapshot, Fragment.effect (addingCode (Word.wrap amount)
          ((σ.bump (Word.wrap amount)).knowledge.isZero (σ.cursor + 1))) s
            (s.add (Word.wrap amount)) →
        code.effect s (s.add amount) := by
  have hadd : ∀ s : Snapshot, s.add amount = s.add (Word.wrap amount) := fun s => by
    rw [Snapshot.add, Snapshot.add, ofInt_wrap]
  by_cases hzero : Word.wrap amount = 0
  · -- Nothing is emitted for a multiple of 256.
    refine ⟨[], σ, emits_add_iff.mpr (Or.inl ⟨hzero, rfl, rfl⟩), .record rfl rfl rfl, Or.inl rfl,
      fun s _ => ?_⟩
    have hsame : s.here + UInt8.ofInt 0 = s.here := UInt8.add_zero s.here
    rw [hadd, hzero, Snapshot.add, hsame, Snapshot.put_here]
    rfl
  · refine ⟨_, _, emits_add_iff.mpr (Or.inr ⟨hzero, rfl, rfl⟩), .constant σ _, Or.inr rfl,
      fun s heffect => ?_⟩
    rwa [hadd, Fragment.effect_constant]

namespace Realizes

/-- `write` writes the cell under the cursor. -/
theorem write (pos : Int) : Realizes T pos Generator.write pos Snapshot.write := by
  intro σ hcursor hallows
  refine ⟨_, σ, emits_write_iff.mpr ⟨rfl, rfl⟩, .write σ, hcursor, hallows, fun s _ _ => ?_⟩
  rw [Fragment.effect_write]
  rfl

/-- `read` reads into the cell under the cursor, if that is open. -/
theorem read (hcell : T.Open pos) : Realizes T pos Generator.read pos Snapshot.read := by
  intro σ hcursor hallows
  subst hcursor
  refine ⟨_, _, emits_read_iff.mpr ⟨rfl, rfl⟩, .read σ, rfl, hcell.allows _ hallows,
    fun s _ _ => ?_⟩
  rw [Fragment.effect_read]
  rfl

/-- `clear` sets the cell under the cursor to zero, if that is open. -/
theorem clear (hcell : T.Open pos) :
    Realizes T pos Generator.clear pos fun s => .done (s.put 0) := by
  intro σ hcursor hallows
  subst hcursor
  refine ⟨_, _, emits_clear_iff.mpr ⟨rfl, rfl⟩, .clear σ, rfl, hcell.allows _ hallows,
    fun s _ _ => ?_⟩
  rw [Fragment.effect_clear]
  rfl

/-- `inc` adds one to the cell under the cursor, if that is open. -/
theorem inc (hcell : T.Open pos) : Realizes T pos Generator.inc pos (Snapshot.add 1) := by
  intro σ hcursor hallows
  subst hcursor
  refine ⟨_, _, emits_inc_iff.mpr ⟨rfl, rfl⟩, .bump σ 1, σ.bump_cursor 1, hcell.bump hallows 1,
    fun s _ _ => ?_⟩
  rw [Fragment.effect_adding]
  rfl

/-- `dec` subtracts one from the cell under the cursor, if that is open. -/
theorem dec (hcell : T.Open pos) : Realizes T pos Generator.dec pos (Snapshot.add (-1)) := by
  intro σ hcursor hallows
  subst hcursor
  refine ⟨_, _, emits_dec_iff.mpr ⟨rfl, rfl⟩, .bump σ (-1), σ.bump_cursor (-1),
    hcell.bump hallows (-1), fun s _ _ => ?_⟩
  rw [Fragment.effect_adding]
  rfl

end Realizes

/-- A constant is added where its code adds it. -/
private theorem RealizesOn.add_of_effect (hcell : T.Open pos) {amount : Int}
    (hadds : ∀ ⦃σ : Session⦄ ⦃s : Snapshot⦄, σ.cursor = pos → T.Allows σ.knowledge.dirty →
      T.Fits σ s → p s → Fragment.effect (addingCode (Word.wrap amount)
        ((σ.bump (Word.wrap amount)).knowledge.isZero (σ.cursor + 1))) s
          (s.add (Word.wrap amount))) :
    RealizesOn T p pos (Generator.add amount) pos (Snapshot.add amount) := by
  intro σ hcursor hallows
  obtain ⟨code, σ', hemits, hderives, hσ', heffect⟩ := exists_emits_add σ amount
  refine ⟨code, σ', hemits, hderives, ?_, ?_,
    fun s hs hp => heffect s (hadds hcursor hallows hs hp)⟩
  · obtain rfl | rfl := hσ'
    · exact hcursor
    · exact (σ.bump_cursor _).trans hcursor
  · obtain rfl | rfl := hσ'
    · exact hallows
    · exact (hcursor ▸ hcell).bump hallows _

/-- However a constant is added, it is added. -/
theorem Realizes.add (hcell : T.Open pos) {amount : Int} (hadds : T.Adds pos amount) :
    Realizes T pos (Generator.add amount) pos (Snapshot.add amount) :=
  RealizesOn.add_of_effect hcell fun _ _ hcursor hallows hs _ => hadds hcursor hallows hs

/-- Any constant is added where the next cell is zero, whatever is relied on. -/
theorem RealizesOn.add (hcell : T.Open pos) (hnext : OnTape (pos + 1)) (amount : Int) :
    RealizesOn T (fun s => s.cells (pos + 1) = 0) pos (Generator.add amount) pos
      (Snapshot.add amount) := by
  refine add_of_effect hcell fun σ s hcursor hallows hs hzero => ?_
  obtain ⟨hs, htape, -⟩ := T.tidy_of_fits hallows hs
  have hpos : s.cursor = pos := hs.trans hcursor
  exact effect_addingCode _ (hs ▸ htape) (hpos ▸ hnext) fun _ => hpos ▸ hzero

namespace Realizes

/-! ### Operations on a cell -/

section Cell

variable (pos : Int) {cell : Int} (hcell : T.Open cell)

include hcell

/-- `incAt cell` adds one to the `cell`. -/
theorem incAt : Realizes T pos (Generator.incAt cell) cell
    fun s => .done ((s.set cell (s.cells cell + 1)).goTo cell) :=
  ((moveTo pos hcell.onTape).cons ((inc hcell).cons (nil cell))).congr fun s _ => by
    simp [Snapshot.add, Snapshot.put_goTo, UInt8.ofInt_one]

/-- `decAt cell` subtracts one from the `cell`. -/
theorem decAt : Realizes T pos (Generator.decAt cell) cell
    fun s => .done ((s.set cell (s.cells cell - 1)).goTo cell) :=
  ((moveTo pos hcell.onTape).cons ((dec hcell).cons (nil cell))).congr fun s _ => by
    simp [Snapshot.add, Snapshot.put_goTo, UInt8.ofInt_neg, UInt8.ofInt_one, UInt8.sub_eq_add_neg]

/-- `clearAt cell` sets the `cell` to zero. -/
theorem clearAt : Realizes T pos (Generator.clearAt cell) cell
    fun s => .done ((s.set cell 0).goTo cell) :=
  ((moveTo pos hcell.onTape).cons ((clear hcell).cons (nil cell))).congr fun s _ => by
    simp [Snapshot.put_goTo]

/-- `readAt cell` reads into the `cell`. -/
theorem readAt : Realizes T pos (Generator.readAt cell) cell fun s =>
    match nextVisible s.input with
    | none => .outOfInput { s.goTo cell with input := [] }
    | some (b, rest) => .done (({ s with input := rest }.set cell b).goTo cell) :=
  ((moveTo pos hcell.onTape).cons ((read hcell).cons (nil cell))).congr fun s _ => by
    simp only [Ending.andThen_done, Snapshot.read, Snapshot.goTo_input]
    cases nextVisible s.input <;> rfl

/-- `addAt cell amount` adds the `amount` to the `cell`. -/
theorem addAt {amount : Int} (hadds : T.Adds cell amount) :
    Realizes T pos (Generator.addAt cell amount) cell
      fun s => .done ((s.set cell (s.cells cell + UInt8.ofInt amount)).goTo cell) :=
  ((moveTo pos hcell.onTape).cons ((add hcell hadds).cons (nil cell))).congr fun s _ => by
    simp [Snapshot.add, Snapshot.put_goTo]

/-- `setAt cell value` sets the `cell` to the `value`, as it is cleared before the `value` is added.
-/
theorem setAt {value : Int} (hadds : T.Adds cell value) :
    Realizes T pos (Generator.setAt cell value) cell
      fun s => .done ((s.set cell (UInt8.ofInt value)).goTo cell) := by
  have hset := (clear hcell).cons ((add hcell hadds).cons (nil cell))
  exact ((moveTo pos hcell.onTape).cons (hset.cons (nil cell))).congr fun s _ => by
    simp [Snapshot.add, Snapshot.put_goTo]

end Cell

end Realizes

/-- A cell is set to any constant where the next cell is zero. -/
theorem RealizesOn.setAt (pos : Int) {cell : Int} (hcell : T.Open cell) (hnext : OnTape (cell + 1))
    (value : Int) :
    RealizesOn T (fun s => s.cells (cell + 1) = 0) pos (Generator.setAt cell value) cell
      fun s => .done ((s.set cell (UInt8.ofInt value)).goTo cell) := by
  have hne : cell + 1 ≠ cell := by omega
  have hset := cons_on (p := fun s => s.cursor = cell ∧ s.cells (cell + 1) = 0)
    (Realizes.clear hcell) ((RealizesOn.add hcell hnext value).cons (.nil cell)) (by
      rintro s _ ⟨hcursor, hzero⟩ ⟨⟩
      rwa [Snapshot.put, hcursor, Snapshot.cells_set_of_ne hne])
  refine (cons_on (p := fun s => s.cells (cell + 1) = 0) (Realizes.moveTo pos hcell.onTape)
    (hset.cons (.nil cell)) ?_).congr fun s _ hzero => ⟨hzero, ?_⟩
  · rintro s _ hzero ⟨⟩
    exact ⟨rfl, hzero⟩
  · simp [Snapshot.add, Snapshot.put_goTo]

namespace Realizes

/-! ### Loops that end -/

/-- Counting a cell down: `states v` is the snapshot in which it is still to be done `v` times. -/
theorem repeatBy (pos : Int) {count : Int} (hcell : T.Open count) {h : Snapshot → Snapshot}
    (hbody : Realizes T count body mid fun s => .done (h s))
    (states : Snapshot → UInt8 → Snapshot) (hcursor : ∀ s v, (states s v).cursor = count)
    (hcount : ∀ s v, (states s v).cells count = v)
    (hstart : ∀ s, s.cursor = count → states s (s.cells count) = s)
    (hpass : ∀ s v, v ≠ 0 → v ≤ s.cells count →
      ((h (states s v)).set count ((h (states s v)).cells count - 1)).goTo count =
        states s (v - 1)) :
    Realizes T pos (Generator.repeatBy count body) count
      fun s => .done (states (s.goTo count) 0) := by
  refine loopOn pos hcell.onTape ((hbody.cons ((decAt mid hcell).cons (nil count))).cons
    ((moveTo count hcell.onTape).cons (nil count))) (g := fun s => .done (states s 0))
      fun s hs => ?_
  -- The snapshot at hand is one of the states, so the countdown can start from it.
  suffices hloop : Effect.loop (Effect.of _) (states s (s.cells count)) (.done (states s 0)) by
    rwa [hstart s hs.cursor] at hloop
  refine Effect.loop_countdown_from (states s) (fun v => ?_) (fun v hv hle => ?_) UInt8.le_rfl
  · rw [Snapshot.here, hcursor, hcount]
  · rw [Effect.of_iff, ← hpass s v hv hle]
    rfl

end Realizes

/-- Doing something at most once, which clears the flag. It has to find what it asks for only if it
is done. -/
theorem RealizesOn.doOnceIf (pos : Int) {flag : Int} (hcell : T.Open flag)
    (hbody : RealizesOn T p flag body mid f) :
    RealizesOn T (fun s => s.cells flag ≠ 0 → p (s.goTo flag)) pos (Generator.doOnceIf flag body)
      flag fun s => if s.cells flag = 0 then .done (s.goTo flag)
        else (f (s.goTo flag)).andThen fun t => .done ((t.set flag 0).goTo flag) := by
  refine loopOn_of_kept (p := fun s => s.cells flag ≠ 0 → p s) pos hcell.onTape
    (hbody.cons ((Realizes.clearAt mid hcell).cons (Realizes.nil flag)))
    (g := fun s => if s.cells flag = 0 then .done s
      else (f s).andThen fun t => .done ((t.set flag 0).goTo flag)) (fun s t _ _ ht hagain => ?_)
      fun s hs hp => ?_
  · -- A flag that was cleared makes no further pass.
    obtain ⟨u, -, hu⟩ := Ending.andThen_eq_done_iff.mp ht
    cases hu
    simp at hagain
  have hhere : s.here = s.cells flag := by
    rw [Snapshot.here, hs.cursor]
  refine ⟨fun hne => hp (hhere ▸ hne), ?_⟩
  split
  · next hzero => exact .exit (hhere.trans hzero)
  · next hcell =>
    have hne : s.here ≠ 0 := hhere ▸ hcell
    cases hf : f s with
    | done t => exact .pass hne (congrArg _ hf) (.exit (by simp))
    | outOfInput t => exact .stop hne (congrArg _ hf) trivial
    | offTape => exact .stop hne (congrArg _ hf) trivial

/-- `doOnceIf flag` does its `body` once if the `flag` is set, and leaves the `flag` at zero. -/
theorem Realizes.doOnceIf (pos : Int) {flag : Int} (hcell : T.Open flag)
    (hbody : Realizes T flag body mid f) :
    Realizes T pos (Generator.doOnceIf flag body) flag fun s =>
      if s.cells flag = 0 then .done (s.goTo flag)
      else (f (s.goTo flag)).andThen fun t => .done ((t.set flag 0).goTo flag) :=
  (RealizesOn.doOnceIf pos hcell hbody).congr fun _ _ _ => ⟨fun _ => trivial, rfl⟩

end Steps

end Generator

end TapeMachine
