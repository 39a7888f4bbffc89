import TapeMachine.Proofs.KnowledgeSoundness

/-!
# What generated code relies on

The code of a step is right only on tapes that are as the session takes them to be. How much of this
is relied on differs: some code needs all that the session knows, some needs a pad or two to be
zero, and code that adds no constants beyond the smallest ones needs nothing and works on every
tape.

What is relied on has to last: code that follows the rules by which all code is put together keeps
it, as long as it does not make the pads dirty that are relied on. Inside a loop only pads can be
relied on, since nothing else is known at the start of each pass.

The module introduces:

* `Generator.Trust`: what code relies on, and that it lasts;
* `Generator.Trust.inKnowledge`: all that the session knows, with no pad dirty;
* `Generator.Trust.inPads`, `Generator.Trust.nothing`: some pads only, whatever else the tape holds;
* `Generator.Trust.Open`: the cells that may be written;
* `Generator.Trust.Adds`: where a constant can be added.
-/

namespace TapeMachine

/-- Whether the cursor is on a cell and some pads are zero. -/
structure Snapshot.TidyOn (pads : Int → Prop) (pos : Int) (s : Snapshot) : Prop where
  cursor : s.cursor = pos
  onTape : OnTape pos
  pad : ∀ {pad}, pads pad → s.cells pad = 0

/-- Whether the cursor is on a cell and all pads are zero. -/
abbrev Snapshot.Tidy (pos : Int) (s : Snapshot) : Prop :=
  s.TidyOn (Register.isPad · = true) pos

/-- Whether a cell can be set to any constant: it is no pad, and the tape has a cell behind it. -/
structure Register.Usable (cell : Int) : Prop where
  onTape : OnTape cell
  not_isPad : Register.isPad cell = false
  next_onTape : OnTape (cell + 1)

instance (cell : Int) : Decidable (Register.Usable cell) :=
  decidable_of_iff (OnTape cell ∧ Register.isPad cell = false ∧ OnTape (cell + 1))
    ⟨fun h => ⟨h.1, h.2.1, h.2.2⟩, fun h => ⟨h.onTape, h.not_isPad, h.next_onTape⟩⟩

/-- Setting a cell that is none of the pads, or to zero. -/
theorem Snapshot.TidyOn.set {pads : Int → Prop} {pos : Int} {s : Snapshot} (h : s.TidyOn pads pos)
    {cell : Int} {b : UInt8} (hcell : pads cell → b = 0) : (s.set cell b).TidyOn pads pos := by
  refine ⟨h.cursor, h.onTape, fun {pad} hpad => ?_⟩
  by_cases hne : pad = cell
  · rw [hne, Snapshot.cells_set_self]
    exact hcell (hne ▸ hpad)
  · rw [Snapshot.cells_set_of_ne hne]
    exact h.pad hpad

namespace Generator

variable {σ σ' : Session} {s t : Snapshot} {code : Fragment} {pads : Int → Prop} {cell : Int}

/-- What code relies on. -/
structure Trust where
  /-- The pads that are relied on to be zero. -/
  Relied : Int → Prop
  /-- Whether code can be generated with these pads dirty. -/
  Allows : List Int → Prop
  /-- Whether a session is right about a snapshot, as far as that is relied on. -/
  Fits : Session → Snapshot → Prop
  /-- The pads are zero in particular. -/
  tidy_of_fits : ∀ {σ : Session} {s : Snapshot}, Allows σ.knowledge.dirty → Fits σ s →
    s.TidyOn Relied σ.cursor
  /-- At the start of a pass of a loop nothing else is relied on. -/
  fits_of_tidy : ∀ {σ : Session} {s : Snapshot}, Allows σ.knowledge.dirty →
    s.TidyOn Relied σ.cursor →
    Fits { σ with knowledge := σ.knowledge.enter σ.cursor } s
  /-- What is relied on lasts. -/
  fits_of_effect : ∀ {σ σ' : Session} {code : Fragment} {s t : Snapshot}, Derives σ code σ' →
    Allows σ'.knowledge.dirty → Fits σ s → code.effect s (.done t) → Fits σ' t

/-! ### Relying on what is known -/

/-- Where no pad is dirty, all pads are zero. -/
theorem Agrees.tidy {start : Snapshot} (h : Agrees σ start s) (hclean : σ.knowledge.dirty = []) :
    s.Tidy σ.cursor := by
  refine ⟨h.cursor, h.cursor ▸ h.onTape, fun hpad => ?_⟩
  refine h.pad (Knowledge.isCleanPad_iff.mpr ⟨hpad, ?_⟩)
  rw [hclean]
  exact List.not_mem_nil

/-- Relying on all that the session knows, as long as no pad is dirty. -/
def Trust.inKnowledge : Trust where
  Relied := (Register.isPad · = true)
  Allows dirty := dirty = []
  Fits σ s := ∃ start, Agrees σ start s
  tidy_of_fits := by
    rintro σ s hclean ⟨start, h⟩
    exact h.tidy hclean
  fits_of_tidy := by
    intro σ s _ h
    have hsuits : Suits σ s :=
      ⟨h.cursor, h.cursor ▸ h.onTape, fun hpad => h.pad (Knowledge.isPad_of_isCleanPad hpad)⟩
    exact ⟨s, Agrees.enter hsuits⟩
  fits_of_effect := by
    rintro σ σ' code s t hderives hclean ⟨start, h⟩ heffect
    exact ⟨start, hderives.agrees hclean h heffect⟩

/-! ### Relying on some pads -/

/-- Whether pads can be relied on while some pads are dirty: they are pads indeed, and not among the
dirty ones. -/
def Spared (pads : Int → Prop) (dirty : List Int) : Prop :=
  ∀ pad, pads pad → Register.isPad pad = true ∧ pad ∉ dirty

/-- Pads that are spared later were spared before. -/
theorem Spared.of_suffix {before after : List Int} (h : Spared pads after)
    (hsuffix : before <:+ after) : Spared pads before :=
  fun pad hpad => ⟨(h pad hpad).1, fun hmem => (h pad hpad).2 (hsuffix.mem hmem)⟩

/-- A cell that gets written is none of the pads, or it would be dirty. -/
theorem Spared.not_of_learn {value : Option Int} {k : Knowledge}
    (h : Spared pads (k.learn cell value).dirty) : ¬ pads cell := by
  intro hpad
  obtain ⟨hisPad, hclean⟩ := h cell hpad
  rw [Knowledge.dirty_learn, if_pos hisPad] at hclean
  exact hclean List.mem_insert_self

/-- Code that follows the rules leaves pads at zero that it does not make dirty: it counts on them
at most, whatever other cells hold. -/
theorem Derives.tidyOn (h : Derives σ code σ') (hspared : Spared pads σ'.knowledge.dirty)
    (hs : s.TidyOn pads σ.cursor) (heffect : code.effect s (.done t)) :
    t.TidyOn pads σ'.cursor := by
  -- A case for each rule: a cell that is written is none of the pads, or it would be dirty.
  induction h generalizing s t with
  | record _ hcursor _ =>
    cases heffect
    exact hcursor ▸ hs
  | append hfirst hsecond ih₁ ih₂ =>
    rw [Fragment.effect_append] at heffect
    obtain ⟨mid, heffect₁, heffect₂⟩ := Effect.seq_done_iff.mp heffect
    exact ih₂ hspared (ih₁ (hspared.of_suffix hsecond.dirty_suffix) hs heffect₁) heffect₂
  | noted note _ ih =>
    rw [Fragment.effect_noted] at heffect
    exact ih hspared hs heffect
  | @move σ pos htape =>
    have hsum : s.cursor + (pos - σ.cursor) = pos := by
      rw [hs.cursor]
      omega
    have hmove := Fragment.effect_moving (hs.cursor ▸ hs.onTape) (hsum.symm ▸ htape)
    obtain rfl := Ending.done.inj (Fragment.effect_isFunctional _ hmove heffect)
    rw [hsum]
    exact ⟨rfl, htape, hs.pad⟩
  | write =>
    rw [Fragment.effect_write] at heffect
    cases heffect
    exact ⟨hs.cursor, hs.onTape, hs.pad⟩
  | dump =>
    rw [Fragment.effect_dump] at heffect
    cases heffect
    exact hs
  | read σ =>
    rw [Fragment.effect_read, Effect.of_iff] at heffect
    obtain ⟨b, rest, -, rfl⟩ := Snapshot.eq_of_read heffect
    have hrest : { s with input := rest }.TidyOn pads σ.cursor := ⟨hs.cursor, hs.onTape, hs.pad⟩
    exact hrest.set fun hpad => absurd (hs.cursor ▸ hpad) hspared.not_of_learn
  | clear σ =>
    rw [Fragment.effect_clear] at heffect
    cases heffect
    exact hs.set fun _ => rfl
  | bump σ amount =>
    rw [Fragment.effect_adding] at heffect
    cases heffect
    rw [σ.bump_knowledge] at hspared
    rw [σ.bump_cursor]
    exact hs.set fun hpad => absurd (hs.cursor ▸ hpad) hspared.not_of_learn
  | constant σ amount =>
    rw [Fragment.effect_constant] at heffect
    rw [σ.bump_knowledge] at hspared
    rw [σ.bump_cursor]
    have hput : ∀ b, (s.put b).TidyOn pads σ.cursor := fun b =>
      hs.set fun hpad => absurd (hs.cursor ▸ hpad) hspared.not_of_learn
    -- The next cell may be one of the pads, and it is zero when it has been counted down.
    obtain rfl | ⟨-, step, rfl⟩ :=
      cases_of_effect_addingCode amount (hs.cursor ▸ hs.onTape) heffect
    · exact hput _
    · exact (hput _).set fun _ => rfl
  | @blanks σ hcursor hspace hput =>
    have hcounted := effect_blanksCode_of_pad (hs.cursor.trans hcursor)
    obtain rfl := Ending.done.inj (Fragment.effect_isFunctional _ hcounted heffect)
    have hno : ∀ {cell}, Register.isPad cell = false → ¬ pads cell := fun hcell hpad => by
      rw [(hspared _ hpad).1] at hcell
      cases hcell
    exact ((hs.set fun hpad => absurd hpad (hno (by decide))).set
      fun hpad => absurd hpad (hno (by decide))).set fun _ => rfl
  | @loop σ σ₁ knowledge body hbody hcursor hleave ih =>
    rw [Fragment.effect_loop] at heffect
    have hdirty := (Knowledge.leave_frame hbody.frame.2 hleave).2
    have hpass : ∀ a b : Snapshot, a.TidyOn pads σ.cursor → a.here ≠ 0 → body.effect a (.done b) →
        b.TidyOn pads σ.cursor :=
      fun a b ha _ hb => hcursor ▸ ih (hdirty ▸ hspared) ha hb
    have hend := (Effect.loop_invariant (Snapshot.TidyOn pads σ.cursor) hpass heffect hs).1
    exact hcursor ▸ hend

/-- Relying on some pads only. -/
def Trust.inPads (pads : Int → Prop) : Trust where
  Relied := pads
  Allows := Spared pads
  Fits σ s := s.TidyOn pads σ.cursor
  tidy_of_fits _ h := h
  fits_of_tidy _ h := h
  fits_of_effect hderives hspared h heffect := hderives.tidyOn hspared h heffect

/-- Relying on nothing: code that is right on every tape. -/
def Trust.nothing : Trust :=
  .inPads fun _ => False

namespace Trust

variable (T : Trust)

/-- Without trust, any pads may be dirty. -/
theorem allows_nothing (dirty : List Int) : nothing.Allows dirty :=
  fun _ hpad => hpad.elim

/-- Without trust, only the cursor matters. -/
theorem fits_nothing (hcursor : s.cursor = σ.cursor) (htape : OnTape σ.cursor) : nothing.Fits σ s :=
  ⟨hcursor, htape, fun hpad => hpad.elim⟩

variable {T}

/-- What fits has the cursor of the session. -/
theorem Fits.cursor (h : T.Fits σ s) (hallows : T.Allows σ.knowledge.dirty) :
    s.cursor = σ.cursor :=
  (T.tidy_of_fits hallows h).cursor

/-! ### Cells that may be written -/

/-- Whether a cell may be written: that does not make a pad dirty that is relied on. -/
structure Open (T : Trust) (cell : Int) : Prop where
  onTape : OnTape cell
  allows : ∀ ⦃k : Knowledge⦄ (value : Option Int), T.Allows k.dirty →
    T.Allows (k.learn cell value).dirty

/-- An addition to an open cell makes no pad dirty that is relied on. -/
theorem Open.bump (h : T.Open σ.cursor) (hallows : T.Allows σ.knowledge.dirty) (amount : Int) :
    T.Allows (σ.bump amount).knowledge.dirty := by
  rw [σ.bump_knowledge]
  exact h.allows _ hallows

/-- Cells that are no pads may be written, whatever is relied on. -/
theorem isOpen_of_not_isPad (T : Trust) (htape : OnTape cell) (hpad : Register.isPad cell = false) :
    T.Open cell := by
  refine ⟨htape, fun k value h => ?_⟩
  rwa [Knowledge.dirty_learn_of_not_isPad hpad]

/-- Pads may be written, too, if they are not relied on. -/
theorem isOpen_inPads (htape : OnTape cell) (hcell : ¬ pads cell) : (inPads pads).Open cell := by
  refine ⟨htape, fun k value h pad hpad => ⟨(h pad hpad).1, fun hmem => ?_⟩⟩
  rw [Knowledge.dirty_learn] at hmem
  split at hmem
  · obtain rfl | hmem := List.mem_insert_iff.mp hmem
    · exact hcell hpad
    · exact (h pad hpad).2 hmem
  · exact (h pad hpad).2 hmem

/-- Without trust, all cells of the tape are open. -/
theorem isOpen_nothing (htape : OnTape cell) : nothing.Open cell :=
  isOpen_inPads htape fun hpad => hpad

/-! ### Constants -/

/-- Whether the code of a constant, which depends on what is known of the next cell, adds the
constant to a cell. -/
def Adds (T : Trust) (cell amount : Int) : Prop :=
  ∀ ⦃σ : Session⦄ ⦃s : Snapshot⦄, σ.cursor = cell → T.Allows σ.knowledge.dirty → T.Fits σ s →
    Fragment.effect (addingCode (Word.wrap amount)
      ((σ.bump (Word.wrap amount)).knowledge.isZero (σ.cursor + 1))) s (s.add (Word.wrap amount))

/-- Small constants can be added everywhere, as their code does not depend on what is known. -/
theorem adds_of_small (T : Trust) (cell : Int) {amount : Int}
    (hsmall : (Word.wrap amount).natAbs ≤ 7) : T.Adds cell amount := by
  intro σ s _ _ _
  rw [addingCode_of_small _ hsmall, Fragment.effect_adding]
  rfl

/-- One can be added to any cell. -/
theorem adds_one (T : Trust) (cell : Int) : T.Adds cell 1 :=
  T.adds_of_small cell (by decide)

/-- Ten can be added everywhere, too: counting three times three would take more symbols. -/
theorem adds_ten (T : Trust) (cell : Int) : T.Adds cell 10 := by
  intro σ s _ _ _
  have hten : Word.wrap 10 = 10 := by decide
  rw [hten, addingCode_ten, Fragment.effect_adding]
  rfl

/-- A pad can be relied on as the counter of the constants of the cell before it. -/
theorem adds_inPads (hpad : pads (cell + 1)) (hnext : OnTape (cell + 1)) (amount : Int) :
    (inPads pads).Adds cell amount := by
  rintro σ s rfl - ⟨hcursor, htape, hzero⟩
  refine effect_addingCode _ (hcursor ▸ htape) (hcursor ▸ hnext) fun _ => ?_
  rw [hcursor]
  exact hzero hpad

/-- What is known of the next cell can be relied on. -/
theorem adds_inKnowledge (hnext : OnTape (cell + 1)) (amount : Int) :
    inKnowledge.Adds cell amount := by
  rintro σ s rfl - ⟨start, hs⟩
  exact effect_addingCode _ hs.onTape (hs.cursor ▸ hnext) hs.next_eq_zero

end Trust

end Generator

section Usable

variable {cell : Int} (h : Register.Usable cell)
include h

/-- A usable register is open to all steps. -/
theorem Register.Usable.isOpen (T : Generator.Trust) : T.Open cell :=
  T.isOpen_of_not_isPad h.onTape h.not_isPad

/-- Any `amount` can be added to a usable register. -/
theorem Register.Usable.adds (amount : Int) : Generator.Trust.inKnowledge.Adds cell amount :=
  Generator.Trust.adds_inKnowledge h.next_onTape amount

end Usable

end TapeMachine
