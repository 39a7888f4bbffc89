import TapeMachine.Proofs.ConditionEffect

/-!
# What printing a text does

The characters of a text are written from one register, which is changed from character to
character, and its blanks from another one that is set up before.

The module introduces:

* `Generator.Realizes.writeBytes`: what is written, whatever the registers hold;
* `Generator.Realizes.writeString`: a text is written, and only the two registers change.
-/

namespace TapeMachine.Generator

variable {T : Trust} {pos next : Int} {f : Snapshot → Ending}

/-- The register for printing is open to all steps. -/
private theorem isOpen_put : T.Open Register.put :=
  T.isOpen_of_not_isPad (by decide) (by decide)

/-- The register for blanks is open to all steps. -/
private theorem isOpen_putSpace : T.Open Register.putSpace :=
  T.isOpen_of_not_isPad (by decide) (by decide)

/-- The last character of a text that is no blank, given what was in its place before. -/
def lastVisible (last : UInt8) : Bytes → UInt8
  | [] => last
  | c :: rest => lastVisible (if c = blank then last else c) rest

/-- Where the cursor is after a text was written. -/
private def endOf (pos : Int) : Bytes → Int
  | [] => pos
  | c :: rest => endOf (if c = blank then Register.putSpace else Register.put) rest

/-- What comes out if the register is off by some amount: so are all characters but blanks. -/
private def typed (offset space : UInt8) (text : Bytes) : Bytes :=
  text.map fun c => if c = blank then space else c + offset

/-- With a blank at hand, a text is typed as it is. -/
private theorem typed_zero (text : Bytes) : typed 0 blank text = text := by
  have hsame : ∀ c : UInt8, (if c = blank then blank else c + 0) = c := by
    intro c
    split
    · next h => exact h.symm
    · exact UInt8.add_zero c
  simp only [typed, hsame, List.map_id']

/-- A text without blanks is typed as it is. -/
private theorem typed_of_not_contains {text : Bytes} (h : text.contains blank = false)
    (space : UInt8) : typed 0 space text = text := by
  have hsame : ∀ c ∈ text, (if c = blank then space else c + 0) = c := by
    intro c hc
    have hvisible : c ≠ blank := by
      rintro rfl
      rw [List.contains_iff_mem.mpr hc] at h
      cases h
    rw [if_neg hvisible, UInt8.add_zero]
  exact (List.map_congr_left hsame).trans (List.map_id' text)

/-- The bytes of a text, where the register may be off from what it is taken to hold. -/
theorem Realizes.writeBytes (hadds : ∀ amount, T.Adds Register.put amount) (last : UInt8)
    (text : Bytes) :
    Realizes T pos (Generator.writeBytes last.toNat text) (endOf pos text) fun s =>
      .done (((s.set Register.put (lastVisible last text + (s.cells Register.put - last))).goTo
        (endOf pos text)).emit (typed (s.cells Register.put - last) (s.cells Register.putSpace)
          text)) := by
  induction text generalizing pos last with
  | nil =>
    refine (nil pos).congr fun s hs => congrArg Ending.done (Snapshot.ext hs.cursor ?_ rfl ?_)
    · have hsame : last + (s.cells Register.put - last) = s.cells Register.put := by grind
      simp [lastVisible, hsame]
    · simp [typed]
  | cons c rest ih =>
    unfold Generator.writeBytes
    split
    · next hblank =>
      have hspace : OnTape Register.putSpace := by decide
      have hfirst := (Realizes.moveTo (T := T) pos hspace).cons ((write _).cons (nil _))
      simp only [endOf, lastVisible, if_pos hblank]
      refine (hfirst.append (ih last)).congr fun s _ =>
        congrArg Ending.done (Snapshot.ext rfl ?_ rfl ?_)
      · simp [Snapshot.goTo, Snapshot.emit]
      · simp [typed, hblank, Snapshot.here]
    · next hvisible =>
      have hput : OnTape Register.put := by decide
      have hfirst := (Realizes.moveTo pos hput).cons ((add isOpen_put
        (hadds (c.toNat - last.toNat))).cons ((write _).cons (nil _)))
      simp only [endOf, lastVisible, if_neg hvisible]
      refine (hfirst.append (ih c)).congr fun s _ => ?_
      -- The register is off by the same amount as before.
      have hstep : UInt8.ofInt (c.toNat - last.toNat) = c - last := by
        rw [ofInt_sub, ofInt_toNat, ofInt_toNat]
      have hwritten :
          s.cells Register.put + (c - last) = c + (s.cells Register.put - last) := by
        grind
      have hoffset : c + (s.cells Register.put - last) - c = s.cells Register.put - last := by grind
      refine congrArg Ending.done (Snapshot.ext rfl ?_ rfl ?_)
      · simp [Snapshot.put_goTo, hstep, hwritten, hoffset]
      · simp [Snapshot.put_goTo, typed, hvisible, Snapshot.here, hstep, hoffset, hwritten]

/-! ### Texts -/

/-- Setting up blanks, where both registers are known to be zero. -/
private theorem effect_of_loadBlanks {σ : Session} (hallows : T.Allows σ.knowledge.dirty)
    (hspace : σ.known Register.putSpace = some 0) (hput : σ.known Register.put = some 0) :
    ∃ code σ', Emits σ loadBlanks code σ' ∧ Derives σ code σ' ∧ σ'.cursor = Register.put ∧
      T.Allows σ'.knowledge.dirty ∧ ∀ {s : Snapshot}, s.cursor = σ.cursor → OnTape s.cursor →
        s.cells Register.putSpace = 0 → s.cells Register.put = 0 → s.cells Register.putPad = 0 →
          code.effect s (.done (((s.set Register.putSpace blank).set Register.put blank).goTo
            Register.put)) := by
  have hemits := (emits_loadBlanks_iff (σ := σ)).mpr ⟨rfl, rfl⟩
  refine ⟨_, _, hemits, derives_of_loadBlanks hemits hspace hput, rfl,
    isOpen_put.allows _ (isOpen_putSpace.allows _ hallows), fun {s} hcursor htape hs hs' hpad => ?_⟩
  have hsum : s.cursor + (Register.putPad - σ.cursor) = Register.putPad := by
    rw [hcursor]
    omega
  -- Both registers are zero, so that adding 32 leaves a blank in them.
  have hblanks := effect_blanksCode (s := s.goTo Register.putPad) rfl hpad
  have hblank : (0 : UInt8) + 32 = blank := by decide
  rw [Snapshot.goTo_cells, hs, hs', hblank] at hblanks
  rw [Fragment.effect_append, Fragment.effect_append, Effect.seq_assoc,
    Fragment.moving_seq_iff htape hsum (by decide)]
  exact Effect.seq_of_done hblanks (Fragment.effect_moving (show OnTape Register.putPad by decide)
    (show OnTape (Register.putPad + (Register.put - Register.putPad)) by decide))

/-- Setting up blanks, after both registers were cleared. -/
private theorem realizes_blanks (hpad : T.Relied Register.putPad) {rest : List (Gen Fragment)}
    (hrest : Realizes T Register.put (sequence rest) next f) :
    Realizes T pos (sequence (clearAt Register.putSpace :: clearAt Register.put :: loadBlanks ::
      rest)) next
      fun s => f (((s.set Register.putSpace blank).set Register.put blank).goTo Register.put) := by
  intro σ hcursor hallows
  obtain ⟨a, σ₁, ha, hderives₁, hcursor₁, hallows₁, heffect₁⟩ :=
    Realizes.clearAt pos isOpen_putSpace hcursor hallows
  obtain ⟨b, σ₂, hb, hderives₂, hcursor₂, hallows₂, heffect₂⟩ :=
    Realizes.clearAt _ isOpen_put hcursor₁ hallows₁
  -- `Realizes` does not tell what is known after a step, so the steps are put together by hand.
  obtain ⟨hspace, hput⟩ := known_of_emits_clearAt_both ha hb
  obtain ⟨c, σ₃, hc, hderives₃, hcursor₃, hallows₃, heffect₃⟩ :=
    effect_of_loadBlanks hallows₂ hspace hput
  obtain ⟨d, σ₄, hd, hderives₄, hnext, hallows₄, heffect₄⟩ := hrest hcursor₃ hallows₃
  refine ⟨a ++ (b ++ (c ++ d)), σ₄, ?_,
    hderives₁.append (hderives₂.append (hderives₃.append hderives₄)),
    hnext, hallows₄, fun s hs _ => ?_⟩
  · simp only [emits_sequence_cons_iff]
    exact ⟨a, _, σ₁, ha, ⟨b, _, σ₂, hb, ⟨c, d, σ₃, hc, hd, rfl⟩, rfl⟩, rfl⟩
  · have hs₁ := T.fits_of_effect hderives₁ hallows₁ hs (heffect₁ hs trivial)
    have hs₂ := T.fits_of_effect hderives₂ hallows₂ hs₁ (heffect₂ hs₁ trivial)
    obtain ⟨hcursor, htape, hzero⟩ := T.tidy_of_fits hallows₂ hs₂
    have hblanks := heffect₃ hcursor (hcursor ▸ htape) (by simp) (by simp) (hzero hpad)
    have hs₃ := T.fits_of_effect hderives₃ hallows₃ hs₂ hblanks
    have hrest := heffect₄ hs₃ trivial
    have hsame : ((((((s.set Register.putSpace 0).goTo Register.putSpace).set Register.put 0).goTo
        Register.put).set Register.putSpace blank).set Register.put blank).goTo Register.put =
          ((s.set Register.putSpace blank).set Register.put blank).goTo Register.put := by
      refine Snapshot.ext rfl (funext fun p => ?_) rfl rfl
      simp only [Snapshot.goTo_cells, Snapshot.set_cells, Function.update_apply]
      grind
    rw [hsame] at hrest
    rw [Fragment.effect_append, Fragment.effect_append, Fragment.effect_append]
    exact Effect.seq_of_done (heffect₁ hs trivial) (Effect.seq_of_done (heffect₂ hs₁ trivial)
      (Effect.seq_of_done hblanks (hsame ▸ hrest)))

/-- What a text leaves: two registers have changed, and it has been written. -/
def printed (text : Bytes) (s : Snapshot) : Snapshot :=
  let space := if text.contains blank then blank else 0
  ((s.set Register.putSpace space).set Register.put (lastVisible space text)).emit text

/-- A text is written. -/
theorem Realizes.writeString (hadds : ∀ amount, T.Adds Register.put amount)
    (hpad : T.Relied Register.putPad) (htape : OnTape pos) {text : Bytes} (htext : text ≠ []) :
    Realizes T pos (Generator.writeString text) pos fun s => .done (printed text s) := by
  have hempty : text.isEmpty = false := by
    rwa [List.isEmpty_eq_false_iff]
  simp only [Generator.writeString, hempty, if_false, Bool.false_eq_true]
  refine noted _ ?_
  cases hblank : text.contains blank with
  | true =>
    have hwrite : Realizes T Register.put (Generator.writeBytes blank.toNat text) _ _ :=
      Realizes.writeBytes hadds blank text
    refine ((realizes_blanks hpad (hwrite.cons (nil _))).saveCursor htape).congr fun s hs => ?_
    simp only [printed, hblank, if_true]
    refine congrArg Ending.done (Snapshot.ext hs.cursor.symm ?_ rfl ?_)
    · simp
    · simp [typed_zero]
  -- Without a blank in the text there is no need to set one up.
  | false =>
    have hwrite : Realizes T Register.put (Generator.writeBytes 0 text) _ _ :=
      Realizes.writeBytes hadds 0 text
    refine (((Realizes.clearAt pos isOpen_putSpace).cons ((Realizes.clearAt _ isOpen_put).cons
      ((nil _).cons (hwrite.cons (nil _))))).saveCursor htape).congr fun s hs => ?_
    simp only [printed, hblank, if_false, Bool.false_eq_true]
    refine congrArg Ending.done (Snapshot.ext hs.cursor.symm ?_ rfl ?_)
    · simp
    · simp [typed_of_not_contains hblank]

end TapeMachine.Generator
