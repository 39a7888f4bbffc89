import TapeMachine.Proofs.KnowledgeSoundness

/-!
# Constants and the cells they borrow

A constant that is added by factors borrows the next cell as a counter. That is right as long as the
cell is zero whenever control comes to the constant, and the session decides it once, when it
generates the constant. Inside a loop it relies on pads that are not dirty, but a later part of the
body may still write the pad, and then the cell is not zero in the next pass.

The pads that a directive makes dirty are foreseen if the session generates the same code when they
are taken for dirty before the directive. Then no loop makes a pad dirty, the session is right about
all cells, and constants do nothing but add their amount.

The module introduces:

* `Fragment.spelledOut`: code with every constant written as a plain run of symbols;
* `Fragment.Visits`: the snapshots at which a run comes to the code of a constant;
* `Generator.Derives.exists_constantAt`: what a session has known of the place of a constant;
* `Generator.Derives.effect_spelledOut_iff`: code that makes no pad dirty does what it does when it
  is spelled out;
* `Generator.Foreseen`: code that does not depend on which pads get dirty later on;
* `Generator.effect_of_visits_iff`: when constants do nothing but add their amount.
-/

namespace TapeMachine

variable {s t u : Snapshot} {amount : Int} {code first second inner body : Fragment}

/-! ### Plain runs -/

mutual

/-- An operation with every constant in it written as a plain run. -/
def Code.spelledOut : Code → Fragment
  | .loop body => [.loop (Fragment.spelledOut body)]
  | .noted note body => [.noted note (Fragment.spelledOut body)]
  | .constant amount _ => Fragment.adding amount
  | code => [code]

/-- A fragment with every constant in it written as a plain run. -/
def Fragment.spelledOut : List Code → Fragment
  | [] => []
  | code :: rest => code.spelledOut ++ Fragment.spelledOut rest

end

namespace Fragment

/-- Code in a row is spelled out in a row. -/
theorem spelledOut_append (first second : Fragment) :
    spelledOut (first ++ second) = spelledOut first ++ spelledOut second := by
  induction first with
  | nil => rfl
  | cons code rest ih => rw [List.cons_append, spelledOut, spelledOut, ih, List.append_assoc]

/-- There are no constants in a move. -/
theorem spelledOut_moving (amount : Int) : spelledOut (moving amount) = moving amount := by
  unfold moving
  split <;> rfl

/-- There are no constants in a plain addition. -/
theorem spelledOut_adding (amount : Int) : spelledOut (adding amount) = adding amount := by
  unfold adding
  split <;> rfl

/-- A constant is spelled out as a plain addition. -/
theorem spelledOut_constant (amount : Int) (body : Fragment) :
    spelledOut [.constant amount body] = adding amount := by
  rw [spelledOut, Code.spelledOut, spelledOut, List.append_nil]

/-! ### Coming to a constant -/

/-- Whether code that is run from a snapshot `s` comes, at a snapshot `u`, to the code `body` of a
constant. -/
inductive Visits : Fragment → Snapshot → Int → Fragment → Snapshot → Prop
  | here {s : Snapshot} {amount : Int} {body rest : Fragment} :
      Visits (.constant amount body :: rest) s amount body s
  | noted {s u : Snapshot} {amount : Int} {note : Bytes} {inner body rest : Fragment}
      (hinner : Visits inner s amount body u) : Visits (.noted note inner :: rest) s amount body u
  | behind {s t u : Snapshot} {amount : Int} {code : Code} {body rest : Fragment}
      (hcode : effect [code] s (.done t)) (hrest : Visits rest t amount body u) :
      Visits (code :: rest) s amount body u
  | firstPass {s u : Snapshot} {amount : Int} {inner body rest : Fragment} (hcell : s.here ≠ 0)
      (hinner : Visits inner s amount body u) : Visits (.loop inner :: rest) s amount body u
  | laterPass {s t u : Snapshot} {amount : Int} {inner body rest : Fragment} (hcell : s.here ≠ 0)
      (hpass : effect inner s (.done t)) (hloop : Visits [.loop inner] t amount body u) :
      Visits (.loop inner :: rest) s amount body u

/-- Code in a row comes to a constant in its `first` part, or behind it. -/
theorem visits_append (h : Visits (first ++ second) s amount body u) :
    Visits first s amount body u ∨
      ∃ t, first.effect s (.done t) ∧ Visits second t amount body u := by
  induction first generalizing s with
  | nil => exact Or.inr ⟨s, rfl, h⟩
  | cons code rest ih =>
    cases h with
    | here => exact Or.inl .here
    | noted hinner => exact Or.inl (.noted hinner)
    | firstPass hcell hinner => exact Or.inl (.firstPass hcell hinner)
    | laterPass hcell hpass hloop => exact Or.inl (.laterPass hcell hpass hloop)
    | behind hcode hrest =>
      refine (ih hrest).imp (.behind hcode) fun ⟨t, heffect, hsecond⟩ => ⟨t, ?_, hsecond⟩
      rw [effect_cons]
      exact Effect.seq_of_done hcode heffect

/-- A run comes to the constants of code that is behind other code. -/
theorem visits_append_right (hfirst : first.effect s (.done t))
    (h : Visits second t amount body u) : Visits (first ++ second) s amount body u := by
  induction first generalizing s with
  | nil =>
    cases hfirst
    exact h
  | cons code rest ih =>
    rw [effect_cons] at hfirst
    obtain ⟨mid, hcode, hrest⟩ := Effect.seq_done_iff.mp hfirst
    exact .behind hcode (ih hrest)

/-- A note comes to the constants inside it. -/
theorem visits_noted {note : Bytes} (h : Visits [.noted note inner] s amount body u) :
    Visits inner s amount body u := by
  cases h with
  | noted hinner => exact hinner
  | behind _ hrest => cases hrest

/-- A constant comes to itself at once. -/
theorem visits_constant {amount' : Int} {body' : Fragment}
    (h : Visits [.constant amount body] s amount' body' u) :
    amount' = amount ∧ body' = body ∧ u = s := by
  cases h with
  | here => exact ⟨rfl, rfl, rfl⟩
  | behind _ hrest => cases hrest

/-- A run that comes to a constant inside a loop does so in a pass that starts from a snapshot with
every property that passes keep. -/
theorem visits_loop (inv : Snapshot → Prop)
    (hinv : ∀ s t, inv s → s.here ≠ 0 → inner.effect s (.done t) → inv t)
    (h : Visits [.loop inner] s amount body u) (hs : inv s) :
    ∃ t, inv t ∧ Visits inner t amount body u := by
  generalize hcode : [Code.loop inner] = code at h
  induction h with
  | here => cases hcode
  | noted => cases hcode
  | behind _ hrest _ =>
    cases hcode
    cases hrest
  | firstPass _ hinner _ =>
    cases hcode
    exact ⟨_, hs, hinner⟩
  | laterPass hcell hpass _ ih =>
    cases hcode
    exact ih (hinv _ _ hs hcell hpass) rfl

end Fragment

mutual

/-- There is no constant in code that was spelled out. -/
private theorem Code.not_visits_spelledOut : (code : Code) → {s : Snapshot} →
    ¬ Fragment.Visits code.spelledOut s amount body u
  | .loop inner, s, h => by
    obtain ⟨t, -, hinner⟩ :=
      Fragment.visits_loop (fun _ => True) (fun _ _ _ _ _ => trivial) h trivial
    exact Fragment.not_visits_spelledOut inner hinner
  | .noted _ inner, s, h => Fragment.not_visits_spelledOut inner (Fragment.visits_noted h)
  | .constant amount _, s, h => by
    rw [Code.spelledOut, Fragment.adding] at h
    split at h
    · cases h
    · obtain _ | _ | ⟨-, ⟨⟩⟩ := h
  | .move _, _, .behind _ hrest => nomatch hrest
  | .add _, _, .behind _ hrest => nomatch hrest
  | .write, _, .behind _ hrest => nomatch hrest
  | .read, _, .behind _ hrest => nomatch hrest
  | .dump, _, .behind _ hrest => nomatch hrest

/-- Code that is spelled out has no constants that a run could come to. -/
theorem Fragment.not_visits_spelledOut : (code : List Code) → {s : Snapshot} →
    ¬ Fragment.Visits (Fragment.spelledOut code) s amount body u
  | [], _, h => nomatch h
  | code :: rest, s, h => by
    obtain hcode | ⟨t, -, hrest⟩ := Fragment.visits_append h
    · exact Code.not_visits_spelledOut code hcode
    · exact Fragment.not_visits_spelledOut rest hrest

end

namespace Generator

open Fragment

variable {σ σ' : Session} {start : Snapshot}

/-! ### What is known where a constant is added -/

/-- Whether the code of a constant was generated in a session that has the cursor where a snapshot
has it. -/
structure ConstantAt (σ : Session) (u : Snapshot) (amount : Int) (body : Fragment) : Prop where
  cursor : u.cursor = σ.cursor
  onTape : OnTape σ.cursor
  body_eq : body = addingCode amount ((σ.bump amount).knowledge.isZero (σ.cursor + 1))
  length : σ.cursor + (Fragment.text body).length ≤ Register.lastPosition

/-- The code of a constant does nothing but add it exactly if it is a plain run or the next cell is
zero. -/
theorem ConstantAt.effect_iff (h : ConstantAt σ u amount body) :
    body.effect u (.done (u.put (u.here + UInt8.ofInt amount))) ↔
      body = Fragment.adding amount ∨ u.cells (u.cursor + 1) = 0 := by
  obtain ⟨hcursor, htape, rfl, hlength⟩ := h
  exact effect_addingCode_iff amount (hcursor ▸ htape) (by rwa [hcursor])

/-- A session that is right about the cells adds constants. -/
theorem ConstantAt.effect_of_agrees (h : ConstantAt σ u amount body) (hu : Agrees σ start u) :
    body.effect u (.done (u.put (u.here + UInt8.ofInt amount))) := by
  apply h.effect_iff.mpr
  obtain ⟨-, -, rfl, -⟩ := h
  exact (addingCode_cases amount _).imp_right fun ⟨hzero, _⟩ => hu.next_eq_zero hzero

/-- The cursor is where the session says whenever code has been run. -/
theorem Derives.cursor_of_effect (h : Derives σ code σ') (htape : OnTape σ.cursor)
    (hlength : σ.cursor + (Fragment.text code).length ≤ Register.lastPosition)
    (hs : s.cursor = σ.cursor) (heffect : code.effect s (.done t)) : t.cursor = σ'.cursor :=
  (Source.tracks_of_walk _ (h.leads htape hlength) hs heffect).2 t rfl

/-- When a run comes to the code of a constant, the cursor is where it was in the session that
generated the constant; and if the whole code makes no pad dirty and the session was right about the
cells in the beginning, it is right about them there. -/
theorem Derives.exists_constantAt (h : Derives σ code σ') (htape : OnTape σ.cursor)
    (hlength : σ.cursor + (Fragment.text code).length ≤ Register.lastPosition)
    (hs : s.cursor = σ.cursor) (hvisit : Visits code s amount body u) :
    ∃ σᵤ, ConstantAt σᵤ u amount body ∧
      (Steady σ code σ' → ∀ {start}, Agrees σ start s → ∃ start', Agrees σᵤ start' u) := by
  -- A case for each rule; only the rule for constants generates one.
  induction h generalizing s with
  | record => cases hvisit
  | move =>
    rw [← spelledOut_moving] at hvisit
    exact absurd hvisit (not_visits_spelledOut _)
  | bump =>
    rw [← spelledOut_adding] at hvisit
    exact absurd hvisit (not_visits_spelledOut _)
  | write => exact absurd hvisit (not_visits_spelledOut [.write])
  | dump => exact absurd hvisit (not_visits_spelledOut [.dump])
  | read => exact absurd hvisit (not_visits_spelledOut [.read])
  | clear => exact absurd hvisit (not_visits_spelledOut [.loop [.add (-1)]])
  | blanks => exact absurd hvisit (not_visits_spelledOut blanksCode)
  | constant σ amount =>
    obtain ⟨rfl, rfl, rfl⟩ := visits_constant hvisit
    rw [text_constant] at hlength
    exact ⟨σ, ⟨hs, htape, rfl, hlength⟩, fun _ start hagrees => ⟨start, hagrees⟩⟩
  | append hfirst hsecond ih₁ ih₂ =>
    rw [text_append, List.length_append] at hlength
    have hbound := hfirst.natAbs_cursor_sub_le htape
    obtain hvisit | ⟨t, heffect, hvisit⟩ := visits_append hvisit
    · obtain ⟨σᵤ, hconstant, hright⟩ := ih₁ htape (by omega) hs hvisit
      exact ⟨σᵤ, hconstant, fun hsteady => hright (hsteady.append hfirst hsecond).1⟩
    · have ht := hfirst.cursor_of_effect htape (by omega) hs heffect
      obtain ⟨σᵤ, hconstant, hright⟩ := ih₂ (hfirst.onTape htape) (by omega) ht hvisit
      refine ⟨σᵤ, hconstant, fun hsteady start hagrees => ?_⟩
      obtain ⟨hsteady₁, hsteady₂⟩ := hsteady.append hfirst hsecond
      exact hright hsteady₂ (hfirst.agrees_of_steady hsteady₁ hagrees heffect)
  | noted note _ ih =>
    rw [text_noted] at hlength
    obtain ⟨σᵤ, hconstant, hright⟩ := ih htape hlength hs (visits_noted hvisit)
    exact ⟨σᵤ, hconstant, fun hsteady => hright hsteady.noted⟩
  | @loop σ σ₁ knowledge inner hbody hback hleave ih =>
    rw [length_text_loop] at hlength
    have hlength' : σ.cursor + (text inner).length ≤ Register.lastPosition := by omega
    -- Passes keep the cursor, and what code may rely on as long as no pad gets dirty.
    obtain ⟨t, ⟨ht, hsuits⟩, hvisit⟩ := visits_loop (fun t => t.cursor = σ.cursor ∧
      (Steady σ [.loop inner] { σ₁ with knowledge } → Suits σ s → Suits σ t)) (by
        rintro a b ⟨ha, hsuits⟩ - hpass
        have hb := hbody.cursor_of_effect htape hlength' ha hpass
        refine ⟨hb.trans hback, fun hsteady hs => ?_⟩
        have hinner := hsteady.loop hbody hleave
        have hend := hbody.agrees_of_steady hinner (Agrees.enter (hsuits hsteady hs)) hpass
        exact hend.next_pass hback hinner.dirty) hvisit ⟨hs, fun _ hs => hs⟩
    obtain ⟨σᵤ, hconstant, hright⟩ := ih htape hlength' ht hvisit
    exact ⟨σᵤ, hconstant, fun hsteady start hagrees => hright (hsteady.loop hbody hleave)
      (Agrees.enter (hsuits hsteady hagrees.toSuits))⟩

/-! ### Spelling constants out -/

/-- Code that is spelled out follows the rules as well, since a plain run may stand for a
constant. -/
theorem Derives.spelledOut (h : Derives σ code σ') : Derives σ (Fragment.spelledOut code) σ' := by
  induction h with
  | record hwraps hcursor hknowledge => exact .record hwraps hcursor hknowledge
  | append _ _ ih₁ ih₂ =>
    rw [spelledOut_append]
    exact ih₁.append ih₂
  | noted note _ ih => exact ih.noted note
  | move σ htape =>
    rw [spelledOut_moving]
    exact .move σ htape
  | write σ => exact .write σ
  | dump σ => exact .dump σ
  | read σ => exact .read σ
  | clear σ => exact .clear σ
  | bump σ amount =>
    rw [spelledOut_adding]
    exact .bump σ amount
  | constant σ amount =>
    -- The only case that changes: a constant becomes a plain addition, with the same session.
    rw [spelledOut_constant]
    exact .bump σ amount
  | blanks hcursor hspace hput => exact .blanks hcursor hspace hput
  | loop _ hcursor hleave ih => exact .loop ih hcursor hleave

/-- Steady code does the same when it is spelled out. -/
theorem Derives.effect_spelledOut_iff (h : Derives σ code σ') (hsteady : Steady σ code σ')
    (hlength : σ.cursor + (Fragment.text code).length ≤ Register.lastPosition)
    (hs : Agrees σ start s) (e : Ending) :
    code.effect s e ↔ (Fragment.spelledOut code).effect s e := by
  -- Only constants are changed, and where they stand the session is right about the next cell.
  induction h generalizing start s e with
  | record | write | dump | read | clear | blanks => exact Iff.rfl
  | move => rw [spelledOut_moving]
  | bump => rw [spelledOut_adding]
  | constant σ amount =>
    rw [text_constant] at hlength
    have hconstant : ConstantAt σ s amount _ := ⟨hs.cursor, hs.cursor ▸ hs.onTape, rfl, hlength⟩
    have heffect := hconstant.effect_of_agrees hs
    rw [effect_constant, spelledOut_constant, effect_adding]
    refine ⟨fun he => ?_, fun he => ?_⟩
    · exact effect_isFunctional _ heffect he
    · rw [← show Ending.done _ = e from he]
      exact heffect
  | append hfirst hsecond ih₁ ih₂ =>
    obtain ⟨hsteady₁, hsteady₂⟩ := hsteady.append hfirst hsecond
    rw [text_append, List.length_append] at hlength
    have hbound := hfirst.natAbs_cursor_sub_le (hs.cursor ▸ hs.onTape)
    rw [spelledOut_append, effect_append, effect_append]
    exact Effect.seq_congr (ih₁ hsteady₁ (by omega) hs) fun t ht =>
      ih₂ hsteady₂ (by omega) (hfirst.agrees_of_steady hsteady₁ hs ht) e
  | noted note _ ih =>
    rw [text_noted] at hlength
    rw [effect_noted]
    exact (ih hsteady.noted hlength hs e).trans (by rw [← effect_noted note]; rfl)
  | @loop σ σ₁ knowledge inner hbody hback hleave ih =>
    have hinner := hsteady.loop hbody hleave
    rw [length_text_loop] at hlength
    rw [effect_loop]
    refine (Effect.loop_congr (Suits σ) (fun t e ht _ => ?_) (fun a b ha _ hpass => ?_)
      hs.toSuits).trans (by rw [← effect_loop]; rfl)
    · exact ih hinner (by simp only; omega) (Agrees.enter ht) e
    · exact (hbody.agrees_of_steady hinner (Agrees.enter ha) hpass).next_pass hback hinner.dirty

/-! ### Sessions that foresee dirty pads -/

/-- A session that takes other pads for dirty. -/
def Session.foresee (σ : Session) (dirty : List Int) : Session :=
  { σ with knowledge := { σ.knowledge with dirty } }

/-- Fewer pads are relied on if more are taken for dirty. -/
theorem Agrees.foresee (h : Agrees σ start s) {dirty : List Int}
    (hdirty : σ.knowledge.dirty ⊆ dirty) : Agrees (σ.foresee dirty) start s := by
  refine ⟨⟨h.cursor, h.onTape, fun hclean => h.pad ?_⟩, h.fact, h.untouched, h.blank⟩
  obtain ⟨hpad, hnot⟩ := Knowledge.isCleanPad_iff.mp hclean
  exact Knowledge.isCleanPad_iff.mpr ⟨hpad, fun hmem => hnot (hdirty hmem)⟩

/-- Whether directives generate some code if, before each of them, some pads are taken for dirty,
and these are all that it makes dirty. -/
inductive Foreseen : Session → List Directive → Fragment → Prop
  | nil (σ : Session) : Foreseen σ [] []
  | cons {σ σ₁ : Session} {dirty : List Int} {directive : Directive} {directives : List Directive}
      {first rest : Fragment} (hdirty : σ.knowledge.dirty ⊆ dirty)
      (hfirst : Emits (σ.foresee dirty) directive.emit first σ₁)
      (hsteady : Steady (σ.foresee dirty) first σ₁) (hrest : Foreseen σ₁ directives rest) :
      Foreseen σ (directive :: directives) (first ++ rest)

/-- Where no pad gets dirty there is nothing to foresee. -/
theorem foreseen_of_clean {directives : List Directive} (h : Emits σ (emitAll directives) code σ')
    (hclean : σ'.knowledge.dirty = []) : Foreseen σ directives code := by
  induction directives generalizing σ code with
  | nil =>
    obtain ⟨rfl, -⟩ := emits_pure_iff.mp h
    exact .nil σ
  | cons directive directives ih =>
    simp only [emitAll, emits_bind_iff, emits_pure_iff] at h
    obtain ⟨first, σ₁, hfirst, second, σ₂, hsecond, rfl, rfl⟩ := h
    have hclean₁ := (derivable_emitAll _ hsecond).dirty_eq_nil hclean
    have hclean₀ := (directive.derivable_emit hfirst).dirty_eq_nil hclean₁
    have hsame : σ.foresee [] = σ := by
      rw [← hclean₀]
      rfl
    have hsteady : Steady (σ.foresee []) first σ₁ := ⟨hclean₁, Or.inl List.not_mem_nil⟩
    exact .cons (List.subset_nil.mpr hclean₀) (hsame.symm ▸ hfirst) hsteady (ih hsecond)

/-- Constants do nothing but add their amount in code whose dirty pads are foreseen, and the code
does the same when it is spelled out. -/
theorem Foreseen.transparent {directives : List Directive} (h : Foreseen σ directives code)
    (hlength : σ.cursor + (Fragment.text code).length ≤ Register.lastPosition)
    (hs : Agrees σ start s) :
    (∀ {amount body u}, Visits code s amount body u →
      body.effect u (.done (u.put (u.here + UInt8.ofInt amount)))) ∧
    ∀ e, code.effect s e ↔ (Fragment.spelledOut code).effect s e := by
  -- Induction on the directives; each of them is steady in the session that foresees its pads.
  induction h generalizing s with
  | nil => exact ⟨fun hvisit => (nomatch hvisit), fun _ => Iff.rfl⟩
  | @cons σ σ₁ dirty directive directives first rest hdirty hfirst hsteady _ ih =>
    have hderives : Derives (σ.foresee dirty) first σ₁ := directive.derivable_emit hfirst
    have hagrees := hs.foresee hdirty
    have htape : OnTape (σ.foresee dirty).cursor := hagrees.cursor ▸ hagrees.onTape
    rw [text_append, List.length_append] at hlength
    have hlength₁ : (σ.foresee dirty).cursor + (text first).length ≤ Register.lastPosition := by
      change σ.cursor + _ ≤ _
      omega
    have hlength₂ : σ₁.cursor + (text rest).length ≤ Register.lastPosition := by
      have hbound : (σ₁.cursor - σ.cursor).natAbs ≤ _ := hderives.natAbs_cursor_sub_le htape
      omega
    have hnext : ∀ {t}, first.effect s (.done t) → Agrees σ₁ start t :=
      fun heffect => hderives.agrees_of_steady hsteady hagrees heffect
    refine ⟨fun hvisit => ?_, fun e => ?_⟩
    · obtain hvisit | ⟨t, heffect, hvisit⟩ := visits_append hvisit
      · obtain ⟨σᵤ, hconstant, hright⟩ :=
          hderives.exists_constantAt htape hlength₁ hagrees.cursor hvisit
        obtain ⟨start', hu⟩ := hright hsteady hagrees
        exact hconstant.effect_of_agrees hu
      · exact (ih hlength₂ (hnext heffect)).1 hvisit
    · rw [spelledOut_append, effect_append, effect_append]
      exact Effect.seq_congr (hderives.effect_spelledOut_iff hsteady hlength₁ hagrees) fun t ht =>
        (ih hlength₂ (hnext ht)).2 e

/-! ### Machines -/

/-- A machine has the endings of the text if every loop of the text has a node in the program. -/
theorem Derives.ending_iff {wraps : Bool} (h : Derives { wraps } code σ)
    (hlength : (Fragment.text code).length ≤ Register.lastPosition)
    (hloops : Source.allKeepLoops (Fragment.sources code) = true) {m : Machine} {sink : Nat}
    {input : Bytes} (hm : m.Ready sink .endless input) {e : Ending} :
    (∃ fuel, (m.exec .endless fuel (Source.condense (Fragment.sources code))).ending sink =
      some e) ↔ code.effect (.fresh input) e := by
  have hleads := h.leads onTape_zero (by simpa using hlength)
  rw [hm.ending_iff fun _ ⟨hmemory, _⟩ => nomatch hmemory]
  constructor
  · intro hprogram
    have heffects := Source.effects_of_condense hleads rfl onTape_zero hprogram
    rwa [Source.prune_of_allKeepLoops _ hloops] at heffects
  · intro heffect
    have hne := (Source.tracks_of_walk _ hleads rfl heffect).1
    exact Source.effects_refines_condense _ onTape_zero hne heffect

/-- Where the `code` of any `directives` comes to the `body` of a constant, which it does if it
`Visits` it, the `body` does nothing but add its `amount` to the cell under the cursor exactly if it
is a plain run of symbols or the next cell is zero at that point. If it is `Foreseen` which pads get
dirty, as it is where none does, then this is always so, and the `code` has the same endings as
`Fragment.spelledOut code`, in which every constant is a plain run; and so have machines with the
programs of both texts, if every loop of the texts has a node in its program. -/
theorem effect_of_visits_iff {directives : List Directive} {wraps : Bool}
    (hemit : Session.perform { wraps } (emitAll directives) = (.ok code, σ))
    (hlength : (Fragment.text code).length ≤ Register.lastPosition) (input : Bytes) :
    (∀ {amount body u}, Visits code (.fresh input) amount body u →
      (body.effect u (.done (u.put (u.here + UInt8.ofInt amount))) ↔
        body = Fragment.adding amount ∨ u.cells (u.cursor + 1) = 0)) ∧
    (σ.knowledge.dirty = [] → Foreseen { wraps } directives code) ∧
    (Foreseen { wraps } directives code →
      (∀ {amount body u}, Visits code (.fresh input) amount body u →
        body.effect u (.done (u.put (u.here + UInt8.ofInt amount)))) ∧
      (∀ e, code.effect (.fresh input) e ↔ (Fragment.spelledOut code).effect (.fresh input) e) ∧
      ((Fragment.text (Fragment.spelledOut code)).length ≤ Register.lastPosition →
        Source.allKeepLoops (Fragment.sources code) = true →
        Source.allKeepLoops (Fragment.sources (Fragment.spelledOut code)) = true →
        ∃ program plain, Program.parse (Fragment.text code) = .ok program ∧
          Program.parse (Fragment.text (Fragment.spelledOut code)) = .ok plain ∧
          ∀ {m : Machine} {sink : Nat}, m.Ready sink .endless input → ∀ e,
            ((∃ fuel, (m.exec .endless fuel program).ending sink = some e) ↔
              ∃ fuel, (m.exec .endless fuel plain).ending sink = some e))) := by
  have hderives : Derives { wraps } code σ := derivable_emitAll directives hemit
  have hlength₀ : ({ wraps } : Session).cursor + (text code).length ≤ Register.lastPosition := by
    simpa using hlength
  refine ⟨fun hvisit => ?_, foreseen_of_clean hemit, fun hforeseen => ?_⟩
  · obtain ⟨σᵤ, hconstant, -⟩ := hderives.exists_constantAt onTape_zero hlength₀ rfl hvisit
    exact hconstant.effect_iff
  · obtain ⟨hvisits, heffect⟩ := hforeseen.transparent hlength₀ (agrees_fresh wraps input)
    refine ⟨hvisits, heffect, fun hlength' hloops hloops' => ?_⟩
    -- Both machines have the endings of their code, and the codes have the same endings.
    refine ⟨_, _, parse_text code, parse_text _, fun hm e => ?_⟩
    rw [hderives.ending_iff hlength hloops hm, heffect,
      hderives.spelledOut.ending_iff hlength' hloops' hm]

/-- Directives in a row emit code in a row. -/
theorem emits_emitAll_cons {directive : Directive} {directives : List Directive} {σ₁ : Session}
    (hfirst : Emits σ directive.emit first σ₁) (hrest : Emits σ₁ (emitAll directives) second σ') :
    Emits σ (emitAll (directive :: directives)) (first ++ second) σ' := by
  simp only [emitAll, emits_bind_iff, emits_pure_iff]
  exact ⟨first, σ₁, hfirst, second, σ', hrest, rfl, rfl⟩

/-- A hundred is added as ten times ten. -/
private theorem addingCode_hundred : addingCode 100 true = Factors.code ⟨10, 10, 0⟩ 1 := by
  have hroot : Rounding.squareRoot 100 = 10 := by decide +kernel
  have hfactors : Factors.of 100 = ⟨10, 10, 0⟩ := by
    simp only [Factors.of, hroot]
    rfl
  have hleast : (100 : Int) ≠ Word.least := by decide
  simp [addingCode, hfactors, hleast, Factors.cost]

/-- What a session generates for a loop that adds a constant to one variable and writes the pad of
another, which is dirty already. -/
private theorem exists_emits_besidePad : ∃ σ,
    Emits { wraps := true, cursor := 32,
            knowledge := { base := [(31, some 1), (32, some 1)], dirty := [31] } }
      (Directive.emit (.repeatBy (.cell 32) [.addAt (.cell 34) 100, .incAt (.cell 31)]))
      [.loop [.move 2, .constant 100 (addingCode 100 true), .move (-3), .add 1, .move 1, .add (-1)]]
      σ ∧ σ.knowledge.dirty = [31] := by
  refine ⟨_, rfl, ?_⟩
  decide +kernel

/-- A loop that adds a constant to the cell 34 by factors, and writes the pad 31 of another cell. -/
theorem effect_of_visits_besideWrittenPad : ∃ code σ program plain,
    Session.perform { wraps := true } (emitAll [.incAt (.cell 31), .incAt (.cell 32),
      .repeatBy (.cell 32) [.addAt (.cell 34) 100, .incAt (.cell 31)]]) = (.ok code, σ) ∧
      σ.knowledge.dirty = [31] ∧ Program.parse (Fragment.text code) = .ok program ∧
      Program.parse (Fragment.text (Fragment.spelledOut code)) = .ok plain ∧
      ∀ e, (∃ fuel, ((Machine.forInput .endless []).exec .endless fuel program).ending 0 = some e) ↔
        ∃ fuel, ((Machine.forInput .endless []).exec .endless fuel plain).ending 0 = some e := by
  obtain ⟨σ, hloop, hdirty⟩ := exists_emits_besidePad
  have hpad : Emits { wraps := true } (Directive.emit (.incAt (.cell 31))) [.move 31, .add 1]
    { wraps := true, cursor := 31, knowledge := { base := [(31, some 1)], dirty := [31] } } := rfl
  have hcount : Emits
    { wraps := true, cursor := 31, knowledge := { base := [(31, some 1)], dirty := [31] } }
    (Directive.emit (.incAt (.cell 32))) [.move 1, .add 1]
    { wraps := true, cursor := 32,
      knowledge := { base := [(31, some 1), (32, some 1)], dirty := [31] } } := rfl
  have hemit := emits_emitAll_cons hpad (emits_emitAll_cons hcount
    (emits_emitAll_cons hloop (show Emits σ (emitAll []) [] σ from rfl)))
  have hsteady : ∀ {σ σ' code}, σ.knowledge.dirty = [31] → σ'.knowledge.dirty = [31] →
      Steady σ code σ' := by
    intro σ σ' code hσ hσ'
    exact ⟨hσ'.trans hσ.symm, Or.inl (by rw [hσ]; decide)⟩
  -- The pad may as well be taken for dirty before it is written.
  have hpad' : Emits ({ wraps := true : Session }.foresee [31])
    (Directive.emit (.incAt (.cell 31))) [.move 31, .add 1]
    { wraps := true, cursor := 31, knowledge := { base := [(31, some 1)], dirty := [31] } } := rfl
  have hforeseen := Foreseen.cons (List.nil_subset [31]) hpad' (hsteady rfl rfl)
    (.cons (List.Subset.refl [31]) hcount (hsteady rfl rfl)
      (.cons (List.Subset.refl [31]) hloop (hsteady rfl hdirty) (.nil σ)))
  rw [addingCode_hundred] at hemit hforeseen
  obtain ⟨-, -, htransparent⟩ := effect_of_visits_iff hemit (by decide +kernel) []
  obtain ⟨-, -, hmachines⟩ := htransparent hforeseen
  obtain ⟨program, plain, hprogram, hplain, hendings⟩ :=
    hmachines (by decide +kernel) (by decide +kernel) (by decide +kernel)
  exact ⟨_, σ, program, plain, hemit, hdirty, hprogram, hplain,
    hendings (Machine.ready_forInput .endless [])⟩

/-! ### A loop that writes its pad -/

section WrittenPad

/-- The body of a loop that adds a constant to a variable, and then writes the pad of the
variable. -/
private def padBody (constant : Fragment) : Fragment :=
  Fragment.moving (-2) ++ (constant ++ (Fragment.moving 1 ++ (Fragment.adding 1 ++
    (Fragment.moving 1 ++ Fragment.adding (-1)))))

/-- Code that runs the loop twice. -/
private def padCode (constant : Fragment) : Fragment :=
  Fragment.moving 32 ++ (Fragment.adding 1 ++ (Fragment.adding 1 ++ [.loop (padBody constant)]))

/-- The values of the variable, its pad and the counter of the loop in front of a pass. -/
private def padCells (value pad count : UInt8) : Snapshot :=
  ((((Snapshot.fresh []).goTo 32).set 30 value).set 31 pad).set 32 count

variable {constant : Fragment} {value pad count value' pad' : UInt8}

/-- The cursor of `padCells` is at the counter. -/
private theorem here_padCells : (padCells value pad count).here = count :=
  Snapshot.cells_set_self ..

/-- A pass adds the `constant`, adds one to its pad and takes one from the counter. -/
private theorem effect_padBody (hconstant : constant.effect ((padCells value pad count).goTo 30)
      (.done ((padCells value' pad' count).goTo 30))) :
    (padBody constant).effect (padCells value pad count)
      (.done (padCells value' (pad' + 1) (count - 1))) := by
  simp only [padBody, effect_append, effect_adding]
  rw [moving_seq_iff (by exact (by decide : OnTape 32)) (by rfl) (by decide : OnTape 30),
    (effect_isFunctional _).seq_of_done_iff hconstant,
    moving_seq_iff (by exact (by decide : OnTape 30)) (by rfl) (by decide : OnTape 31),
    Effect.add_seq_iff, moving_seq_iff (by exact (by decide : OnTape 31)) (by rfl)
      (by decide : OnTape 32), Effect.of_iff, Snapshot.add]
  refine congrArg Ending.done (Snapshot.ext rfl ?_ rfl rfl)
  have hone : UInt8.ofInt 1 = 1 := by decide
  funext pos
  simp only [padCells, Snapshot.here_goTo, Snapshot.goTo_cells, Snapshot.goTo_cursor, Snapshot.put,
    Snapshot.set_cells, Function.update_apply, hone, add_ofInt_neg_one]
  grind

/-- The loop is entered with the variable and its pad at zero. -/
private theorem effect_moving_adding : effect (Fragment.moving 32 ++ (Fragment.adding 1 ++
    Fragment.adding 1)) (.fresh []) (.done (padCells 0 0 2)) := by
  let start := (Snapshot.fresh []).goTo 32
  have hvalue : start.set 30 0 = start := Snapshot.set_eq_self rfl
  have hpad : start.set 31 0 = start := Snapshot.set_eq_self rfl
  have hcells : padCells 0 0 2 = start.put 2 := by
    change ((start.set 30 0).set 31 0).put 2 = _
    rw [hvalue, hpad]
  simp only [effect_append, effect_adding]
  rw [moving_seq_iff onTape_zero rfl (by decide : OnTape 32), Effect.add_seq_iff, Effect.of_iff,
    Snapshot.add, Snapshot.here_put, Snapshot.put_put, hcells]
  rfl

/-- The values behind both passes. -/
private theorem effect_padCode
    (hfirst : constant.effect ((padCells 0 0 2).goTo 30) (.done ((padCells value pad 2).goTo 30)))
    (hsecond : constant.effect ((padCells value (pad + 1) 1).goTo 30)
      (.done ((padCells value' pad' 1).goTo 30))) :
    (padCode constant).effect (.fresh []) (.done (padCells value' (pad' + 1) 0)) := by
  rw [padCode, ← List.append_assoc (Fragment.adding 1), ← List.append_assoc, effect_append,
    effect_loop]
  refine Effect.seq_of_done effect_moving_adding ?_
  refine .pass (by rw [here_padCells]; decide) (effect_padBody hfirst) ?_
  refine .pass (by rw [here_padCells]; decide) (effect_padBody hsecond) ?_
  exact .exit here_padCells

/-- Spelled out, the loop adds a hundred symbol by symbol. -/
private theorem spelledOut_padCode (body : Fragment) :
    Fragment.spelledOut (padCode [.constant 100 body]) = padCode (Fragment.adding 100) := by
  simp only [padCode, padBody, spelledOut, Code.spelledOut, spelledOut_append, spelledOut_moving,
    spelledOut_adding, List.append_nil]

/-- Adding a hundred by factors adds ten more for each unit of the pad. -/
private theorem effect_hundred (value pad count : UInt8) :
    effect (addingCode 100 true) ((padCells value pad count).goTo 30)
      (.done ((padCells (value + 100 + pad * 10) 0 count).goTo 30)) := by
  have heffect := @Factors.effect_code ⟨10, 10, 0⟩ 1 ((padCells value pad count).goTo 30)
    (by exact (by decide : OnTape 30)) (by exact (by decide : OnTape 31))
  rw [← addingCode_hundred] at heffect
  convert heffect using 2
  refine Snapshot.ext rfl ?_ rfl rfl
  have hhundred : UInt8.ofInt 100 = 100 := by decide
  have hten : UInt8.ofInt 10 = 10 := by decide
  funext pos
  simp only [padCells, Snapshot.here_goTo, Snapshot.goTo_cells, Snapshot.goTo_cursor, Snapshot.put,
    Snapshot.set_cells, Function.update_apply]
  grind

/-- A plain addition of a hundred leaves its pad alone. -/
private theorem effect_plain_hundred (value pad count : UInt8) :
    effect (Fragment.adding 100) ((padCells value pad count).goTo 30)
      (.done ((padCells (value + 100) pad count).goTo 30)) := by
  rw [effect_adding, Effect.of_iff, Snapshot.add]
  refine congrArg Ending.done (Snapshot.ext rfl ?_ rfl rfl)
  have hhundred : UInt8.ofInt 100 = 100 := by decide
  funext pos
  simp only [padCells, Snapshot.here_goTo, Snapshot.goTo_cells, Snapshot.goTo_cursor, Snapshot.put,
    Snapshot.set_cells, Function.update_apply]
  grind

/-- Two passes with factored code, of which the second begins with a pad that is not zero. -/
private theorem effect_padCode_factored : effect (padCode [.constant 100 (addingCode 100 true)])
    (.fresh []) (.done (padCells 210 1 0)) := by
  have hconstant := effect_constant 100 (addingCode 100 true)
  have hfirst := effect_hundred 0 0 2
  have hsecond := effect_hundred 100 (0 + 1) 1
  rw [← hconstant, (by decide : (0 : UInt8) + 100 + 0 * 10 = 100)] at hfirst
  rw [← hconstant, (by decide : (100 : UInt8) + 100 + (0 + 1) * 10 = 210)] at hsecond
  have heffect := effect_padCode hfirst hsecond
  rwa [(by decide : (0 : UInt8) + 1 = 1)] at heffect

/-- Two passes with plain code. -/
private theorem effect_padCode_plain : effect (padCode (Fragment.adding 100)) (.fresh [])
    (.done (padCells 200 2 0)) := by
  have hfirst := effect_plain_hundred 0 0 2
  have hsecond := effect_plain_hundred 100 (0 + 1) 1
  rw [(by decide : (0 : UInt8) + 100 = 100)] at hfirst
  rw [(by decide : (100 : UInt8) + 100 = 200)] at hsecond
  have heffect := effect_padCode hfirst hsecond
  rwa [(by decide : (0 : UInt8) + 1 + 1 = 2)] at heffect

/-- In the second pass, the pad holds one when control comes to the constant. -/
private theorem visits_padCode : Visits (padCode [.constant 100 (addingCode 100 true)]) (.fresh [])
    100 (addingCode 100 true) ((padCells 100 1 1).goTo 30) := by
  rw [padCode, ← List.append_assoc (Fragment.adding 1), ← List.append_assoc]
  have hpass := effect_padBody (effect_constant 100 _ ▸ effect_hundred 0 0 2)
  have hmove := @effect_moving (padCells 100 1 1) (-2) (by decide) (by decide)
  exact visits_append_right effect_moving_adding (.laterPass (by decide) hpass
    (.firstPass (by decide) (visits_append_right hmove .here)))

/-- What a session generates for such a loop. -/
private theorem exists_emits_padCode : ∃ σ, Session.perform { wraps := true } (emitAll
    [.incAt (.cell 32), .incAt (.cell 32),
      .repeatBy (.cell 32) [.addAt (.cell 30) 100, .incAt (.cell 31)]]) =
        (.ok (padCode [.constant 100 (addingCode 100 true)]), σ) := by
  have hfirst : Emits { wraps := true } (Directive.emit (.incAt (.cell 32))) [.move 32, .add 1]
    { wraps := true, cursor := 32, knowledge := { base := [(32, some 1)] } } := rfl
  have hsecond : Emits { wraps := true, cursor := 32, knowledge := { base := [(32, some 1)] } }
    (Directive.emit (.incAt (.cell 32))) [.add 1]
    { wraps := true, cursor := 32, knowledge := { base := [(32, some 2)] } } := rfl
  have hloop : ∃ σ, Emits
    { wraps := true, cursor := 32, knowledge := { base := [(32, some 2)] } }
    (Directive.emit (.repeatBy (.cell 32) [.addAt (.cell 30) 100, .incAt (.cell 31)]))
    [.loop (padBody [.constant 100 (addingCode 100 true)])] σ := ⟨_, rfl⟩
  obtain ⟨σ, hloop⟩ := hloop
  have hemit := emits_emitAll_cons hfirst (emits_emitAll_cons hsecond
    (emits_emitAll_cons hloop (show Emits σ (emitAll []) [] σ from rfl)))
  exact ⟨σ, hemit⟩

/-- A loop that adds a constant to the cell 30, and then writes the pad 31 that the constant
borrows. In the second pass the constant adds ten too much and empties the pad. -/
theorem not_effect_of_visits_writtenPad : ∃ code σ u program plain t t',
    Session.perform { wraps := true } (emitAll [.incAt (.cell 32), .incAt (.cell 32),
      .repeatBy (.cell 32) [.addAt (.cell 30) 100, .incAt (.cell 31)]]) = (.ok code, σ) ∧
      Visits code (.fresh []) 100 (addingCode 100 true) u ∧
      ¬ effect (addingCode 100 true) u (.done (u.put (u.here + UInt8.ofInt 100))) ∧
      Program.parse (Fragment.text code) = .ok program ∧
      Program.parse (Fragment.text (Fragment.spelledOut code)) = .ok plain ∧
      (∃ fuel, ((Machine.forInput .endless []).exec .endless fuel program).ending 0 =
        some (.done t)) ∧ t.cells 30 = 210 ∧
      (∃ fuel, ((Machine.forInput .endless []).exec .endless fuel plain).ending 0 =
        some (.done t')) ∧ t'.cells 30 = 200 := by
  obtain ⟨σ, hemit⟩ := exists_emits_padCode
  have hderives := derivable_emitAll _ hemit
  -- An ending with the pad untouched would be another one than that with the pad emptied.
  have hwrong : ¬ effect (addingCode 100 true) ((padCells 100 1 1).goTo 30)
      (.done (((padCells 100 1 1).goTo 30).put
        (((padCells 100 1 1).goTo 30).here + UInt8.ofInt 100))) := by
    intro heffect
    have hend := Ending.done.inj (effect_isFunctional _ heffect (effect_hundred 100 1 1))
    exact absurd (congrArg (fun t : Snapshot => t.cells 31) hend) (by decide)
  have hm := Machine.ready_forInput .endless []
  refine ⟨_, σ, _, _, _, padCells 210 1 0, padCells 200 2 0, hemit, visits_padCode, hwrong,
    parse_text _, parse_text _, ?_, rfl, ?_, rfl⟩
  · rw [hderives.ending_iff (by rw [addingCode_hundred]; decide +kernel)
      (by rw [addingCode_hundred]; decide +kernel) hm]
    exact effect_padCode_factored
  · rw [hderives.spelledOut.ending_iff (by rw [spelledOut_padCode]; decide +kernel)
      (by rw [spelledOut_padCode]; decide +kernel) hm, spelledOut_padCode]
    exact effect_padCode_plain

end WrittenPad

end Generator

end TapeMachine
