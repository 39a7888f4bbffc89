import TapeMachine.Proofs.ConstantEffect
import TapeMachine.Proofs.Construction
import TapeMachine.Proofs.KnownCells

/-!
# Derivations of generated code

All code that a session generates is put together by a few rules, and each rule says how it changes
what the session tracks. A property of all generated code is proved by induction over these rules,
whatever directive the code is for.

The module introduces:

* `Generator.Derives`: the rules;
* `Generator.Derivable`: a step of a session whose code follows the rules;
* `Generator.derivable_emitAll`: the code of every list of directives follows the rules.
-/

namespace TapeMachine.Generator

/-- Whether a fragment follows the rules by which code is put together, given the sessions before
and after it. -/
inductive Derives : Session → Fragment → Session → Prop
  /-- Nothing is generated; a warning or an observation may be recorded. -/
  | record {σ σ' : Session} (hwraps : σ'.wraps = σ.wraps) (hcursor : σ'.cursor = σ.cursor)
      (hknowledge : σ'.knowledge = σ.knowledge) : Derives σ [] σ'
  | append {σ σ₁ σ' : Session} {first second : Fragment} (hfirst : Derives σ first σ₁)
      (hsecond : Derives σ₁ second σ') : Derives σ (first ++ second) σ'
  | noted {σ σ' : Session} {body : Fragment} (note : Bytes) (hbody : Derives σ body σ') :
      Derives σ [.noted note body] σ'
  | move (σ : Session) {pos : Int} (htape : OnTape pos) :
      Derives σ (Fragment.moving (pos - σ.cursor)) { σ with cursor := pos }
  | write (σ : Session) : Derives σ [.write] σ
  | dump (σ : Session) : Derives σ [.dump] σ
  | read (σ : Session) : Derives σ [.read] (σ.learn σ.cursor none)
  | clear (σ : Session) : Derives σ [.loop [.add (-1)]] (σ.learn σ.cursor (some 0))
  | bump (σ : Session) (amount : Int) : Derives σ (Fragment.adding amount) (σ.bump amount)
  /-- The next cell may serve as a counter if it is known to be zero. -/
  | constant (σ : Session) (amount : Int) :
      Derives σ [.constant amount
        (addingCode amount ((σ.bump amount).knowledge.isZero (σ.cursor + 1)))] (σ.bump amount)
  | blanks {σ : Session} (hcursor : σ.cursor = Register.putPad)
      (hspace : σ.known Register.putSpace = some 0) (hput : σ.known Register.put = some 0) :
      Derives σ blanksCode ((σ.learn Register.putSpace (some blank.toNat)).learn Register.put
        (some blank.toNat))
  /-- The body of a loop has to lead back to the cell that the loop tests. -/
  | loop {σ σ₁ : Session} {knowledge : Knowledge} {body : Fragment}
      (hbody : Derives { σ with knowledge := σ.knowledge.enter σ.cursor } body σ₁)
      (hcursor : σ₁.cursor = σ.cursor) (hleave : σ₁.knowledge.leave = some knowledge) :
      Derives σ [.loop body] { σ₁ with knowledge }

/-- Whether all code of a step follows the rules. -/
def Derivable (step : Gen Fragment) : Prop :=
  ∀ ⦃σ : Session⦄ ⦃code : Fragment⦄ ⦃σ' : Session⦄, Emits σ step code σ' → Derives σ code σ'

/-! ### The code of directives -/

theorem emits_loadBlanks_iff {σ σ' : Session} {code : Fragment} : Emits σ loadBlanks code σ' ↔
    code = Fragment.moving (Register.putPad - σ.cursor) ++ blanksCode ++
        Fragment.moving (Register.put - Register.putPad) ∧
      σ' = { (({ σ with cursor := Register.putPad } : Session).learn Register.putSpace
        (some blank.toNat)).learn Register.put (some blank.toNat) with
          cursor := Register.put } := by
  simp only [loadBlanks, emits_bind_iff, emits_moveTo_iff, emits_modify_iff, emits_pure_iff]
  constructor
  · rintro ⟨_, _, ⟨-, rfl, rfl⟩, _, _, rfl, _, _, ⟨-, rfl, rfl⟩, rfl, rfl⟩
    exact ⟨rfl, rfl⟩
  · rintro ⟨rfl, rfl⟩
    exact ⟨_, _, ⟨by decide, rfl, rfl⟩, (), _, rfl, _, _, ⟨by decide, rfl, rfl⟩, rfl, rfl⟩

/-- Setting up blanks follows the rules where both cells are known to be zero. -/
theorem derives_of_loadBlanks {σ σ' : Session} {code : Fragment} (h : Emits σ loadBlanks code σ')
    (hspace : σ.known Register.putSpace = some 0) (hput : σ.known Register.put = some 0) :
    Derives σ code σ' := by
  obtain ⟨rfl, rfl⟩ := emits_loadBlanks_iff.mp h
  exact ((Derives.move σ (by decide)).append (.blanks rfl hspace hput)).append (.move _ (by decide))

/-- A cell that was cleared is known to be zero. -/
theorem known_of_emits_clearAt {σ σ' : Session} {code : Fragment} {cell : Int}
    (h : Emits σ (clearAt cell) code σ') (hpad : Register.isPad cell = false) (other : Int) :
    σ'.known other = if other = cell then some 0 else σ.known other := by
  obtain ⟨-, -, rfl⟩ := emits_clearAt_iff.mp h
  exact Knowledge.known_learn hpad

/-- Both cells are known to be zero when they have been cleared. -/
theorem known_of_emits_clearAt_both {σ σ₁ σ₂ : Session} {a b : Fragment}
    (hspace : Emits σ (clearAt Register.putSpace) a σ₁)
    (hput : Emits σ₁ (clearAt Register.put) b σ₂) :
    σ₂.known Register.putSpace = some 0 ∧ σ₂.known Register.put = some 0 := by
  refine ⟨?_, ?_⟩
  · rw [known_of_emits_clearAt hput (by decide), if_neg (by decide),
      known_of_emits_clearAt hspace (by decide), if_pos rfl]
  · rw [known_of_emits_clearAt hput (by decide), if_pos rfl]

/-- Both cells have been cleared when blanks are set up. -/
theorem derivable_blanks {steps : List (Gen Fragment)}
    (hspace : Derivable (clearAt Register.putSpace)) (hput : Derivable (clearAt Register.put))
    (hsteps : Derivable (sequence steps)) : Derivable (sequence (clearAt Register.putSpace ::
      clearAt Register.put :: loadBlanks :: steps)) := by
  intro σ code σ' h
  rw [emits_sequence_cons_iff] at h
  obtain ⟨a, _, σ₁, hspace', h, rfl⟩ := h
  rw [emits_sequence_cons_iff] at h
  obtain ⟨b, _, σ₂, hput', h, rfl⟩ := h
  rw [emits_sequence_cons_iff] at h
  obtain ⟨c, d, σ₃, hblanks, h, rfl⟩ := h
  obtain ⟨hspace₀, hput₀⟩ := known_of_emits_clearAt_both hspace' hput'
  exact .append (hspace hspace') (.append (hput hput') (.append
    (derives_of_loadBlanks hblanks hspace₀ hput₀) (hsteps h)))

/-- The code of every step that is put together by the ways of `Built` follows the rules. -/
theorem Built.derivable {step : Gen Fragment} (h : Built step) : Derivable step := by
  induction h with
  | nil =>
    intro σ code σ' h
    obtain ⟨rfl, rfl⟩ := emits_pure_iff.mp h
    exact .record rfl rfl rfl
  | append _ _ ih₁ ih₂ =>
    intro σ code σ' h
    simp only [emits_bind_iff, emits_pure_iff] at h
    obtain ⟨a, σ₁, ha, b, _, hb, rfl, rfl⟩ := h
    exact .append (ih₁ ha) (ih₂ hb)
  -- To look at the session emits nothing, but may record something.
  | look hlook _ ih =>
    intro σ code σ' h
    obtain ⟨a, σ₁, h₁, h₂⟩ := emits_bind_iff.mp h
    obtain ⟨view, hview⟩ := hlook
    obtain ⟨-, hwraps, hcursor, hknowledge, -⟩ := h₁ ▸ hview σ
    exact .append (.record hwraps hcursor hknowledge) (ih a h₂)
  | noted note _ ih =>
    intro σ code σ' h
    obtain ⟨inner, hinner, rfl⟩ := emits_noted_iff.mp h
    exact .noted _ (ih hinner)
  | move amount =>
    intro σ code σ' h
    obtain ⟨htape, rfl, rfl⟩ := emits_move_iff.mp h
    have hmove := Derives.move σ htape
    have hamount : σ.cursor + amount - σ.cursor = amount := by omega
    rwa [hamount] at hmove
  | inc =>
    intro σ code σ' h
    obtain ⟨rfl, rfl⟩ := emits_inc_iff.mp h
    exact .bump σ 1
  | dec =>
    intro σ code σ' h
    obtain ⟨rfl, rfl⟩ := emits_dec_iff.mp h
    exact .bump σ (-1)
  | write =>
    intro σ code σ' h
    obtain ⟨rfl, rfl⟩ := emits_write_iff.mp h
    exact .write _
  | dump =>
    intro σ code σ' h
    obtain ⟨rfl, rfl⟩ := emits_dump_iff.mp h
    exact .dump _
  | read =>
    intro σ code σ' h
    obtain ⟨rfl, rfl⟩ := emits_read_iff.mp h
    exact .read σ
  | clear =>
    intro σ code σ' h
    obtain ⟨rfl, rfl⟩ := emits_clear_iff.mp h
    exact .clear σ
  -- Adding zero emits nothing; any other amount is a constant.
  | add amount =>
    intro σ code σ' h
    obtain ⟨-, rfl, rfl⟩ | ⟨-, rfl, rfl⟩ := emits_add_iff.mp h
    · exact .record rfl rfl rfl
    · exact .constant σ _
  -- The way to the control cell and the loop itself are two steps.
  | loopOn _ hback ih =>
    intro σ code σ' h
    obtain ⟨inner, σ₁, knowledge, htape, hinner, hleave, rfl, rfl⟩ := emits_loopOn_iff.mp h
    exact .append (.move σ htape) (.loop (ih hinner) (hback hinner) hleave)
  | blanks _ _ _ ih₁ ih₂ ih₃ => exact derivable_blanks ih₁ ih₂ ih₃

/-- The code of a directive follows the rules. -/
theorem Directive.derivable_emit (directive : Directive) : Derivable directive.emit :=
  directive.built_emit.derivable

/-- The code of directives one after another follows the rules. -/
theorem derivable_emitAll (directives : List Directive) : Derivable (emitAll directives) :=
  (built_emitAll directives).derivable

/-! ### What all code leaves alone -/

namespace Derives

variable {σ σ' : Session} {code : Fragment}

/-- A fragment does not change how values are tracked, nor what is known outside the innermost
loop. -/
theorem frame (h : Derives σ code σ') :
    σ'.wraps = σ.wraps ∧ σ.knowledge.Beneath σ'.knowledge := by
  induction h with
  | record hwraps _ hknowledge => exact ⟨hwraps, hknowledge ▸ .refl _⟩
  | append _ _ ih₁ ih₂ => exact ⟨ih₂.1.trans ih₁.1, ih₁.2.trans ih₂.2⟩
  | noted _ _ ih => exact ih
  | move | write | dump => exact ⟨rfl, .refl _⟩
  | read | clear => exact ⟨rfl, Knowledge.beneath_learn⟩
  | bump σ amount | constant σ amount =>
    exact ⟨σ.bump_wraps amount, σ.bump_knowledge amount ▸ Knowledge.beneath_learn⟩
  | blanks => exact ⟨rfl, Knowledge.beneath_learn.trans Knowledge.beneath_learn⟩
  | loop _ _ hleave ih => exact ⟨ih.1, (Knowledge.leave_frame ih.2 hleave).1⟩

/-- A dirty pad stays dirty. -/
theorem dirty_suffix (h : Derives σ code σ') : σ.knowledge.dirty <:+ σ'.knowledge.dirty := by
  induction h with
  | record _ _ hknowledge => exact hknowledge ▸ List.suffix_rfl
  | append _ _ ih₁ ih₂ => exact ih₁.trans ih₂
  | noted _ _ ih => exact ih
  | move | write | dump => exact List.suffix_rfl
  | read | clear => exact Knowledge.dirty_suffix_learn
  | bump σ amount | constant σ amount =>
    rw [σ.bump_knowledge amount]
    exact Knowledge.dirty_suffix_learn
  | blanks => exact Knowledge.dirty_suffix_learn.trans Knowledge.dirty_suffix_learn
  | loop hbody _ hleave ih => exact (Knowledge.leave_frame hbody.frame.2 hleave).2 ▸ ih

theorem dirty_eq_nil (h : Derives σ code σ') (hclean : σ'.knowledge.dirty = []) :
    σ.knowledge.dirty = [] :=
  List.suffix_nil.mp (hclean ▸ h.dirty_suffix)

/-- If no more pads are dirty in the end than in the beginning, there were no more on the way. -/
theorem dirty_eq_of_append {σ₁ : Session} {second : Fragment} (hfirst : Derives σ code σ₁)
    (hsecond : Derives σ₁ second σ') (hsteady : σ'.knowledge.dirty = σ.knowledge.dirty) :
    σ₁.knowledge.dirty = σ.knowledge.dirty := by
  have hback : σ₁.knowledge.dirty <:+ σ.knowledge.dirty := hsteady ▸ hsecond.dirty_suffix
  exact hback.eq_of_length_le hfirst.dirty_suffix.length_le

/-- The cursor of a session stays on the tape. -/
theorem onTape (h : Derives σ code σ') (htape : OnTape σ.cursor) : OnTape σ'.cursor := by
  induction h with
  | record _ hcursor _ => rwa [hcursor]
  | append _ _ ih₁ ih₂ => exact ih₂ (ih₁ htape)
  | noted _ _ ih => exact ih htape
  | move _ hpos => exact hpos
  | write | dump | read | clear | blanks => exact htape
  | bump | constant => rwa [Session.bump_cursor]
  | loop _ _ _ ih => exact ih htape

end Derives

end TapeMachine.Generator
