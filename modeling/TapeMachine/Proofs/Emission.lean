import TapeMachine.Generator.Constant
import TapeMachine.Proofs.Effect

/-!
# Emissions

What a step of a generating session yields, said without the monad: a step emits a value and leaves
a session, or it fails. Each of the steps that other ones are made of is characterised here by what
it emits and how it changes the session.

The module introduces:

* `Generator.Emits`: a step of a session yields a value and leaves a session;
* `Generator.emits_bind_iff`: two steps one after another;
* `Generator.emits_sequence_cons_iff`, `Generator.emits_saveCursor_iff`,
  `Generator.emits_loopOn_iff`: the ways in which fragments are put together;
* `Generator.emits_at_iff`: a step on a cell that the cursor is moved to.
-/

namespace TapeMachine.Generator

variable {α β : Type} {σ σ' : Session}

/-! ### What a session tracks -/

namespace Session

/-- What a session learns does not move the cursor. -/
@[simp] theorem learn_cursor (pos : Int) (value : Option Int) :
    (σ.learn pos value).cursor = σ.cursor := rfl

/-- What a session learns does not change how it tracks values. -/
@[simp] theorem learn_wraps (pos : Int) (value : Option Int) :
    (σ.learn pos value).wraps = σ.wraps := rfl

/-- `Session.learn` is `Knowledge.learn`, whatever is recorded beside it. -/
@[simp] theorem learn_knowledge (pos : Int) (value : Option Int) :
    (σ.learn pos value).knowledge = σ.knowledge.learn pos value :=
  rfl

/-- The value that is tracked for a known one with a constant added. -/
def tracked (σ : Session) (value : Int) : Int :=
  if σ.wraps then Word.wrap value % 256 else Word.wrap value

/-- What a constant changes of a session apart from its warnings. -/
theorem bump_cases (amount : Int) : (σ.bump amount).cursor = σ.cursor ∧
    (σ.bump amount).wraps = σ.wraps ∧ (σ.bump amount).knowledge = σ.knowledge.learn σ.cursor
      ((σ.known σ.cursor).map fun value => σ.tracked (value + amount)) := by
  simp only [bump, tracked]
  cases σ.known σ.cursor with
  | none => exact ⟨rfl, rfl, rfl⟩
  | some value =>
    simp only [Option.map_some]
    by_cases hwraps : σ.wraps = true
    · rw [if_pos hwraps, if_pos hwraps]
      exact ⟨rfl, rfl, rfl⟩
    · rw [if_neg hwraps, if_neg hwraps]
      split <;> exact ⟨rfl, rfl, rfl⟩

/-- A change of the cell under the cursor does not move the cursor. -/
@[simp] theorem bump_cursor (amount : Int) : (σ.bump amount).cursor = σ.cursor :=
  (bump_cases amount).1

/-- A change of a cell does not change how values are tracked. -/
@[simp] theorem bump_wraps (amount : Int) : (σ.bump amount).wraps = σ.wraps :=
  (bump_cases amount).2.1

/-- `bump amount` adds `amount` to what is known of the cell under the cursor, if anything is. -/
theorem bump_knowledge (amount : Int) : (σ.bump amount).knowledge = σ.knowledge.learn σ.cursor
    ((σ.known σ.cursor).map fun value => σ.tracked (value + amount)) :=
  (bump_cases amount).2.2

end Session

/-- Whether a step of a session yields a value and leaves a session. -/
def Emits (σ : Session) (step : Gen α) (value : α) (σ' : Session) : Prop :=
  σ.perform step = (.ok value, σ')

/-! ### The steps of the monad -/

/-- `pure a` yields `a` and leaves the session alone. -/
@[simp] theorem emits_pure_iff {a b : α} : Emits σ (pure a) b σ' ↔ b = a ∧ σ' = σ := by
  have hperform : σ.perform (pure a : Gen α) = (.ok a, σ) := rfl
  simp [Emits, hperform, eq_comm]

/-- What two steps one after another yield. -/
theorem Session.perform_bind (σ : Session) (step : Gen α) (next : α → Gen β) :
    σ.perform (step >>= next) = match σ.perform step with
      | (.ok a, σ₁) => σ₁.perform (next a)
      | (.error fault, σ₁) => (.error fault, σ₁) := by
  simp only [Session.perform, bind, ExceptT.bind, ExceptT.mk, ExceptT.run, StateT.run,
    StateT.bind, Id.run]
  cases step σ with
  | mk result σ₁ => cases result <;> rfl

/-- A step that fails leaves nothing to the one behind it. -/
theorem Session.perform_bind_of_error {step : Gen α} {fault : Fault}
    (h : σ.perform step = (.error fault, σ')) (next : α → Gen β) :
    σ.perform (step >>= next) = (.error fault, σ') := by
  rw [Session.perform_bind, h]

/-- Behind a step that yields a value, only the next one matters. -/
theorem Emits.perform_bind {step : Gen α} {a : α} (h : Emits σ step a σ') (next : α → Gen β) :
    σ.perform (step >>= next) = σ'.perform (next a) := by
  rw [Session.perform_bind, h]

/-- A step and the `next` one succeed together through a session between them. -/
@[simp] theorem emits_bind_iff {step : Gen α} {next : α → Gen β} {b : β} :
    Emits σ (step >>= next) b σ' ↔ ∃ a σ₁, Emits σ step a σ₁ ∧ Emits σ₁ (next a) b σ' := by
  unfold Emits
  rw [Session.perform_bind]
  constructor
  · intro h
    cases hstep : σ.perform step with
    | mk result σ₁ =>
      rw [hstep] at h
      cases result with
      | ok a => exact ⟨a, σ₁, rfl, h⟩
      | error fault => cases h
  · rintro ⟨a, σ₁, hstep, hnext⟩
    rw [hstep]
    exact hnext

/-- Mapping `f` over a step changes what it yields only. -/
@[simp] theorem emits_map_iff {f : α → β} {step : Gen α} {b : β} :
    Emits σ (f <$> step) b σ' ↔ ∃ a, Emits σ step a σ' ∧ b = f a := by
  rw [← bind_pure_comp]
  simp only [emits_bind_iff, emits_pure_iff]
  constructor
  · rintro ⟨a, _, hstep, rfl, rfl⟩
    exact ⟨a, hstep, rfl⟩
  · rintro ⟨a, hstep, rfl⟩
    exact ⟨a, σ', hstep, rfl, rfl⟩

/-- A step that fails yields nothing. -/
@[simp] theorem not_emits_throw {fault : Fault} {a : α} : ¬ Emits σ (throw fault) a σ' := by
  intro h
  cases h

/-- `get` yields the session itself. -/
@[simp] theorem emits_get_iff {a : Session} :
    Emits σ (get : Gen Session) a σ' ↔ a = σ ∧ σ' = σ := by
  have hperform : σ.perform (get : Gen Session) = (.ok σ, σ) := rfl
  simp [Emits, hperform, eq_comm]

/-- `modify f` replaces the session by its image under `f`. -/
@[simp] theorem emits_modify_iff {f : Session → Session} {a : PUnit} :
    Emits σ (modify f : Gen PUnit) a σ' ↔ σ' = f σ := by
  have hperform : σ.perform (modify f : Gen PUnit) = (.ok (), f σ) := rfl
  simp [Emits, hperform, eq_comm]

/-- `set new` replaces the session by `new`. -/
@[simp] theorem emits_set_iff {new : Session} {a : PUnit} :
    Emits σ (MonadStateOf.set new : Gen PUnit) a σ' ↔ σ' = new := by
  have hperform : σ.perform (MonadStateOf.set new : Gen PUnit) = (.ok (), new) := rfl
  simp [Emits, hperform, eq_comm]

/-! ### Putting fragments together -/

section Fragments

variable {code : Fragment}

/-- `cursor` yields where the cursor is. -/
@[simp] theorem emits_cursor_iff {pos : Int} : Emits σ cursor pos σ' ↔ pos = σ.cursor ∧ σ' = σ := by
  simp only [cursor, bind_pure_comp, emits_map_iff, emits_get_iff]
  constructor
  · rintro ⟨_, ⟨rfl, rfl⟩, rfl⟩
    exact ⟨rfl, rfl⟩
  · rintro ⟨rfl, rfl⟩
    exact ⟨_, ⟨rfl, rfl⟩, rfl⟩

/-- No steps emit no code. -/
@[simp] theorem emits_sequence_nil_iff : Emits σ (sequence []) code σ' ↔ code = [] ∧ σ' = σ := by
  simp [sequence]

/-- The code of a sequence is that of its first step and that of the `rest`, which begins with the
session that the first one leaves. -/
@[simp] theorem emits_sequence_cons_iff {first : Gen Fragment} {rest : List (Gen Fragment)} :
    Emits σ (sequence (first :: rest)) code σ' ↔ ∃ a b σ₁, Emits σ first a σ₁ ∧
      Emits σ₁ (sequence rest) b σ' ∧ code = a ++ b := by
  simp only [sequence, emits_bind_iff, emits_pure_iff]
  constructor
  · rintro ⟨a, σ₁, ha, b, σ₂, hb, rfl, rfl⟩
    exact ⟨a, b, σ₁, ha, hb, rfl⟩
  · rintro ⟨a, b, σ₁, ha, hb, rfl⟩
    exact ⟨a, σ₁, ha, b, σ', hb, rfl, rfl⟩

/-- A sequence can be split anywhere. -/
theorem emits_sequence_append_iff {first rest : List (Gen Fragment)} :
    Emits σ (sequence (first ++ rest)) code σ' ↔ ∃ a b σ₁, Emits σ (sequence first) a σ₁ ∧
      Emits σ₁ (sequence rest) b σ' ∧ code = a ++ b := by
  induction first generalizing σ code with
  | nil =>
    simp only [List.nil_append, emits_sequence_nil_iff]
    constructor
    · exact fun h => ⟨[], code, σ, ⟨rfl, rfl⟩, h, rfl⟩
    · rintro ⟨_, b, _, ⟨rfl, rfl⟩, h, rfl⟩
      exact h
  | cons step first ih =>
    simp only [List.cons_append, emits_sequence_cons_iff, ih]
    constructor
    · rintro ⟨a, _, σ₁, ha, ⟨b, c, σ₂, hb, hc, rfl⟩, rfl⟩
      exact ⟨a ++ b, c, σ₂, ⟨a, b, σ₁, ha, hb, rfl⟩, hc, (List.append_assoc a b c).symm⟩
    · rintro ⟨_, c, σ₂, ⟨a, b, σ₁, ha, hb, rfl⟩, hc, rfl⟩
      exact ⟨a, b ++ c, σ₁, ha, ⟨b, c, σ₂, hb, hc, rfl⟩, List.append_assoc a b c⟩

/-- A note is put around the code of the `body`, with the cell where it begins. -/
@[simp] theorem emits_noted_iff {note : Bytes} {body : Gen Fragment} :
    Emits σ (noted note body) code σ' ↔ ∃ inner, Emits σ body inner σ' ∧
      code = [.noted (utf8 s!"@{σ.cursor} " ++ note) inner] := by
  simp only [noted, emits_bind_iff, emits_pure_iff, emits_cursor_iff]
  constructor
  · rintro ⟨_, _, ⟨rfl, rfl⟩, inner, σ₁, hbody, rfl, rfl⟩
    exact ⟨inner, hbody, rfl⟩
  · rintro ⟨inner, hbody, rfl⟩
    exact ⟨_, _, ⟨rfl, rfl⟩, inner, σ', hbody, rfl, rfl⟩

/-- `move amount` succeeds where it stays on the tape. -/
@[simp] theorem emits_move_iff {amount : Int} : Emits σ (move amount) code σ' ↔
    OnTape (σ.cursor + amount) ∧ code = Fragment.moving amount ∧
      σ' = { σ with cursor := σ.cursor + amount } := by
  simp only [move, emits_bind_iff, emits_cursor_iff]
  constructor
  · rintro ⟨_, _, ⟨rfl, rfl⟩, h⟩
    split at h
    · next htape =>
      simp only [emits_bind_iff, emits_modify_iff, emits_pure_iff] at h
      obtain ⟨_, _, rfl, rfl, rfl⟩ := h
      exact ⟨htape, rfl, rfl⟩
    · exact absurd h not_emits_throw
  · rintro ⟨htape, rfl, rfl⟩
    refine ⟨_, _, ⟨rfl, rfl⟩, ?_⟩
    rw [if_pos (show 0 ≤ σ.cursor + amount ∧ σ.cursor + amount ≤ Register.lastPosition from htape)]
    simp

/-- `moveTo pos` succeeds for every `pos` on the tape, from anywhere. -/
@[simp] theorem emits_moveTo_iff {pos : Int} : Emits σ (moveTo pos) code σ' ↔
    OnTape pos ∧ code = Fragment.moving (pos - σ.cursor) ∧ σ' = { σ with cursor := pos } := by
  have hpos : σ.cursor + (pos - σ.cursor) = pos := by omega
  simp only [moveTo, emits_bind_iff, emits_cursor_iff, emits_move_iff]
  constructor
  · rintro ⟨_, _, ⟨rfl, rfl⟩, htape, rfl, rfl⟩
    rw [hpos] at htape ⊢
    exact ⟨htape, rfl, rfl⟩
  · rintro ⟨htape, rfl, rfl⟩
    exact ⟨_, _, ⟨rfl, rfl⟩, hpos.symm ▸ htape, rfl, by rw [hpos]⟩

/-- `inc` adds one. -/
@[simp] theorem emits_inc_iff : Emits σ inc code σ' ↔
    code = Fragment.adding 1 ∧ σ' = σ.bump 1 := by
  simp [inc, and_comm]

/-- `dec` subtracts one. -/
@[simp] theorem emits_dec_iff : Emits σ dec code σ' ↔
    code = Fragment.adding (-1) ∧ σ' = σ.bump (-1) := by
  simp [dec, and_comm]

/-- `write` changes nothing that a session tracks. -/
@[simp] theorem emits_write_iff : Emits σ write code σ' ↔ code = [.write] ∧ σ' = σ := by
  simp [write]

/-- `dump` changes nothing that a session tracks. -/
@[simp] theorem emits_dump_iff : Emits σ dump code σ' ↔ code = [.dump] ∧ σ' = σ := by
  simp [dump]

/-- After `read`, nothing is known of the cell under the cursor. -/
@[simp] theorem emits_read_iff : Emits σ read code σ' ↔
    code = [.read] ∧ σ' = σ.learn σ.cursor none := by
  simp [read, and_comm]

/-- After `clear`, the cell under the cursor is known to be zero. -/
@[simp] theorem emits_clear_iff : Emits σ clear code σ' ↔
    code = [.loop [.add (-1)]] ∧ σ' = σ.learn σ.cursor (some 0) := by
  simp [clear, and_comm]

/-- A step on a cell that the cursor is moved to. -/
theorem emits_at_iff {pos : Int} {step : Gen Fragment} :
    Emits σ (sequence [moveTo pos, step]) code σ' ↔ OnTape pos ∧ ∃ inner,
      Emits { σ with cursor := pos } step inner σ' ∧
        code = Fragment.moving (pos - σ.cursor) ++ inner := by
  simp only [emits_sequence_cons_iff, emits_sequence_nil_iff, emits_moveTo_iff]
  constructor
  · rintro ⟨_, _, _, ⟨htape, rfl, rfl⟩, ⟨inner, _, _, hstep, ⟨rfl, rfl⟩, rfl⟩, rfl⟩
    exact ⟨htape, inner, hstep, by rw [List.append_nil]⟩
  · rintro ⟨htape, inner, hstep, rfl⟩
    exact ⟨_, _, _, ⟨htape, rfl, rfl⟩, ⟨inner, [], σ', hstep, ⟨rfl, rfl⟩, rfl⟩,
      by rw [List.append_nil]⟩

/-- The same for a step that emits the same code wherever the cursor is. -/
theorem emits_at_iff_of_forall {pos : Int} {step : Gen Fragment} {inner : Fragment}
    {change : Session → Session}
    (hstep : ∀ {σ code σ'}, Emits σ step code σ' ↔ code = inner ∧ σ' = change σ) :
    Emits σ (sequence [moveTo pos, step]) code σ' ↔ OnTape pos ∧
      code = Fragment.moving (pos - σ.cursor) ++ inner ∧ σ' = change { σ with cursor := pos } := by
  rw [emits_at_iff]
  constructor
  · rintro ⟨htape, _, hinner, rfl⟩
    obtain ⟨rfl, rfl⟩ := hstep.mp hinner
    exact ⟨htape, rfl, rfl⟩
  · rintro ⟨htape, rfl, rfl⟩
    exact ⟨htape, inner, hstep.mpr ⟨rfl, rfl⟩, rfl⟩

/-- `incAt pos` goes to `pos` and adds one there. -/
theorem emits_incAt_iff {pos : Int} : Emits σ (incAt pos) code σ' ↔
    OnTape pos ∧ code = Fragment.moving (pos - σ.cursor) ++ Fragment.adding 1 ∧
      σ' = { σ with cursor := pos }.bump 1 :=
  emits_at_iff_of_forall emits_inc_iff

/-- `decAt pos` goes to `pos` and subtracts one there. -/
theorem emits_decAt_iff {pos : Int} : Emits σ (decAt pos) code σ' ↔
    OnTape pos ∧ code = Fragment.moving (pos - σ.cursor) ++ Fragment.adding (-1) ∧
      σ' = { σ with cursor := pos }.bump (-1) :=
  emits_at_iff_of_forall emits_dec_iff

/-- `clearAt pos` goes to `pos` and clears it. -/
theorem emits_clearAt_iff {pos : Int} : Emits σ (clearAt pos) code σ' ↔
    OnTape pos ∧ code = Fragment.moving (pos - σ.cursor) ++ [.loop [.add (-1)]] ∧
      σ' = { σ with cursor := pos }.learn pos (some 0) :=
  emits_at_iff_of_forall emits_clear_iff

/-- Adding a constant that is zero as a word generates nothing. -/
theorem emits_add_iff {amount : Int} : Emits σ (add amount) code σ' ↔
    (Word.wrap amount = 0 ∧ code = [] ∧ σ' = σ) ∨ (Word.wrap amount ≠ 0 ∧
      code = [.constant (Word.wrap amount) (addingCode (Word.wrap amount)
        ((σ.bump (Word.wrap amount)).knowledge.isZero (σ.cursor + 1)))] ∧
      σ' = σ.bump (Word.wrap amount)) := by
  by_cases hzero : Word.wrap amount = 0
  · simp [add, hzero]
  · simp [add, hzero, and_comm]

/-- `saveCursor` goes back behind its `body` to where the cursor was, which has to be on the tape.
-/
theorem emits_saveCursor_iff {body : Gen Fragment} : Emits σ (saveCursor body) code σ' ↔
    ∃ inner σ₁, Emits σ body inner σ₁ ∧ OnTape σ.cursor ∧
      code = inner ++ Fragment.moving (σ.cursor - σ₁.cursor) ∧
        σ' = { σ₁ with cursor := σ.cursor } := by
  simp only [saveCursor, emits_bind_iff, emits_cursor_iff, emits_sequence_cons_iff,
    emits_sequence_nil_iff, emits_moveTo_iff]
  constructor
  · rintro ⟨_, _, ⟨rfl, rfl⟩, inner, _, σ₁, hbody,
      ⟨_, _, _, ⟨htape, rfl, rfl⟩, ⟨rfl, rfl⟩, rfl⟩, rfl⟩
    exact ⟨inner, σ₁, hbody, htape, by rw [List.append_nil], rfl⟩
  · rintro ⟨inner, σ₁, hbody, htape, rfl, rfl⟩
    exact ⟨_, _, ⟨rfl, rfl⟩, inner, _, σ₁, hbody, ⟨_, _, _, ⟨htape, rfl, rfl⟩, ⟨rfl, rfl⟩,
      (List.append_nil _).symm⟩, rfl⟩

/-- A loop moves to its cell and enters; the body has to leave a session in which a loop is open. -/
theorem emits_loopOn_iff {control : Int} {body : Gen Fragment} :
    Emits σ (loopOn control body) code σ' ↔ ∃ inner σ₁ knowledge, OnTape control ∧
      Emits { σ with cursor := control, knowledge := σ.knowledge.enter control } body inner σ₁ ∧
      σ₁.knowledge.leave = some knowledge ∧ σ' = { σ₁ with knowledge } ∧
      code = Fragment.moving (control - σ.cursor) ++ [.loop inner] := by
  simp only [loopOn, emits_bind_iff, emits_moveTo_iff, enterLoop, emits_modify_iff, leaveLoop,
    emits_get_iff, emits_pure_iff]
  constructor
  · rintro ⟨_, _, ⟨htape, rfl, rfl⟩, _, _, rfl, inner, σ₁, hbody, _, _, ⟨_, _, ⟨rfl, rfl⟩, hleave⟩,
      rfl, rfl⟩
    split at hleave
    · next knowledge hknowledge =>
      obtain rfl := emits_set_iff.mp hleave
      exact ⟨inner, _, knowledge, htape, hbody, hknowledge, rfl, rfl⟩
    -- Without an open loop to be left there is a fault, and no code.
    · exact absurd hleave not_emits_throw
  · rintro ⟨inner, σ₁, knowledge, htape, hbody, hleave, rfl, rfl⟩
    refine ⟨_, _, ⟨htape, rfl, rfl⟩, (), _, rfl, inner, σ₁, hbody, (), _,
      ⟨_, _, ⟨rfl, rfl⟩, ?_⟩, rfl, rfl⟩
    simp only [hleave]
    exact emits_set_iff.mpr rfl

end Fragments

end TapeMachine.Generator
