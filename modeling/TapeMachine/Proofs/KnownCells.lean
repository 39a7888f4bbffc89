import Mathlib.Data.List.Infix
import TapeMachine.Generator.Knowledge

/-!
# How knowledge of the cells changes

What is known of a cell comes from the facts of the innermost open loop, or from those outside all
loops. Opening a loop starts with no facts, writing a cell replaces one, and closing a loop keeps of
the facts before it what its body agrees with.

The module introduces:

* `Generator.Knowledge.facts`: the facts that count at the current point of the code;
* `Generator.Knowledge.known_learn`: what is known after a cell was written;
* `Generator.Knowledge.Beneath`: what is known outside the innermost loop has not changed;
* `Generator.Knowledge.leave_of_beneath`, `Generator.Knowledge.lookup_mergeAll_of_some`: where the
  facts after a loop come from;
* `Generator.Knowledge.Forgotten`: nothing is known of a cell any more;
* `Generator.Knowledge.SameAt`: nothing has changed about a cell.
-/

namespace TapeMachine.Generator

/-- Looking a cell up finds the first fact about it. -/
theorem Facts.lookup_cons (p pos : Int) (v : Option Int) (rest : Facts) :
    List.lookup pos ((p, v) :: rest) = if pos = p then some v else rest.lookup pos := by
  rw [List.lookup_cons]
  by_cases hpos : pos = p
  · rw [if_pos hpos, beq_iff_eq.mpr hpos]
  · rw [if_neg hpos, beq_false_of_ne hpos]

/-- A fact that was set is found, and so are those about other cells. -/
@[simp] theorem Facts.lookup_set (facts : Facts) (pos other : Int) (value : Option Int) :
    (Facts.set pos value facts).lookup other =
      if other = pos then some value else facts.lookup other := by
  induction facts with
  | nil => rw [Facts.set, Facts.lookup_cons]
  | cons fact rest ih =>
    obtain ⟨p, v⟩ := fact
    rw [Facts.set]
    split
    · next hp =>
      rw [Facts.lookup_cons, Facts.lookup_cons, hp]
      split <;> rfl
    -- The fact that is replaced is further on.
    · next hp =>
      rw [Facts.lookup_cons, Facts.lookup_cons, ih]
      by_cases hother : other = p
      · have hpos : other ≠ pos := fun h => hp (hother.symm.trans h)
        rw [if_pos hother, if_neg hpos, if_pos hother]
      · rw [if_neg hother, if_neg hother]

namespace Knowledge

variable {k after : Knowledge} {pos other : Int} {value : Option Int} {v : Int}

/-- The facts that count at the current point of the code: those of the innermost loop. -/
def facts (k : Knowledge) : Facts :=
  match k.loops with
  | [] => k.base
  | frame :: _ => frame.facts

/-- Clean pads are known to be zero. -/
theorem known_of_isCleanPad (h : k.isCleanPad pos = true) : k.known pos = some 0 :=
  if_pos h

/-- A cell is known as the facts say, if it is no clean pad. -/
theorem known_of_lookup (hpad : k.isCleanPad pos = false) (h : k.facts.lookup pos = some value) :
    k.known pos = value := by
  rw [known, hpad, if_neg (by decide)]
  unfold facts at h
  cases hloops : k.loops with
  | nil => simp_all
  | cons frame outer => simp_all

/-- A cell without a fact is known to be zero outside of loops only. -/
theorem known_of_untouched (hpad : k.isCleanPad pos = false) (h : k.facts.lookup pos = none) :
    k.known pos = if k.loops = [] then some 0 else none := by
  rw [known, hpad, if_neg (by decide)]
  unfold facts at h
  cases hloops : k.loops with
  | nil =>
    rw [hloops] at h
    simp only [show k.base.lookup pos = none from h, Option.getD_none, if_true]
  | cons frame outer =>
    rw [hloops] at h
    simp only [show frame.facts.lookup pos = none from h, Option.getD_none, reduceCtorEq, if_false]

/-- What is known of a cell depends on its fact, on whether it is a clean pad and on whether the
code is in a loop. -/
theorem known_congr (hpad : after.isCleanPad pos = k.isCleanPad pos)
    (hfact : after.facts.lookup pos = k.facts.lookup pos)
    (hloops : after.loops = [] ↔ k.loops = []) : after.known pos = k.known pos := by
  cases hclean : k.isCleanPad pos with
  | true => rw [known_of_isCleanPad hclean, known_of_isCleanPad (hpad.trans hclean)]
  | false =>
    cases hlookup : k.facts.lookup pos with
    | none =>
      rw [known_of_untouched hclean hlookup,
        known_of_untouched (hpad.trans hclean) (hfact.trans hlookup)]
      simp only [hloops]
    | some fact =>
      rw [known_of_lookup hclean hlookup,
        known_of_lookup (hpad.trans hclean) (hfact.trans hlookup)]

/-! ### Writing a cell -/

/-- Assuming a `value` sets a fact of the innermost loop. -/
@[simp] theorem facts_assume : (k.assume pos value).facts = k.facts.set pos value := by
  unfold assume facts
  cases hloops : k.loops with
  | nil => simp
  | cons frame outer => rfl

/-- Assuming a `value` makes no pad dirty. -/
@[simp] theorem dirty_assume : (k.assume pos value).dirty = k.dirty := by
  unfold assume
  split <;> rfl

/-- Learning is assuming, but for pads. -/
theorem learn_of_not_isPad (hpad : Register.isPad pos = false) :
    k.learn pos value = k.assume pos value := by
  simp [learn, hpad]

/-- A pad that is written gets dirty. -/
theorem dirty_learn : (k.learn pos value).dirty =
    if Register.isPad pos then k.dirty.insert pos else k.dirty := by
  unfold learn
  split <;> simp

/-- Learning of a cell that is no pad makes no pad dirty. -/
theorem dirty_learn_of_not_isPad (hpad : Register.isPad pos = false) :
    (k.learn pos value).dirty = k.dirty := by
  rw [learn_of_not_isPad hpad, dirty_assume]

/-- A dirty pad stays dirty. -/
theorem dirty_suffix_learn : k.dirty <:+ (k.learn pos value).dirty := by
  rw [dirty_learn]
  split
  · exact List.suffix_insert pos k.dirty
  · exact List.suffix_rfl

/-- Learning a `value` sets a fact of the innermost loop. -/
theorem facts_learn : (k.learn pos value).facts = k.facts.set pos value := by
  unfold learn
  split <;> exact facts_assume

/-- Assuming a `value` makes no pad dirty, so the same ones are clean. -/
@[simp] theorem isCleanPad_assume : (k.assume pos value).isCleanPad other = k.isCleanPad other := by
  rw [isCleanPad, isCleanPad, dirty_assume]

/-- Assuming a `value` opens and closes no loop. -/
theorem loops_assume_eq_nil_iff : (k.assume pos value).loops = [] ↔ k.loops = [] := by
  unfold assume
  split <;> simp_all

/-- Learning a `value` opens and closes no loop. -/
theorem loops_learn_eq_nil_iff : (k.learn pos value).loops = [] ↔ k.loops = [] := by
  unfold learn
  split <;> exact loops_assume_eq_nil_iff

/-- The `value` that was assumed is known, and other cells are known as before. -/
theorem known_assume (hpad : k.isCleanPad other = false) :
    (k.assume pos value).known other = if other = pos then value else k.known other := by
  split
  · next hother =>
    exact known_of_lookup (isCleanPad_assume.trans hpad)
      (by rw [facts_assume, Facts.lookup_set, if_pos hother])
  · next hother =>
    exact known_congr isCleanPad_assume (by rw [facts_assume, Facts.lookup_set, if_neg hother])
      loops_assume_eq_nil_iff

/-- Other cells are known as before, clean pads among them. -/
theorem known_assume_of_ne (hne : other ≠ pos) :
    (k.assume pos value).known other = k.known other :=
  known_congr isCleanPad_assume (by rw [facts_assume, Facts.lookup_set, if_neg hne])
    loops_assume_eq_nil_iff

/-- A clean pad is a pad. -/
theorem isPad_of_isCleanPad (h : k.isCleanPad pos = true) : Register.isPad pos = true :=
  (Bool.and_eq_true_iff.mp h).1

/-- A pad is clean if it is not dirty. -/
theorem isCleanPad_iff :
    k.isCleanPad pos = true ↔ Register.isPad pos = true ∧ pos ∉ k.dirty := by
  simp [isCleanPad]

/-- A pad that is clean after a cell was written is another one, and was clean before. -/
theorem isCleanPad_of_learn (h : (k.learn pos value).isCleanPad other = true) :
    other ≠ pos ∧ k.isCleanPad other = true := by
  rw [isCleanPad_iff, dirty_learn] at h
  rw [isCleanPad_iff]
  split at h
  · next hpad => simpa [and_assoc, and_comm, and_left_comm] using h
  · next hpad => exact ⟨fun hpos => hpad (hpos ▸ h.1), h⟩

/-- What is no pad is no clean one. -/
theorem isCleanPad_of_not_isPad (hpad : Register.isPad pos = false) : k.isCleanPad pos = false := by
  rw [isCleanPad, hpad, Bool.false_and]

/-- Writing a cell that is no pad changes what is known of that cell only. -/
theorem known_learn (hpad : Register.isPad pos = false) :
    (k.learn pos value).known other = if other = pos then value else k.known other := by
  rw [learn_of_not_isPad hpad]
  cases hclean : k.isCleanPad other with
  | false => exact known_assume hclean
  | true =>
    have hother : other ≠ pos := by
      rintro rfl
      rw [isCleanPad_of_not_isPad hpad] at hclean
      cases hclean
    rw [if_neg hother, known_of_isCleanPad hclean, known_of_isCleanPad (by rwa [isCleanPad_assume])]

/-! ### Loops -/

/-- Whether, coming from `k`, nothing outside the innermost open loop has changed, and that loop is
still open. -/
def Beneath (k after : Knowledge) : Prop :=
  match k.loops with
  | [] => after.loops = []
  | frame :: outer => after.base = k.base ∧ ∃ facts, after.loops = { frame with facts } :: outer

/-- Knowledge is beneath itself. -/
theorem Beneath.refl (k : Knowledge) : k.Beneath k := by
  unfold Beneath
  cases k.loops with
  | nil => rfl
  | cons frame outer => exact ⟨rfl, frame.facts, rfl⟩

/-- What is beneath is so at any depth. -/
theorem Beneath.trans {k₁ k₂ k₃ : Knowledge} (h₁ : k₁.Beneath k₂) (h₂ : k₂.Beneath k₃) :
    k₁.Beneath k₃ := by
  unfold Beneath at h₁ ⊢
  cases hloops : k₁.loops with
  | nil =>
    rw [hloops] at h₁
    rw [Beneath, show k₂.loops = [] from h₁] at h₂
    exact h₂
  | cons frame outer =>
    rw [hloops] at h₁
    obtain ⟨hbase, facts, hfacts⟩ := h₁
    rw [Beneath, hfacts] at h₂
    obtain ⟨hbase', facts', hfacts'⟩ := h₂
    exact ⟨hbase'.trans hbase, facts', hfacts'⟩

/-- Outside of loops there is nothing further out. -/
theorem Beneath.loops_eq_nil (h : k.Beneath after) (hloops : after.loops = []) : k.loops = [] := by
  cases hk : k.loops with
  | nil => rfl
  | cons frame outer =>
    rw [Beneath, hk] at h
    obtain ⟨-, facts, hfacts⟩ := h
    rw [hloops] at hfacts
    cases hfacts

/-- Assuming a `value` changes the innermost loop only. -/
theorem beneath_assume : k.Beneath (k.assume pos value) := by
  unfold Beneath assume
  cases hloops : k.loops with
  | nil => rfl
  | cons frame outer => exact ⟨rfl, _, rfl⟩

/-- Learning a `value` changes the innermost loop only. -/
theorem beneath_learn : k.Beneath (k.learn pos value) := by
  unfold learn
  split
  · exact beneath_assume (k := { k with dirty := k.dirty.insert pos })
  · exact beneath_assume

/-- Merging all facts that the body of a loop has established. -/
def mergeAll (k : Knowledge) (body : Facts) : Knowledge :=
  body.foldl (fun k (pos, after) => k.merge pos after) k

/-- Facts are merged one by one. -/
theorem mergeAll_cons (fact : Option Int) (rest : Facts) :
    k.mergeAll ((pos, fact) :: rest) = (k.merge pos fact).mergeAll rest :=
  rfl

/-- Merging the facts of a `body` changes the innermost loop only, and makes no pad dirty. -/
theorem mergeAll_frame (body : Facts) :
    k.Beneath (k.mergeAll body) ∧ (k.mergeAll body).dirty = k.dirty := by
  induction body generalizing k with
  | nil => exact ⟨.refl k, rfl⟩
  | cons fact rest ih =>
    obtain ⟨hbeneath, hdirty⟩ := ih (k := k.merge fact.1 fact.2)
    exact ⟨beneath_assume.trans hbeneath, hdirty.trans dirty_assume⟩

/-- A cell that the body has not written keeps its fact. -/
theorem lookup_mergeAll_of_none {body : Facts} (h : body.lookup pos = none) :
    (k.mergeAll body).facts.lookup pos = k.facts.lookup pos := by
  induction body generalizing k with
  | nil => rfl
  | cons fact rest ih =>
    obtain ⟨p, a⟩ := fact
    rw [Facts.lookup_cons] at h
    split at h
    · cases h
    · next hpos =>
      rw [mergeAll_cons, ih h, merge, facts_assume, Facts.lookup_set, if_neg hpos]

/-- A value that is known after a loop of a cell that its body has written is known before the
loop, and after the body as well unless the cell is a clean pad. -/
theorem lookup_mergeAll_of_some {body : Facts} (h : body.lookup pos = some value) :
    ∃ fact, (k.mergeAll body).facts.lookup pos = some fact ∧
      ∀ v, fact = some v → k.known pos = some v ∧ (k.isCleanPad pos = false → value = some v) := by
  induction body generalizing k value with
  | nil => cases h
  | cons fact rest ih =>
    obtain ⟨p, a⟩ := fact
    have hpad : (k.merge p a).isCleanPad pos = k.isCleanPad pos := isCleanPad_assume
    rw [Facts.lookup_cons] at h
    rw [mergeAll_cons]
    by_cases hpos : pos = p
    · subst hpos
      rw [if_pos rfl] at h
      obtain rfl := Option.some.inj h
      have hmerged : ∀ v, (if k.known pos = a then k.known pos else none) = some v →
          k.known pos = some v ∧ a = some v := by
        intro v hv
        split at hv
        · next hsame => exact ⟨hv, hsame.symm.trans hv⟩
        · cases hv
      -- The cell may have another fact further on, which is then merged with what this one left.
      cases hrest : rest.lookup pos with
      | none =>
        refine ⟨_, (lookup_mergeAll_of_none hrest).trans ?_, fun v hv =>
          ⟨(hmerged v hv).1, fun _ => (hmerged v hv).2⟩⟩
        rw [merge, facts_assume, Facts.lookup_set, if_pos rfl]
      | some later =>
        obtain ⟨fact, hfact, hvalue⟩ := ih (k := k.merge pos a) hrest
        refine ⟨fact, hfact, fun v hv => ?_⟩
        have hknown := (hvalue v hv).1
        cases hclean : k.isCleanPad pos with
        | true =>
          rw [known_of_isCleanPad (hpad.trans hclean)] at hknown
          exact ⟨(known_of_isCleanPad hclean).trans hknown, nofun⟩
        | false =>
          rw [merge, known_assume hclean, if_pos rfl] at hknown
          exact ⟨(hmerged v hknown).1, fun _ => (hmerged v hknown).2⟩
    · rw [if_neg hpos] at h
      obtain ⟨fact, hfact, hvalue⟩ := ih (k := k.merge p a) h
      rw [hpad, merge, known_assume_of_ne hpos] at hvalue
      exact ⟨fact, hfact, hvalue⟩

/-- What closing a loop does, if its body has changed nothing outside it: the facts of the body are
merged into those before the loop, and the cell tested is known to be zero. -/
theorem leave_of_beneath {control : Int} (hbody : (k.enter control).Beneath after)
    {left : Knowledge} (hleave : after.leave = some left) :
    left = (mergeAll { k with dirty := after.dirty } after.facts).assume control (some 0) := by
  obtain ⟨hbase, facts, hloops⟩ := hbody
  rw [leave, hloops] at hleave
  obtain rfl := Option.some.inj hleave
  have hfacts : after.facts = facts := by
    rw [Knowledge.facts, hloops]
  rw [hfacts, show k.base = after.base from hbase.symm]
  rfl

/-- A loop that is still open can be closed. -/
theorem exists_leave {control : Int} (hbody : (k.enter control).Beneath after) :
    ∃ left, after.leave = some left := by
  obtain ⟨-, facts, hloops⟩ := hbody
  rw [leave, hloops]
  exact ⟨_, rfl⟩

/-- Closing a loop leaves what is beneath the loop around it unchanged, and the dirty pads as the
body left them. -/
theorem leave_frame {control : Int} (hbody : (k.enter control).Beneath after) {left : Knowledge}
    (hleave : after.leave = some left) : k.Beneath left ∧ left.dirty = after.dirty := by
  rw [leave_of_beneath hbody hleave]
  obtain ⟨hbeneath, hdirty⟩ := mergeAll_frame (k := { k with dirty := after.dirty }) after.facts
  exact ⟨hbeneath.trans beneath_assume, dirty_assume.trans hdirty⟩

/-- The facts after a loop that has made no more pads dirty. -/
theorem lookup_leave {control : Int} (hbody : (k.enter control).Beneath after) {left : Knowledge}
    (hleave : after.leave = some left) (hdirty : left.dirty = k.dirty) (pos : Int) :
    left.facts.lookup pos =
      if pos = control then some (some 0) else (k.mergeAll after.facts).facts.lookup pos := by
  have hsame : { k with dirty := after.dirty } = k := by
    rw [← (leave_frame hbody hleave).2, hdirty]
  rw [leave_of_beneath hbody hleave, hsame, facts_assume, Facts.lookup_set]

/-- The cell that a loop tests is known to be zero after it. -/
theorem known_leave_control {control : Int} (hbody : (k.enter control).Beneath after)
    {left : Knowledge} (hleave : after.leave = some left) : left.known control = some 0 := by
  rw [leave_of_beneath hbody hleave]
  cases hclean : (mergeAll { k with dirty := after.dirty } after.facts).isCleanPad control with
  | true => exact known_of_isCleanPad (isCleanPad_assume.trans hclean)
  | false => rw [known_assume hclean, if_pos rfl]

/-! ### Cells of which nothing is known any more -/

/-- Whether a cell has been written, so that it is no clean pad, and its fact is that nothing is
known of it. -/
structure Forgotten (cell : Int) (k : Knowledge) : Prop where
  lookup_eq : k.facts.lookup cell = some none
  not_isCleanPad : k.isCleanPad cell = false

/-- Nothing is known of a cell that is forgotten. -/
theorem Forgotten.known_eq (h : Forgotten pos k) : k.known pos = none :=
  known_of_lookup h.not_isCleanPad h.lookup_eq

/-- A cell that was written is no clean pad. -/
theorem isCleanPad_learn_self : (k.learn pos value).isCleanPad pos = false := by
  rw [Bool.eq_false_iff]
  exact fun h => (isCleanPad_of_learn h).1 rfl

/-- At the start of a pass nothing is known of cells that are no clean pads. -/
theorem known_enter {control : Int} (hpad : k.isCleanPad pos = false) :
    (k.enter control).known pos = none :=
  known_of_untouched hpad rfl

/-- Learning nothing about a cell is forgetting it. -/
theorem forgotten_learn : Forgotten pos (k.learn pos none) :=
  ⟨by rw [facts_learn, Facts.lookup_set, if_pos rfl], isCleanPad_learn_self⟩

/-- What the body of a loop leaves unknown is unknown after the loop, whatever was known before. -/
theorem Forgotten.leave {control : Int} (h : Forgotten pos after)
    (hbody : (k.enter control).Beneath after) {left : Knowledge}
    (hleave : after.leave = some left) (hne : pos ≠ control) : Forgotten pos left := by
  have hpad : left.isCleanPad pos = false := by
    rw [isCleanPad, (leave_frame hbody hleave).2]
    exact h.not_isCleanPad
  obtain ⟨fact, hmerged, hagree⟩ :=
    lookup_mergeAll_of_some (k := { k with dirty := after.dirty }) h.lookup_eq
  have hunknown : fact = none := by
    cases fact with
    | none => rfl
    | some v => cases (hagree v rfl).2 h.not_isCleanPad
  refine ⟨?_, hpad⟩
  rw [leave_of_beneath hbody hleave, facts_assume, Facts.lookup_set, if_neg hne, hmerged, hunknown]

/-! ### Cells that nothing happens to -/

/-- Whether, coming from `k`, nothing has changed about a cell, nor outside the innermost open loop.
-/
structure SameAt (cell : Int) (k after : Knowledge) : Prop where
  beneath : k.Beneath after
  lookup_eq : after.facts.lookup cell = k.facts.lookup cell
  dirty_iff : cell ∈ after.dirty ↔ cell ∈ k.dirty

namespace SameAt

variable {cell : Int}

/-- Nothing happens to a cell in nothing. -/
theorem refl (cell : Int) (k : Knowledge) : SameAt cell k k :=
  ⟨.refl k, rfl, Iff.rfl⟩

/-- What nothing happens to twice, nothing happens to. -/
theorem trans {k₁ k₂ k₃ : Knowledge} (h₁ : SameAt cell k₁ k₂) (h₂ : SameAt cell k₂ k₃) :
    SameAt cell k₁ k₃ :=
  ⟨h₁.beneath.trans h₂.beneath, h₂.lookup_eq.trans h₁.lookup_eq, h₂.dirty_iff.trans h₁.dirty_iff⟩

/-- Writing another cell. -/
theorem of_learn (hne : cell ≠ pos) : SameAt cell k (k.learn pos value) := by
  refine ⟨beneath_learn, by rw [facts_learn, Facts.lookup_set, if_neg hne], ?_⟩
  rw [dirty_learn]
  split
  · rw [List.mem_insert_iff, or_iff_right hne]
  · rfl

/-- A loop on another cell, to whose body it makes no difference what is known before. -/
theorem of_leave {control : Int} (hbody : SameAt cell (k.enter control) after) {left : Knowledge}
    (hleave : after.leave = some left) (hne : cell ≠ control) : SameAt cell k left := by
  obtain ⟨hbeneath, hdirty⟩ := leave_frame hbody.beneath hleave
  refine ⟨hbeneath, ?_, hdirty ▸ hbody.dirty_iff⟩
  -- The body has established nothing about the cell, so there is nothing to merge.
  have hnone : after.facts.lookup cell = none := hbody.lookup_eq
  rw [leave_of_beneath hbody.beneath hleave, facts_assume, Facts.lookup_set, if_neg hne,
    lookup_mergeAll_of_none hnone]
  rfl

/-- A pad that nothing happens to is as clean as before. -/
theorem isCleanPad_eq (h : SameAt cell k after) : after.isCleanPad cell = k.isCleanPad cell := by
  rw [Bool.eq_iff_iff, isCleanPad_iff, isCleanPad_iff, h.dirty_iff]

/-- A cell that nothing happens to is known as before. -/
theorem known_eq (h : SameAt cell k after) : after.known cell = k.known cell := by
  refine known_congr h.isCleanPad_eq h.lookup_eq ⟨h.beneath.loops_eq_nil, fun hloops => ?_⟩
  have hbeneath := h.beneath
  rwa [Beneath, hloops] at hbeneath

/-- A cell that nothing happens to stays forgotten. -/
theorem forgotten (h : SameAt cell k after) (hforgotten : Forgotten cell k) :
    Forgotten cell after :=
  ⟨h.lookup_eq.trans hforgotten.lookup_eq, h.isCleanPad_eq.trans hforgotten.not_isCleanPad⟩

end SameAt

end Knowledge

end TapeMachine.Generator
