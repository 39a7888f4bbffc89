import TapeMachine.Proofs.ConstantTransparency
import TapeMachine.Proofs.TwinSessions

/-!
# How values are tracked

A session tracks the values of cells modulo 256, or it tracks them as they are and warns of those
that are out of the range of a byte. What it knows decides which constants are factored, so the two
ways of tracking may lead to different code: a cell with the value 256 is known to be zero in one of
them only, and a value that a loop changes by 256 stays known in one of them only.

This is all there is to it. The code differs in nothing but constants that are factored where values
are tracked modulo 256 and plain where they are not, and without a warning it does not differ at
all. What has been recorded has no influence on the code.

The module introduces:

* `Generator.Refactors`: code that differs in factored constants only;
* `Generator.Knowledge.Reduces`: what is known is known modulo 256, too;
* `Generator.Twins.reducing`, `Generator.Twins.unwarned`: the relations between two sessions;
* `Generator.performEach_refactors`: what the code of two sessions has in common.
-/

namespace TapeMachine

/-- The traces of two fragments in a row stand in a row. -/
theorem Fragment.traceAt_append (depth : Nat) (first second : Fragment) :
    Fragment.traceAt depth (first ++ second) =
      Fragment.traceAt depth first ++ Fragment.traceAt depth second := by
  induction first with
  | nil => rfl
  | cons code rest ih =>
    rw [List.cons_append, Fragment.traceAt, Fragment.traceAt, ih, List.append_assoc]

namespace Generator

/-! ### Code that differs in factored constants -/

/-! #### The text and the notes of constants -/

/-- There are no more symbols than the `amount` says; the least word has none. -/
private theorem length_symbols_le (up down : Char) (amount : Int) :
    (Code.symbols up down amount).length ≤ amount.natAbs := by
  unfold Code.symbols
  split
  · exact Nat.zero_le _
  · exact (List.length_replicate).le

/-- Adding an `amount` takes no more symbols than it says. -/
private theorem length_text_adding_le (amount : Int) :
    (Fragment.text (Fragment.adding amount)).length ≤ amount.natAbs := by
  unfold Fragment.adding
  split
  · exact Nat.zero_le _
  · rw [Fragment.text_cons, Fragment.text_nil, List.append_nil]
    exact length_symbols_le _ _ amount

/-- The number of symbols that factors are said to take is enough. -/
private theorem length_text_factors_le {n : Nat} {sign : Int} (hsign : sign.natAbs = 1) :
    ((Fragment.text ((Factors.of n).code sign)).length : Int) ≤ (Factors.of n).cost := by
  have hcounter : 0 ≤ (Factors.of n).counter ∧ 0 ≤ (Factors.of n).step := by
    have hstep : (0 : Int) ≤
        ((n - n % Rounding.squareRoot n) / Rounding.squareRoot n : Nat) := Int.natCast_nonneg _
    rw [Factors.of]
    split <;> constructor <;> dsimp only <;> omega
  have hcount := length_text_adding_le (Factors.of n).counter
  have hstep := length_text_adding_le (sign * (Factors.of n).step)
  have hrest := length_text_adding_le (sign * (Factors.of n).rest)
  rw [Int.natAbs_mul, hsign, Nat.one_mul] at hstep hrest
  rw [Factors.length_text_code, Factors.cost]
  omega

/-- Without a counter a constant is a plain run. -/
theorem addingCode_false (amount : Int) : addingCode amount false = Fragment.adding amount :=
  if_neg fun h => Bool.noConfusion h.2.2

/-- Factoring a constant pays, or it is not done. -/
theorem length_text_addingCode_le (amount : Int) (nextIsZero : Bool) :
    (Fragment.text (addingCode amount nextIsZero)).length ≤
      (Fragment.text (Fragment.adding amount)).length := by
  simp only [addingCode]
  split
  · next hfactored =>
    have hsign : (if amount < 0 then -1 else 1 : Int).natAbs = 1 := by split <;> rfl
    have hcost := length_text_factors_le (n := amount.natAbs) hsign
    rw [Fragment.length_text_adding hfactored.1]
    omega
  · exact Nat.le_refl _

/-- Constants have no notes. -/
theorem traceAt_addingCode (depth : Nat) (amount : Int) (nextIsZero : Bool) :
    Fragment.traceAt depth (addingCode amount nextIsZero) = [] := by
  have hmoving : ∀ n, Fragment.traceAt depth (Fragment.moving n) = [] := by
    intro n
    unfold Fragment.moving
    split <;> rfl
  have hadding : ∀ n, Fragment.traceAt depth (Fragment.adding n) = [] := by
    intro n
    unfold Fragment.adding
    split <;> rfl
  obtain hcode | ⟨-, hcode⟩ := addingCode_cases amount nextIsZero
  · rw [hcode, hadding]
  · simp [hcode, Factors.code, Fragment.traceAt_append, Fragment.traceAt, Code.traceAt, hmoving,
      hadding]

/-! #### The relation -/

/-- Whether code differs from other code only in that some constants are factored instead of written
as plain runs. -/
inductive Refactors : Fragment → Fragment → Prop
  | refl (code : Fragment) : Refactors code code
  | append {a a' b b' : Fragment} (h : Refactors a a') (h' : Refactors b b') :
      Refactors (a ++ b) (a' ++ b')
  | noted (note : Bytes) {a a' : Fragment} (h : Refactors a a') :
      Refactors [.noted note a] [.noted note a']
  | loop {a a' : Fragment} (h : Refactors a a') : Refactors [.loop a] [.loop a']
  | constant (amount : Int) :
      Refactors [.constant amount (Fragment.adding amount)]
        [.constant amount (addingCode amount true)]

namespace Refactors

variable {a b : Fragment}

/-- Code that differs in factored constants is the same if they are spelled out. -/
theorem spelledOut_eq (h : Refactors a b) : Fragment.spelledOut a = Fragment.spelledOut b := by
  induction h with
  | refl => rfl
  | append _ _ ih₁ ih₂ => rw [Fragment.spelledOut_append, Fragment.spelledOut_append, ih₁, ih₂]
  | noted note _ ih => simp only [Fragment.spelledOut, Code.spelledOut, ih]
  | loop _ ih => simp only [Fragment.spelledOut, Code.spelledOut, ih]
  | constant amount => rw [Fragment.spelledOut_constant, Fragment.spelledOut_constant]

/-- The notes are the same, as constants have none. -/
theorem traceAt_eq (h : Refactors a b) (depth : Nat) :
    Fragment.traceAt depth a = Fragment.traceAt depth b := by
  induction h generalizing depth with
  | refl => rfl
  | append _ _ ih₁ ih₂ => rw [Fragment.traceAt_append, Fragment.traceAt_append, ih₁, ih₂]
  | noted note _ ih => simp only [Fragment.traceAt, Code.traceAt, ih]
  | loop _ ih => simp only [Fragment.traceAt, Code.traceAt, ih]
  | constant amount =>
    have hplain : Fragment.traceAt depth (Fragment.adding amount) = [] := by
      rw [← addingCode_false, traceAt_addingCode]
    simp only [Fragment.traceAt, Code.traceAt, hplain, traceAt_addingCode]

/-- Factoring a constant makes the text no longer. -/
theorem length_text_le (h : Refactors a b) :
    (Fragment.text b).length ≤ (Fragment.text a).length := by
  induction h with
  | refl => exact Nat.le_refl _
  | append _ _ ih₁ ih₂ =>
    rw [Fragment.text_append, Fragment.text_append, List.length_append, List.length_append]
    omega
  | noted note _ ih => rwa [Fragment.text_noted, Fragment.text_noted]
  | loop _ ih =>
    rw [Fragment.length_text_loop, Fragment.length_text_loop]
    omega
  | constant amount =>
    rw [Fragment.text_constant, Fragment.text_constant]
    exact length_text_addingCode_le amount true

end Refactors

/-! ### Knowledge modulo 256 -/

/-- Whether a value that is known is known modulo 256, too. -/
def Reduces (known known' : Option Int) : Prop :=
  ∀ v, known = some v → known' = some (v % 256)

/-- Whether facts speak of the same cells, and what is known of them is known modulo 256, too. -/
def Facts.Reduces (facts facts' : Facts) : Prop :=
  List.Forall₂ (fun fact fact' => fact'.1 = fact.1 ∧ Generator.Reduces fact.2 fact'.2) facts facts'

/-- Whether what is known at a point of the code is known modulo 256, too. -/
structure Knowledge.Reduces (k k' : Knowledge) : Prop where
  base : k.base.Reduces k'.base
  loops : List.Forall₂ (fun frame frame' => frame'.control = frame.control ∧
    frame.facts.Reduces frame'.facts) k.loops k'.loops
  dirty : k'.dirty = k.dirty

/-- Where nothing is known, anything may be known modulo 256. -/
theorem reduces_none (known : Option Int) : Reduces none known := by
  rintro v ⟨⟩

/-- A value may be known modulo 256. -/
theorem reduces_some {v w : Int} (h : w = v % 256) : Reduces (some v) (some w) := by
  rintro _ ⟨⟩
  rw [h]

/-- A value that is a byte is known as it is. -/
theorem reduces_of_byte {value : Option Int} (h : ∀ v, value = some v → 0 ≤ v ∧ v ≤ 255) :
    Reduces value value := by
  rintro v rfl
  obtain ⟨hlow, hhigh⟩ := h v rfl
  rw [Int.emod_eq_of_lt hlow (by omega)]

namespace Facts.Reduces

variable {facts facts' : Facts} {pos : Int} {value value' : Option Int}

/-- A cell has a fact in both or in none. -/
theorem lookup (h : facts.Reduces facts') (pos : Int) :
    (facts.lookup pos = none ∧ facts'.lookup pos = none) ∨ ∃ a b, facts.lookup pos = some a ∧
      facts'.lookup pos = some b ∧ Generator.Reduces a b := by
  induction h with
  | nil => exact Or.inl ⟨rfl, rfl⟩
  | @cons fact fact' rest rest' hfact _ ih =>
    obtain ⟨p, v⟩ := fact
    obtain ⟨_, v'⟩ := fact'
    obtain ⟨rfl, hv⟩ := hfact
    simp only [Facts.lookup_cons]
    split
    · exact Or.inr ⟨v, v', rfl, rfl, hv⟩
    · exact ih

/-- A fact may be set on both sides. -/
theorem set (h : facts.Reduces facts') (hvalue : Generator.Reduces value value') :
    (facts.set pos value).Reduces (facts'.set pos value') := by
  induction h with
  | nil => exact .cons ⟨rfl, hvalue⟩ .nil
  | @cons fact fact' rest rest' hfact hrest ih =>
    obtain ⟨p, v⟩ := fact
    obtain ⟨_, v'⟩ := fact'
    obtain ⟨rfl, hv⟩ := hfact
    simp only [Facts.set]
    split
    · exact .cons ⟨rfl, hvalue⟩ hrest
    · exact .cons ⟨rfl, hv⟩ ih

end Facts.Reduces

namespace Knowledge.Reduces

variable {k k' : Knowledge} {pos : Int} {value value' : Option Int}

/-- The same pads are clean. -/
theorem isCleanPad (h : k.Reduces k') (pos : Int) : k'.isCleanPad pos = k.isCleanPad pos := by
  rw [Knowledge.isCleanPad, Knowledge.isCleanPad, h.dirty]

/-- What is known of a cell is known modulo 256. -/
theorem known (h : k.Reduces k') (pos : Int) : Generator.Reduces (k.known pos) (k'.known pos) := by
  rw [Knowledge.known, Knowledge.known, h.isCleanPad]
  split
  · exact reduces_some rfl
  · obtain ⟨base, loops, -⟩ := h
    obtain ⟨b, l, d⟩ := k
    obtain ⟨b', l', d'⟩ := k'
    -- The facts that count are those outside all loops, or those of the innermost one.
    cases loops with
    | nil =>
      obtain ⟨hnone, hnone'⟩ | ⟨a, b, ha, hb, hab⟩ := base.lookup pos
      · simp only [hnone, hnone']
        exact reduces_some rfl
      · simp only [ha, hb]
        exact hab
    | cons hframe _ =>
      obtain ⟨hnone, -⟩ | ⟨a, b, ha, hb, hab⟩ := hframe.2.lookup pos
      · simp only [hnone]
        exact reduces_none _
      · simp only [ha, hb]
        exact hab

/-- A cell that is known to be zero is so modulo 256. -/
theorem isZero (h : k.Reduces k') (hzero : k.isZero pos = true) : k'.isZero pos = true := by
  have hknown := h.known pos 0 (eq_of_beq hzero)
  rw [Knowledge.isZero, hknown]
  rfl

/-- A value may be assumed on both sides. -/
theorem assume (h : k.Reduces k') (pos : Int) (hvalue : Generator.Reduces value value') :
    (k.assume pos value).Reduces (k'.assume pos value') := by
  obtain ⟨base, loops, dirty⟩ := h
  obtain ⟨b, l, d⟩ := k
  obtain ⟨b', l', d'⟩ := k'
  cases loops with
  | nil => exact ⟨base.set hvalue, .nil, dirty⟩
  | cons hframe hrest => exact ⟨base, .cons ⟨hframe.1, hframe.2.set hvalue⟩ hrest, dirty⟩

/-- A value may be learned on both sides. -/
theorem learn (h : k.Reduces k') (pos : Int) (hvalue : Generator.Reduces value value') :
    (k.learn pos value).Reduces (k'.learn pos value') := by
  have hdirty : Knowledge.Reduces { k with dirty := k.dirty.insert pos }
      { k' with dirty := k'.dirty.insert pos } :=
    ⟨h.base, h.loops, congrArg (List.insert pos) h.dirty⟩
  unfold Knowledge.learn
  dsimp only
  split
  · exact hdirty.assume pos hvalue
  · exact h.assume pos hvalue

/-- A loop may be entered on both sides. -/
theorem enter (h : k.Reduces k') (control : Int) : (k.enter control).Reduces (k'.enter control) :=
  ⟨h.base, .cons ⟨rfl, .nil⟩ h.loops, h.dirty⟩

/-- What is known before a loop and behind its body alike is so modulo 256. -/
theorem merge (h : k.Reduces k') (pos : Int) (hafter : Generator.Reduces value value') :
    (k.merge pos value).Reduces (k'.merge pos value') := by
  refine h.assume pos ?_
  split
  · next heq =>
    -- Equal values are equal modulo 256, but not the other way round: here the two ways of
    -- tracking part.
    rintro v hv
    rw [if_pos ((h.known pos v hv).trans (hafter v (heq ▸ hv)).symm)]
    exact h.known pos v hv
  · exact reduces_none _

/-- The facts of a body may be merged on both sides. -/
theorem mergeAll {facts facts' : Facts} (hfacts : facts.Reduces facts') (h : k.Reduces k') :
    (k.mergeAll facts).Reduces (k'.mergeAll facts') := by
  induction hfacts generalizing k k' with
  | nil => exact h
  | @cons fact fact' rest rest' hfact _ ih =>
    obtain ⟨p, v⟩ := fact
    obtain ⟨_, v'⟩ := fact'
    obtain ⟨rfl, hv⟩ := hfact
    exact ih (h.merge _ hv)

/-- A loop may be left on both sides, unless there is none. -/
theorem leave (h : k.Reduces k') : (k.leave = none ∧ k'.leave = none) ∨
    ∃ after after', k.leave = some after ∧ k'.leave = some after' ∧ after.Reduces after' := by
  obtain ⟨base, loops, dirty⟩ := h
  obtain ⟨b, l, d⟩ := k
  obtain ⟨b', l', d'⟩ := k'
  cases loops with
  | nil => exact Or.inl ⟨rfl, rfl⟩
  | @cons frame frame' outer outer' hframe hrest =>
    have houter : Knowledge.Reduces ⟨b, outer, d⟩ ⟨b', outer', d'⟩ := ⟨base, hrest, dirty⟩
    refine Or.inr ⟨_, _, rfl, rfl, ?_⟩
    rw [hframe.1]
    exact (mergeAll hframe.2 houter).assume _ (reduces_some rfl)

end Knowledge.Reduces

/-! ### Tracking values in both ways -/

/-- Wrapping to a word does not change the remainder modulo 256. -/
private theorem wrap_emod (n : Int) : Word.wrap n % 256 = n % 256 := by
  rw [← toNat_ofInt, ← toNat_ofInt, ofInt_wrap]

/-- Adding a constant keeps a value known modulo 256. -/
private theorem reduces_tracked {σ σ' : Session} (hwraps : σ.wraps = false)
    (hwraps' : σ'.wraps = true) {known known' : Option Int} (h : Reduces known known')
    (amount : Int) :
    Reduces (known.map fun v => σ.tracked (v + amount))
      (known'.map fun v => σ'.tracked (v + amount)) := by
  cases known with
  | none => exact reduces_none _
  | some v =>
    rw [h v rfl, Option.map_some, Option.map_some]
    refine reduces_some ?_
    rw [Session.tracked, Session.tracked, hwraps, hwraps', if_pos rfl, if_neg (by decide),
      wrap_emod, wrap_emod, Int.emod_add_emod]

/-- Tracking values as they are, and tracking them modulo 256. -/
def Twins.reducing : Twins where
  Holds σ σ' := (σ.wraps = false ∧ σ'.wraps = true) ∧ σ'.cursor = σ.cursor ∧
    σ.knowledge.Reduces σ'.knowledge
  Codes := Refactors
  Guard _ _ := True
  guard_of_extends _ _ _ := trivial
  codes_refl := .refl
  codes_append := .append
  codes_noted note _ _ := .noted note
  codes_loop := .loop
  cursor_eq h := h.2.1
  records := by
    rintro σ σ' τ τ' ⟨hwraps, hcursor, hknowledge⟩ hτ hτ'
    refine ⟨?_, ?_, ?_⟩
    · rwa [hτ.wraps_eq, hτ'.wraps_eq]
    · rw [hτ.cursor_eq, hτ'.cursor_eq, hcursor]
    · rwa [hτ.knowledge_eq, hτ'.knowledge_eq]
  goesTo h pos := ⟨h.1, rfl, h.2.2⟩
  learns := by
    rintro σ σ' ⟨hwraps, hcursor, hknowledge⟩ pos value hvalue
    exact ⟨hwraps, hcursor, hknowledge.learn pos (reduces_of_byte hvalue)⟩
  bumps := by
    rintro σ σ' ⟨hwraps, hcursor, hknowledge⟩ amount -
    refine ⟨?_, ?_, ?_⟩
    · rwa [σ.bump_wraps, σ'.bump_wraps]
    · rw [σ.bump_cursor, σ'.bump_cursor, hcursor]
    · rw [σ.bump_knowledge, σ'.bump_knowledge, hcursor]
      exact hknowledge.learn _ (reduces_tracked hwraps.1 hwraps.2 (hknowledge.known _) amount)
  constants := by
    -- A cell that is known to be zero is known to be zero modulo 256.
    rintro σ σ' ⟨-, -, hknowledge⟩ amount pos
    cases hzero : σ.knowledge.isZero pos with
    | true =>
      rw [hknowledge.isZero hzero]
      exact .refl _
    | false =>
      cases σ'.knowledge.isZero pos with
      | true =>
        rw [addingCode_false]
        exact .constant amount
      | false => exact .refl _
  enters h control := ⟨h.1, h.2.1, h.2.2.enter control⟩
  leaves := by
    rintro σ σ' ⟨hwraps, hcursor, hknowledge⟩
    obtain hnone | ⟨k, k', hk, hk', hreduces⟩ := hknowledge.leave
    · exact Or.inl hnone
    · exact Or.inr ⟨k, k', hk, hk', hwraps, hcursor, hreduces⟩

/-! ### Sessions without warnings -/

/-- Whether no value has been warned of for being out of range. -/
def Session.IsInRange (σ : Session) : Prop :=
  ∀ cell value, .outOfRange cell value ∉ σ.warnings

/-- A value that is not warned of is a byte, so it is tracked in the same way modulo 256. -/
private theorem tracked_of_isInRange {σ : Session} {amount v : Int} (h : (σ.bump amount).IsInRange)
    (hknown : σ.known σ.cursor = some v) :
    σ.tracked (v + amount) = Word.wrap (v + amount) % 256 := by
  rw [Session.tracked]
  split
  · rfl
  · next hwraps =>
    by_cases hrange : Word.wrap (v + amount) < 0 ∨ 255 < Word.wrap (v + amount)
    · -- A value out of range would have been warned of.
      refine absurd ?_ (h σ.cursor (Word.wrap (v + amount)))
      simp [Session.bump, hknown, hwraps, hrange, Session.learn, Session.warn]
    · omega

/-- Sessions that know the same, whatever has been recorded. If one of them tracks values modulo 256
and the other one does not, the latter must not have warned of a value. -/
def Twins.unwarned : Twins where
  Holds σ σ' := σ'.cursor = σ.cursor ∧ σ'.knowledge = σ.knowledge
  Codes := Eq
  Guard σ σ' := σ'.wraps = σ.wraps ∨ (σ'.wraps = true ∧ σ.IsInRange)
  guard_of_extends := by
    rintro σ σ' τ τ' hτ hτ' hguard
    rw [hτ.wraps_eq, hτ'.wraps_eq] at hguard
    refine hguard.imp_right fun h => ⟨h.1, fun cell value hmem => ?_⟩
    exact h.2 cell value (hτ.warnings_suffix.mem hmem)
  codes_refl _ := rfl
  codes_append := by
    rintro a _ b _ rfl rfl
    rfl
  codes_noted := by
    rintro note a _ rfl
    rfl
  codes_loop := by
    rintro a _ rfl
    rfl
  cursor_eq h := h.1
  records := by
    rintro σ σ' τ τ' ⟨hcursor, hknowledge⟩ hτ hτ'
    refine ⟨?_, ?_⟩
    · rw [hτ.cursor_eq, hτ'.cursor_eq, hcursor]
    · rw [hτ.knowledge_eq, hτ'.knowledge_eq, hknowledge]
  goesTo h pos := ⟨rfl, h.2⟩
  learns := by
    rintro σ σ' ⟨hcursor, hknowledge⟩ pos value -
    exact ⟨hcursor, congrArg (·.learn pos value) hknowledge⟩
  -- The only step that depends on how values are tracked. In range, a value is its own remainder.
  bumps := by
    rintro σ σ' ⟨hcursor, hknowledge⟩ amount hguard
    refine ⟨by rw [σ.bump_cursor, σ'.bump_cursor, hcursor], ?_⟩
    have hknown : σ'.known σ'.cursor = σ.known σ.cursor := by
      rw [Session.known, Session.known, hcursor, hknowledge]
    rw [σ.bump_knowledge, σ'.bump_knowledge, hknown, hcursor, hknowledge]
    congr 1
    cases hvalue : σ.known σ.cursor with
    | none => rfl
    | some v =>
      rw [Option.map_some, Option.map_some]
      rw [σ.bump_wraps, σ'.bump_wraps] at hguard
      obtain hwraps | ⟨hwraps, hrange⟩ := hguard
      · rw [Session.tracked, Session.tracked, hwraps]
      · rw [tracked_of_isInRange hrange hvalue, Session.tracked, if_pos hwraps]
  constants := by
    rintro σ σ' ⟨-, hknowledge⟩ amount pos
    rw [hknowledge]
  enters h control := ⟨h.1, congrArg (·.enter control) h.2⟩
  leaves := by
    rintro σ σ' ⟨hcursor, hknowledge⟩
    cases hleave : σ.knowledge.leave with
    | none => exact Or.inl ⟨rfl, hknowledge ▸ hleave⟩
    | some k => exact Or.inr ⟨k, k, rfl, hknowledge ▸ hleave, hcursor, rfl⟩

/-- Code that differs in factored constants only: written as plain runs it is the same, its notes
are the same, and it is not longer. -/
theorem Refactors.summary {a b : Fragment} (h : Refactors a b) :
    Refactors a b ∧ Fragment.spelledOut a = Fragment.spelledOut b ∧
      Fragment.trace a = Fragment.trace b ∧ (Fragment.text b).length ≤ (Fragment.text a).length :=
  ⟨h, h.spelledOut_eq, h.traceAt_eq 0, h.length_text_le⟩

/-- What `warnings` and `observations` are recorded has no influence on the code of `directives`.
With and without `wraps` there are the same faults, and code that differs only in that some
constants are factored, which `Refactors` says; the cursor ends in the same place. If the values are
`IsInRange`, so that none is warned of, the code is the same. -/
theorem performEach_refactors (directives : List Directive) :
    (∀ wraps warnings observations,
      (Session.performEach { wraps, warnings, observations } directives).1 =
        (Session.performEach { wraps } directives).1) ∧
    List.Forall₂ (Alike fun a b => Refactors a b ∧ Fragment.spelledOut a = Fragment.spelledOut b ∧
        Fragment.trace a = Fragment.trace b ∧
          (Fragment.text b).length ≤ (Fragment.text a).length)
      (Session.performEach { wraps := false } directives).1
      (Session.performEach { wraps := true } directives).1 ∧
    (Session.performEach { wraps := true } directives).2.cursor =
      (Session.performEach { wraps := false } directives).2.cursor ∧
    ((Session.performEach { wraps := false } directives).2.IsInRange →
      (Session.performEach { wraps := true } directives).1 =
        (Session.performEach { wraps := false } directives).1) := by
  have hfresh : Twins.reducing.Holds { wraps := false } { wraps := true } :=
    ⟨⟨rfl, rfl⟩, rfl, .nil, .nil, rfl⟩
  obtain ⟨hcodes, -, hcursor, -⟩ := Twins.reducing.performEach hfresh directives trivial
  have hwraps : ∀ σ : Session, (σ.performEach directives).2.wraps = σ.wraps := fun σ =>
    (Twins.unwarned.extends_performEach σ directives).wraps_eq
  -- Where the same is known in the end, the results are equal one by one.
  have hsame : ∀ {σ σ' : Session}, Twins.unwarned.Holds σ σ' →
      Twins.unwarned.Guard (σ.performEach directives).2 (σ'.performEach directives).2 →
        (σ.performEach directives).1 = (σ'.performEach directives).1 := by
    intro σ σ' hσ hguard
    rw [← List.forall₂_eq_eq_eq]
    exact (Twins.unwarned.performEach hσ directives hguard).1.imp fun _ _ h => h.eq
  refine ⟨fun wraps warnings observations => ?_, ?_, hcursor, fun hrange => ?_⟩
  · refine hsame ⟨rfl, rfl⟩ (Or.inl ?_)
    rw [hwraps, hwraps]
  · exact hcodes.imp fun _ _ h => h.mono fun _ _ => Refactors.summary
  · have hequal := @hsame { wraps := false } { wraps := true } ⟨rfl, rfl⟩
      (Or.inr ⟨hwraps _, hrange⟩)
    exact hequal.symm

/-- In a loop that leaves all values in range, a constant is factored in both ways of tracking. -/
theorem performEach_refactors_inRange : ∃ directives : List Directive,
    directives = [.addAt (.cell 5) 200,
      .loopAt (.cell 5) [.decAt (.cell 5), .addAt (.cell 30) 100]] ∧
    (Session.performEach { wraps := false } directives).2.IsInRange ∧
    (Session.performEach { wraps := true } directives).1 =
      (Session.performEach { wraps := false } directives).1 := by
  have hrange : (Session.performEach { wraps := false } [.addAt (.cell 5) 200,
      .loopAt (.cell 5) [.decAt (.cell 5), .addAt (.cell 30) 100]]).2.IsInRange := by
    have hwarnings : (Session.performEach { wraps := false } [.addAt (.cell 5) 200,
      .loopAt (.cell 5) [.decAt (.cell 5), .addAt (.cell 30) 100]]).2.warnings = [] := by
        decide +kernel
    intro cell value hmem
    rw [hwarnings] at hmem
    cases hmem
  exact ⟨_, rfl, hrange, (performEach_refactors _).2.2.2 hrange⟩

/-- A cell with the value 256 can serve as a zero only where values are tracked modulo 256. -/
theorem performEach_text_ne : ∃ a b c : Fragment,
    (Session.performEach { wraps := true } [.addAt (.cell 5) 256, .addAt (.cell 4) 100]).1 =
      [.ok a, .ok b] ∧
    (Session.performEach { wraps := false } [.addAt (.cell 5) 256, .addAt (.cell 4) 100]).1 =
      [.ok a, .ok c] ∧
    Fragment.text (a ++ b) ≠ Fragment.text (a ++ c) := by
  refine ⟨_, _, _, rfl, rfl, ?_⟩
  decide +kernel

end Generator

end TapeMachine
