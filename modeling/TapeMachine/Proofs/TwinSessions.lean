import Mathlib.Data.List.Forall2
import TapeMachine.Proofs.Construction

/-!
# Two sessions side by side

Two sessions are given the same directives, and differ in what they start from. Every directive is
put together from single steps, so a relation between the sessions that each single step keeps is
kept by all directives, and the code that they generate is related, too. A directive that fails in
one of the sessions fails in the other one; the sessions go on from where that left them.

A relation may have to be guarded: the sessions may stay related only as long as one of them gives
no warning. As warnings are never taken back, it is enough to look at them in the end.

The module introduces:

* `Generator.Twins`: relations between sessions and between code that single steps keep;
* `Generator.Twins.Together`: a step that keeps the relations;
* `Generator.Built.together`: the steps of all directives keep them;
* `Generator.Session.performEach`: what a session does with directives, some of which may fail;
* `Generator.Twins.performEach`: two sessions with the same directives stay related.
-/

namespace TapeMachine.Generator

variable {α β : Type} {σ σ' τ τ' : Session}

/-! ### Sessions that go on -/

/-- Whether a session goes on from another one: values are tracked in the same way, and no warning
has been taken back. -/
structure Session.Extends (σ τ : Session) : Prop where
  wraps_eq : τ.wraps = σ.wraps
  warnings_suffix : σ.warnings <:+ τ.warnings

namespace Session.Extends

/-- A session extends itself. -/
theorem refl (σ : Session) : σ.Extends σ :=
  ⟨rfl, List.suffix_rfl⟩

/-- What extends an extension extends the session. -/
theorem trans {υ : Session} (h : σ.Extends τ) (h' : τ.Extends υ) : σ.Extends υ :=
  ⟨h'.wraps_eq.trans h.wraps_eq, h.warnings_suffix.trans h'.warnings_suffix⟩

end Session.Extends

/-- A change of a cell may warn, but takes back no warning. -/
theorem Session.extends_bump (σ : Session) (amount : Int) : σ.Extends (σ.bump amount) := by
  refine ⟨σ.bump_wraps amount, ?_⟩
  rw [Session.bump]
  split
  · exact List.suffix_rfl
  · split
    · exact List.suffix_rfl
    · simp only [Session.learn]
      split
      · exact List.suffix_cons _ _
      · exact List.suffix_rfl

/-- Whether a session goes on from where a step begins, also if the step fails. -/
def Extending (step : Gen α) : Prop :=
  ∀ σ : Session, σ.Extends (σ.perform step).2

/-- The second of two steps goes on from where the first one ends. -/
theorem extends_perform_bind {next : α → Gen β} (hnext : ∀ a, Extending (next a)) (σ : Session)
    (step : Gen α) : (σ.perform step).2.Extends (σ.perform (step >>= next)).2 := by
  rw [Session.perform_bind]
  rcases σ.perform step with ⟨fault | a, σ₁⟩
  · exact .refl _
  · exact hnext a σ₁

/-! ### Relations that single steps keep -/

/-- Relations between sessions and between code that single steps keep. -/
structure Twins where
  /-- How the sessions are related. -/
  Holds : Session → Session → Prop
  /-- How the code is related. -/
  Codes : Fragment → Fragment → Prop
  /-- What sessions have to be like in the end in order to be related. -/
  Guard : Session → Session → Prop
  guard_of_extends : ∀ {σ σ' τ τ'}, σ.Extends τ → σ'.Extends τ' → Guard τ τ' → Guard σ σ'
  codes_refl : ∀ code, Codes code code
  codes_append : ∀ {a a' b b'}, Codes a a' → Codes b b' → Codes (a ++ b) (a' ++ b')
  codes_noted : ∀ note {a a'}, Codes a a' → Codes [.noted note a] [.noted note a']
  codes_loop : ∀ {a a'}, Codes a a' → Codes [.loop a] [.loop a']
  cursor_eq : ∀ {σ σ'}, Holds σ σ' → σ'.cursor = σ.cursor
  records : ∀ {σ σ' τ τ'}, Holds σ σ' → σ.Records τ → σ'.Records τ' → Holds τ τ'
  goesTo : ∀ {σ σ'}, Holds σ σ' → ∀ pos, Holds { σ with cursor := pos } { σ' with cursor := pos }
  /-- The values that cells get at once are bytes. -/
  learns : ∀ {σ σ'}, Holds σ σ' → ∀ pos {value : Option Int},
    (∀ v, value = some v → 0 ≤ v ∧ v ≤ 255) → Holds (σ.learn pos value) (σ'.learn pos value)
  /-- Adding a constant may give a warning, which the guard may forbid. -/
  bumps : ∀ {σ σ'}, Holds σ σ' → ∀ amount, Guard (σ.bump amount) (σ'.bump amount) →
    Holds (σ.bump amount) (σ'.bump amount)
  /-- The code of a constant depends on whether a cell is known to be zero. -/
  constants : ∀ {σ σ'}, Holds σ σ' → ∀ amount pos,
    Codes [.constant amount (addingCode amount (σ.knowledge.isZero pos))]
      [.constant amount (addingCode amount (σ'.knowledge.isZero pos))]
  enters : ∀ {σ σ'}, Holds σ σ' → ∀ control,
    Holds { σ with knowledge := σ.knowledge.enter control }
      { σ' with knowledge := σ'.knowledge.enter control }
  leaves : ∀ {σ σ'}, Holds σ σ' → (σ.knowledge.leave = none ∧ σ'.knowledge.leave = none) ∨
    ∃ k k', σ.knowledge.leave = some k ∧ σ'.knowledge.leave = some k' ∧
      Holds { σ with knowledge := k } { σ' with knowledge := k' }

/-- Whether two results are the same fault or related values. -/
inductive Alike (rel : α → α → Prop) : Except Fault α → Except Fault α → Prop
  | fault (fault : Fault) : Alike rel (.error fault) (.error fault)
  | value {a b : α} (h : rel a b) : Alike rel (.ok a) (.ok b)

/-- What is alike stays so if less is asked of the results. -/
theorem Alike.mono {rel rel' : α → α → Prop} {x y : Except Fault α} (h : Alike rel x y)
    (hrel : ∀ a b, rel a b → rel' a b) : Alike rel' x y := by
  cases h with
  | fault fault => exact .fault fault
  | value h => exact .value (hrel _ _ h)

/-- What is alike up to equality is equal. -/
theorem Alike.eq {x y : Except Fault α} (h : Alike Eq x y) : x = y := by
  cases h with
  | fault fault => rfl
  | value h => rw [h]

namespace Twins

/-- Whether two steps keep sessions related and yield related values. -/
structure Together (S : Twins) (rel : α → α → Prop) (step step' : Gen α) : Prop where
  extending : Extending step
  extending' : Extending step'
  alike : ∀ {σ σ'}, S.Holds σ σ' → S.Guard (σ.perform step).2 (σ'.perform step').2 →
    Alike rel (σ.perform step).1 (σ'.perform step').1
  holds : ∀ {σ σ'}, S.Holds σ σ' → S.Guard (σ.perform step).2 (σ'.perform step').2 →
    S.Holds (σ.perform step).2 (σ'.perform step').2

variable {S : Twins} {rel : α → α → Prop} {rel' : β → β → Prop} {step step' : Gen α}

/-- Steps that go together may be followed by steps that do, for related results of the first ones.
-/
theorem Together.bind {next next' : α → Gen β} (hrefl : ∀ a, rel a a)
    (h : S.Together rel step step')
    (hnext : ∀ {a b}, rel a b → S.Together rel' (next a) (next' b)) :
    S.Together rel' (step >>= next) (step' >>= next') := by
  have hmid := extends_perform_bind fun a => (hnext (hrefl a)).extending
  have hmid' := extends_perform_bind fun a => (hnext (hrefl a)).extending'
  -- Sessions that are fine in the end are fine between the two steps.
  have hboth : ∀ {σ σ'}, S.Holds σ σ' →
      S.Guard (σ.perform (step >>= next)).2 (σ'.perform (step' >>= next')).2 →
      Alike rel' (σ.perform (step >>= next)).1 (σ'.perform (step' >>= next')).1 ∧
        S.Holds (σ.perform (step >>= next)).2 (σ'.perform (step' >>= next')).2 := by
    intro σ σ' hσ hguard
    have hguard₁ := S.guard_of_extends (hmid σ step) (hmid' σ' step') hguard
    have halike := h.alike hσ hguard₁
    have hholds := h.holds hσ hguard₁
    rw [Session.perform_bind, Session.perform_bind] at hguard ⊢
    -- What the first step yields decides whether there is a second one.
    generalize σ.perform step = x at *
    generalize σ'.perform step' = y at *
    obtain ⟨result, σ₁⟩ := x
    obtain ⟨result', σ₁'⟩ := y
    cases halike with
    | fault fault => exact ⟨.fault fault, hholds⟩
    | value hab => exact ⟨(hnext hab).alike hholds hguard, (hnext hab).holds hholds hguard⟩
  exact
    { extending := fun σ => (h.extending σ).trans (hmid σ step)
      extending' := fun σ => (h.extending' σ).trans (hmid' σ step')
      alike := fun hσ hguard => (hboth hσ hguard).1
      holds := fun hσ hguard => (hboth hσ hguard).2 }

/-! ### Single steps -/

variable (S)

/-- Related results may be yielded. -/
theorem together_pure {a b : α} (h : rel a b) : S.Together rel (pure a) (pure b) where
  extending := .refl
  extending' := .refl
  alike _ _ := .value h
  holds hσ _ := hσ

/-- Both sessions may fail with the same `fault`. -/
theorem together_throw (fault : Fault) : S.Together rel (throw fault) (throw fault) where
  extending := .refl
  extending' := .refl
  alike _ _ := .fault fault
  holds hσ _ := hσ

/-- The same change `f` may be made to both sessions, if it keeps what holds of them. -/
theorem together_modify {f : Session → Session} (hf : ∀ σ : Session, σ.Extends (f σ))
    (hholds : ∀ {σ σ'}, S.Holds σ σ' → S.Guard (f σ) (f σ') → S.Holds (f σ) (f σ')) :
    S.Together Eq (modify f : Gen PUnit) (modify f) where
  extending := hf
  extending' := hf
  alike _ _ := .value rfl
  holds := hholds

/-- A step that only looks yields the same in both sessions, as it finds the cursor in the same
place. -/
theorem together_looks {look : Gen α} (hlook : Looks look) : S.Together Eq look look := by
  obtain ⟨view, hview⟩ := hlook
  have hextends : Extending look := fun σ => ⟨(hview σ).2.wraps_eq, (hview σ).2.warnings_suffix⟩
  refine ⟨hextends, hextends, fun {σ σ'} hσ _ => ?_, fun {σ σ'} hσ _ =>
    S.records hσ (hview σ).2 (hview σ').2⟩
  rw [(hview σ).1, (hview σ').1, S.cursor_eq hσ]
  cases view σ.cursor with
  | error fault => exact .fault fault
  | ok a => exact .value rfl

/-- What a step makes of the session is related if the session is. -/
theorem together_get {f : Session → α} (hf : ∀ {σ σ'}, S.Holds σ σ' → rel (f σ) (f σ')) :
    S.Together rel (get >>= fun σ => pure (f σ)) (get >>= fun σ => pure (f σ)) where
  extending := .refl
  extending' := .refl
  alike hσ _ := .value (hf hσ)
  holds hσ _ := hσ

/-- The cursors of both sessions may go to the same `pos`. -/
private theorem together_goTo (pos : Int) :
    S.Together Eq (modify fun σ => { σ with cursor := pos } : Gen PUnit)
      (modify fun σ => { σ with cursor := pos }) :=
  S.together_modify (fun _ => ⟨rfl, List.suffix_rfl⟩) fun hσ _ => S.goesTo hσ pos

/-- Both sessions move by the same `amount`, and leave the tape together. -/
theorem together_move (amount : Int) : S.Together Eq (move amount) (move amount) := by
  refine (S.together_looks looks_cursor).bind (fun _ => rfl) ?_
  rintro source _ rfl
  dsimp only
  split
  · refine (S.together_goTo _).bind (fun _ => rfl) ?_
    rintro _ _ -
    exact S.together_pure rfl
  · exact S.together_throw _

/-- Both sessions move to the same `pos`. -/
theorem together_moveTo (pos : Int) : S.Together Eq (moveTo pos) (moveTo pos) := by
  refine (S.together_looks looks_cursor).bind (fun _ => rfl) ?_
  rintro source _ rfl
  exact S.together_move _

/-- Both sessions may learn the same `value` of a byte, or that nothing is known. -/
private theorem together_learn {value : Option Int}
    (hvalue : ∀ v, value = some v → 0 ≤ v ∧ v ≤ 255) (code : Fragment) :
    S.Together S.Codes (do modify fun σ => σ.learn σ.cursor value; return code)
      (do modify fun σ => σ.learn σ.cursor value; return code) := by
  refine (S.together_modify (f := fun σ => σ.learn σ.cursor value)
    (fun _ => ⟨rfl, List.suffix_rfl⟩) fun hσ _ => ?_).bind (fun _ => rfl) ?_
  · rw [S.cursor_eq hσ]
    exact S.learns hσ _ hvalue
  · rintro _ _ -
    exact S.together_pure (S.codes_refl code)

/-- Both sessions may add the same `amount` to what is known. -/
private theorem together_bump (amount : Int) (code : Fragment) :
    S.Together S.Codes (do modify (·.bump amount); return code)
      (do modify (·.bump amount); return code) := by
  refine (S.together_modify (fun σ => σ.extends_bump amount) fun hσ hguard =>
    S.bumps hσ amount hguard).bind (fun _ => rfl) ?_
  rintro _ _ -
  exact S.together_pure (S.codes_refl code)

/-- Both sessions add the same `amount`, though not always by the same code. -/
theorem together_add (amount : Int) : S.Together S.Codes (add amount) (add amount) := by
  unfold add
  dsimp only
  split
  · exact S.together_pure (S.codes_refl [])
  · refine (S.together_modify (fun σ => σ.extends_bump _) fun hσ hguard =>
      S.bumps hσ _ hguard).bind (fun _ => rfl) ?_
    rintro _ _ -
    -- Whether the next cell is zero is asked when the sum is known already.
    refine S.together_get fun {σ σ'} hσ => ?_
    rw [S.cursor_eq hσ]
    exact S.constants hσ _ _

/-- Both sessions enter a loop. -/
private theorem together_enterLoop (control : Int) :
    S.Together Eq (enterLoop control) (enterLoop control) :=
  S.together_modify (fun _ => ⟨rfl, List.suffix_rfl⟩) fun hσ _ => S.enters hσ control

/-- A session leaves a loop unless there is none. -/
private theorem perform_leaveLoop (σ : Session) : σ.perform leaveLoop = match σ.knowledge.leave with
    | some knowledge => (.ok (), { σ with knowledge })
    | none => (.error .unbalancedClose, σ) := by
  show σ.perform (get >>= _) = _
  rw [Session.perform_bind]
  show σ.perform _ = _
  cases σ.knowledge.leave with
  | some knowledge => rfl
  | none => rfl

/-- Both sessions leave a loop, or none is open in either. -/
private theorem together_leaveLoop : S.Together Eq leaveLoop leaveLoop := by
  have hextending : Extending leaveLoop := by
    intro σ
    rw [perform_leaveLoop]
    split <;> exact ⟨rfl, List.suffix_rfl⟩
  have hboth : ∀ {σ σ'}, S.Holds σ σ' →
      Alike Eq (σ.perform leaveLoop).1 (σ'.perform leaveLoop).1 ∧
        S.Holds (σ.perform leaveLoop).2 (σ'.perform leaveLoop).2 := by
    intro σ σ' hσ
    rw [perform_leaveLoop, perform_leaveLoop]
    obtain ⟨hnone, hnone'⟩ | ⟨k, k', hsome, hsome', hholds⟩ := S.leaves hσ
    · rw [hnone, hnone']
      exact ⟨.fault _, hσ⟩
    · rw [hsome, hsome']
      exact ⟨.value rfl, hholds⟩
  exact ⟨hextending, hextending, fun hσ _ => (hboth hσ).1, fun hσ _ => (hboth hσ).2⟩

/-- A loop goes together in both sessions if its `body` does. -/
theorem together_loopOn (control : Int) {body : Gen Fragment}
    (hbody : S.Together S.Codes body body) :
    S.Together S.Codes (loopOn control body) (loopOn control body) := by
  refine (S.together_moveTo control).bind (fun _ => rfl) ?_
  rintro before _ rfl
  refine (S.together_enterLoop control).bind (fun _ => rfl) ?_
  rintro _ _ -
  refine hbody.bind S.codes_refl fun {inner inner'} hinner => ?_
  refine S.together_leaveLoop.bind (fun _ => rfl) ?_
  rintro _ _ -
  exact S.together_pure (S.codes_append (S.codes_refl before) (S.codes_loop hinner))

/-- Both sessions set up blanks by the same code. -/
theorem together_loadBlanks : S.Together S.Codes loadBlanks loadBlanks := by
  have hblank : ∀ v, some (blank.toNat : Int) = some v → 0 ≤ v ∧ v ≤ 255 := by
    rintro _ ⟨⟩
    decide
  refine (S.together_moveTo _).bind (fun _ => rfl) ?_
  rintro before _ rfl
  refine (S.together_modify (f := fun σ => (σ.learn Register.putSpace (some blank.toNat)).learn
    Register.put (some blank.toNat)) (fun _ => ⟨rfl, List.suffix_rfl⟩) fun hσ _ =>
      S.learns (S.learns hσ _ hblank) _ hblank).bind (fun _ => rfl) ?_
  rintro _ _ -
  refine (S.together_moveTo _).bind (fun _ => rfl) ?_
  rintro after _ rfl
  exact S.together_pure (S.codes_refl _)

/-- Two steps in a row go together if each of them does. -/
theorem together_append {first second : Gen Fragment} (hfirst : S.Together S.Codes first first)
    (hsecond : S.Together S.Codes second second) :
    S.Together S.Codes (do return (← first) ++ (← second)) (do return (← first) ++ (← second)) :=
  hfirst.bind S.codes_refl fun ha => hsecond.bind S.codes_refl fun hb =>
    S.together_pure (S.codes_append ha hb)

end Twins

/-! ### Directives -/

/-- Every step that is put together by the ways of `Built` keeps sessions related. -/
theorem Built.together (S : Twins) {step : Gen Fragment} (h : Built step) :
    S.Together S.Codes step step := by
  induction h with
  | nil => exact S.together_pure (S.codes_refl [])
  | append _ _ ih₁ ih₂ => exact S.together_append ih₁ ih₂
  | look hlook _ ih =>
    refine (S.together_looks hlook).bind (fun _ => rfl) ?_
    rintro a _ rfl
    exact ih a
  | noted note _ ih =>
    -- The note tells where the cursor is, which is the same place in both sessions.
    refine (S.together_looks looks_cursor).bind (fun _ => rfl) ?_
    rintro pos _ rfl
    exact ih.bind S.codes_refl fun hcode => S.together_pure (S.codes_noted _ hcode)
  | move amount =>
    have hmove := S.together_move amount
    exact ⟨hmove.extending, hmove.extending', fun hσ hguard => (hmove.alike hσ hguard).mono (by
      rintro a _ rfl
      exact S.codes_refl a), hmove.holds⟩
  | inc => exact S.together_bump 1 _
  | dec => exact S.together_bump (-1) _
  | write => exact S.together_pure (S.codes_refl _)
  | dump => exact S.together_pure (S.codes_refl _)
  | read => exact S.together_learn (by rintro _ ⟨⟩) _
  | clear =>
    refine S.together_learn ?_ _
    rintro _ ⟨⟩
    decide
  | add amount => exact S.together_add amount
  | loopOn _ _ ih => exact S.together_loopOn _ ih
  | blanks _ _ _ ih₁ ih₂ ih₃ =>
    exact S.together_append ih₁ (S.together_append ih₂
      (S.together_append S.together_loadBlanks ih₃))

/-- What each of some directives yields, and the session in the end. If a directive fails, the next
one goes on from where it failed. -/
def Session.performEach (σ : Session) : List Directive → List (Except Fault Fragment) × Session
  | [] => ([], σ)
  | first :: rest =>
    let (result, σ₁) := σ.perform first.emit
    let (results, σ₂) := σ₁.performEach rest
    (result :: results, σ₂)

namespace Twins

variable (S : Twins)
include S

/-- A session is extended by all `directives`, those that fail included. -/
theorem extends_performEach (σ : Session) (directives : List Directive) :
    σ.Extends (σ.performEach directives).2 := by
  induction directives generalizing σ with
  | nil => exact .refl σ
  | cons first rest ih => exact ((first.built_emit.together S).extending σ).trans (ih _)

/-- Two sessions that are given the same directives stay related, and each directive yields the same
fault or related code in both. -/
theorem performEach {σ σ' : Session} (hσ : S.Holds σ σ') (directives : List Directive)
    (hguard : S.Guard (σ.performEach directives).2 (σ'.performEach directives).2) :
    List.Forall₂ (Alike S.Codes) (σ.performEach directives).1 (σ'.performEach directives).1 ∧
      S.Holds (σ.performEach directives).2 (σ'.performEach directives).2 := by
  induction directives generalizing σ σ' with
  | nil => exact ⟨.nil, hσ⟩
  | cons first rest ih =>
    have hfirst := first.built_emit.together S
    -- Sessions that are fine in the end are fine behind the first directive.
    have hguard₁ := S.guard_of_extends (S.extends_performEach _ rest) (S.extends_performEach _ rest)
      hguard
    obtain ⟨hresults, hend⟩ := ih (hfirst.holds hσ hguard₁) hguard
    exact ⟨.cons (hfirst.alike hσ hguard₁) hresults, hend⟩

end Twins

end TapeMachine.Generator
