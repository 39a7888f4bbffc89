import Mathlib.Tactic.Choose
import TapeMachine.Generator.Directive
import TapeMachine.Proofs.Emission

/-!
# How steps are put together

The steps of all directives are put together from a few single ones in a few ways. What holds of the
single steps and is kept by these ways holds of every directive, whatever it is for.

The module introduces:

* `Generator.Looks`: a step that only looks where the cursor is;
* `Generator.Built`: the ways in which steps are put together;
* `Generator.built_emitAll`: the steps of all lists of directives are put together so.
-/

namespace TapeMachine.Generator

/-- Whether nothing differs between two sessions but what has been recorded. -/
structure Session.Records (σ σ' : Session) : Prop where
  wraps_eq : σ'.wraps = σ.wraps
  cursor_eq : σ'.cursor = σ.cursor
  knowledge_eq : σ'.knowledge = σ.knowledge
  warnings_suffix : σ.warnings <:+ σ'.warnings

namespace Session.Records

variable {σ σ₁ σ₂ : Session}

/-- A session records nothing more than itself. -/
theorem refl (σ : Session) : σ.Records σ :=
  ⟨rfl, rfl, rfl, List.suffix_rfl⟩

/-- What is recorded in two steps is recorded in one. -/
theorem trans (h : σ.Records σ₁) (h' : σ₁.Records σ₂) : σ.Records σ₂ :=
  ⟨h'.wraps_eq.trans h.wraps_eq, h'.cursor_eq.trans h.cursor_eq,
    h'.knowledge_eq.trans h.knowledge_eq, h.warnings_suffix.trans h'.warnings_suffix⟩

end Session.Records

/-- Whether a step only looks where the cursor is: what it yields depends on nothing else, and
nothing changes but what has been recorded. -/
def Looks {α : Type} (step : Gen α) : Prop :=
  ∃ view : Int → Except Fault α, ∀ σ : Session,
    (σ.perform step).1 = view σ.cursor ∧ σ.Records (σ.perform step).2

/-- Whether a step is put together from single ones. -/
inductive Built : Gen Fragment → Prop
  | nil : Built (pure [])
  | append {first second : Gen Fragment} (hfirst : Built first) (hsecond : Built second) :
      Built (do
        let a ← first
        let b ← second
        return a ++ b)
  /-- A step that only looks may decide which step follows. -/
  | look {α : Type} {look : Gen α} {next : α → Gen Fragment} (hlook : Looks look)
      (hnext : ∀ a, Built (next a)) : Built (look >>= next)
  | noted (note : Bytes) {body : Gen Fragment} (hbody : Built body) : Built (noted note body)
  | move (amount : Int) : Built (move amount)
  | inc : Built inc
  | dec : Built dec
  | write : Built write
  | read : Built read
  | dump : Built dump
  | clear : Built clear
  | add (amount : Int) : Built (add amount)
  /-- The body of a loop has to lead back to the cell that the loop tests. -/
  | loopOn {control : Int} {body : Gen Fragment} (hbody : Built body)
      (hback : ∀ {σ code σ'}, Emits σ body code σ' → σ'.cursor = control) :
      Built (loopOn control body)
  /-- Blanks are set up only where both cells have been cleared. -/
  | blanks {steps : List (Gen Fragment)} (hspace : Built (clearAt Register.putSpace))
      (hput : Built (clearAt Register.put)) (hsteps : Built (sequence steps)) :
      Built (sequence (clearAt Register.putSpace :: clearAt Register.put :: loadBlanks :: steps))

attribute [simp] Built.nil Built.noted Built.move Built.inc Built.dec Built.write Built.read
  Built.dump Built.clear Built.add

/-! ### Steps that only look -/

section Looks

variable {α β : Type}

/-- Yielding `a` does not even look. -/
@[simp] theorem looks_pure (a : α) : Looks (pure a) :=
  ⟨fun _ => .ok a, fun σ => ⟨rfl, .refl σ⟩⟩

/-- A step that always fails with `fault` has no need to look. -/
@[simp] theorem looks_throw (fault : Fault) : Looks (throw fault : Gen α) :=
  ⟨fun _ => .error fault, fun σ => ⟨rfl, .refl σ⟩⟩

/-- The cursor is all that `cursor` looks at. -/
@[simp] theorem looks_cursor : Looks cursor :=
  ⟨.ok, fun σ => ⟨rfl, .refl σ⟩⟩

/-- A change `f` of the session that only records something is no more than a look. -/
theorem looks_modify {f : Session → Session} (hf : ∀ σ : Session, σ.Records (f σ)) :
    Looks (modify f : Gen PUnit) :=
  ⟨fun _ => .ok (), fun σ => ⟨rfl, hf σ⟩⟩

/-- Two looks, the second of which may depend on what the first one yields, are a look. Both see the
same cursor. -/
theorem Looks.bind {step : Gen α} {next : α → Gen β} (hstep : Looks step)
    (hnext : ∀ a, Looks (next a)) : Looks (step >>= next) := by
  obtain ⟨view, hview⟩ := hstep
  choose view' hview' using hnext
  refine ⟨fun pos => (view pos).bind fun a => view' a pos, fun σ => ?_⟩
  rw [Session.perform_bind]
  obtain ⟨hresult, hrecords⟩ := hview σ
  -- The second step finds the cursor where the first one did.
  rcases hstep : σ.perform step with ⟨fault | a, σ₁⟩
  · rw [hstep] at hresult hrecords
    refine ⟨?_, hrecords⟩
    show .error fault = (view σ.cursor).bind fun a => view' a σ.cursor
    rw [← hresult]
    rfl
  · rw [hstep] at hresult hrecords
    obtain ⟨hresult', hrecords'⟩ := hview' a σ₁
    refine ⟨?_, hrecords.trans hrecords'⟩
    show (σ₁.perform (next a)).1 = (view σ.cursor).bind fun a => view' a σ.cursor
    rw [← hresult, hresult', hrecords.cursor_eq]
    rfl

/-- The cell of a `place` is fixed, wherever the cursor is. -/
@[simp] theorem looks_resolve (place : Place) : Looks place.resolve := by
  cases place with
  | cell pos => exact looks_pure pos
  | named letter =>
    simp only [Place.resolve]
    split
    · exact looks_pure _
    · exact looks_throw _

/-- Looks for all of some `items`, one after another, are a look. -/
theorem looks_mapM {f : α → Gen β} (hf : ∀ a, Looks (f a)) (items : List α) :
    Looks (items.mapM f) := by
  induction items with
  | nil => exact looks_pure []
  | cons first rest ih =>
    rw [List.mapM_cons]
    exact (hf first).bind fun _ => ih.bind fun _ => looks_pure _

/-- Whether the node `id` fits into a cell is seen without a session. -/
@[simp] theorem looks_checkNode (id : Int) : Looks (checkNode id) := by
  unfold checkNode
  split
  · exact looks_throw _
  · exact looks_pure _

/-- Whether all `ids` are those of nodes is seen without a session, too. -/
@[simp] theorem looks_checkIds (ids : List Int) : Looks (checkIds ids) := by
  induction ids with
  | nil => exact looks_pure ()
  | cons id rest ih =>
    have hrest : Looks (checkNode id >>= fun _ => checkIds rest) :=
      (looks_checkNode id).bind fun _ => ih
    simp only [checkIds]
    split
    · exact (looks_throw _).bind fun _ => hrest
    · exact hrest

/-- A warning of a `divisor` that is zero is recorded, and nothing else happens. -/
@[simp] theorem looks_warnZeroDivisor (divisor : Int) : Looks (warnZeroDivisor divisor) := by
  unfold warnZeroDivisor
  split
  · exact looks_modify fun _ => ⟨rfl, rfl, rfl, List.suffix_cons _ _⟩
  · exact looks_pure _

end Looks

/-! ### Combinations -/

section Combinations

variable {body : Gen Fragment} {steps : List (Gen Fragment)}

/-- `sequence` appends its `steps`, so it is built if they are. -/
@[simp] theorem built_sequence (hsteps : ∀ step ∈ steps, Built step) : Built (sequence steps) := by
  induction steps with
  | nil => exact .nil
  | cons first rest ih =>
    exact .append (hsteps first List.mem_cons_self)
      (ih fun step hstep => hsteps step (List.mem_cons_of_mem _ hstep))

/-- `moveTo pos` looks where the cursor is, and moves by the difference. -/
@[simp] theorem built_moveTo (pos : Int) : Built (moveTo pos) :=
  .look looks_cursor fun _ => .move _

/-- `saveCursor` looks where the cursor is, and moves there behind its `body`. -/
@[simp] theorem built_saveCursor (hbody : Built body) : Built (saveCursor body) :=
  .look looks_cursor fun keep => built_sequence (by simp [hbody])

/-- `loopAt control` leads back to `control` by a move at the end of each pass. -/
@[simp] theorem built_loopAt (control : Int) (hbody : Built body) :
    Built (loopAt control body) := by
  refine .loopOn (by simp [hbody]) ?_
  -- The last step of a pass is a move to the cell.
  intro σ code σ' h
  simp only [emits_sequence_cons_iff, emits_moveTo_iff, emits_sequence_nil_iff] at h
  obtain ⟨_, _, σ₁, -, ⟨_, _, _, ⟨-, -, rfl⟩, ⟨-, rfl⟩, -⟩, -⟩ := h
  rfl

/-- `doOnceIf flag` leads back to `flag` by clearing it at the end of its one pass. -/
@[simp] theorem built_doOnceIf (flag : Int) (hbody : Built body) : Built (doOnceIf flag body) := by
  refine .loopOn (built_sequence (by simp [hbody, clearAt])) ?_
  -- The last step of a pass clears the flag, so it ends on the flag.
  intro σ code σ' h
  simp only [emits_sequence_cons_iff, emits_clearAt_iff, emits_sequence_nil_iff] at h
  obtain ⟨_, _, σ₁, -, ⟨_, _, _, ⟨-, -, rfl⟩, ⟨-, rfl⟩, -⟩, -⟩ := h
  rfl

end Combinations

/-! ### The steps of directives -/

-- The steps of a sequence are built by `simp`; where one sequence is nested in another, the
-- inner one is shown to be built first.
section Steps

variable {body : Gen Fragment}

/-- `incAt pos` is a move and `inc`. -/
@[simp] theorem built_incAt (pos : Int) : Built (incAt pos) := by
  simp [incAt]

/-- `decAt pos` is a move and `dec`. -/
@[simp] theorem built_decAt (pos : Int) : Built (decAt pos) := by
  simp [decAt]

/-- `readAt pos` is a move and `read`. -/
@[simp] theorem built_readAt (pos : Int) : Built (readAt pos) := by
  simp [readAt]

/-- `clearAt pos` is a move and `clear`. -/
@[simp] theorem built_clearAt (pos : Int) : Built (clearAt pos) := by
  simp [clearAt]

/-- `set value` clears the cell and adds `value`. -/
@[simp] theorem built_set (value : Int) : Built (set value) := by
  simp [set]

/-- `addAt pos amount` is a move and `add amount`. -/
@[simp] theorem built_addAt (pos amount : Int) : Built (addAt pos amount) := by
  simp [addAt]

/-- `setAt pos value` is a move and `set value`. -/
@[simp] theorem built_setAt (pos value : Int) : Built (setAt pos value) := by
  simp [setAt]

/-- `repeatBy count` is a loop at `count` whose `body` is followed by a decrement. -/
@[simp] theorem built_repeatBy (count : Int) (hbody : Built body) :
    Built (repeatBy count body) :=
  built_loopAt count (built_sequence (by simp [hbody]))

/-- `copy target source` is nothing, or a sequence that counts `source` into `target` and the
register and the register back into `source`. -/
@[simp] theorem built_copy (target source : Int) : Built (copy target source) := by
  unfold copy
  split
  · exact Built.nil
  · exact Built.noted _ (built_saveCursor (built_sequence (by simp)))

/-- `checkZero` looks for the cell to be tested, and works on a copy of it. -/
@[simp] theorem built_checkZero : Built checkZero :=
  Built.look looks_cursor fun _ =>
    Built.noted _ (built_sequence (by simp))

/-- `checkNonzero` is built like `checkZero`. -/
@[simp] theorem built_checkNonzero : Built checkNonzero :=
  Built.look looks_cursor fun _ =>
    Built.noted _ (built_sequence (by simp))

/-- `ifNonzero pos` tests the cell and does its `body` once if the flag is set. -/
@[simp] theorem built_ifNonzero (pos : Int) (hbody : Built body) :
    Built (ifNonzero pos body) :=
  Built.noted _ (built_saveCursor (built_sequence (by simp [hbody])))

/-- `ifZero pos` is built like `ifNonzero pos`. -/
@[simp] theorem built_ifZero (pos : Int) (hbody : Built body) :
    Built (ifZero pos body) :=
  Built.noted _ (built_saveCursor (built_sequence (by simp [hbody])))

/-- `addCell target source` counts a copy of `source` into `target`. -/
@[simp] theorem built_addCell (target source : Int) : Built (addCell target source) :=
  Built.noted _ (built_saveCursor (built_sequence (by simp)))

/-- `subCell target source` counts a copy of `source` out of `target`, with a test in each pass. -/
@[simp] theorem built_subCell (target source : Int) : Built (subCell target source) := by
  have hpass : Built (sequence [ifZero target (setAt Register.borrow 1), decAt target]) :=
    built_sequence (by simp)
  exact Built.noted _ (built_saveCursor (built_sequence (by simp [hpass])))

/-- `mul factor` adds a copy of the cell as often as the register with `factor` says. -/
@[simp] theorem built_mul (factor : Int) : Built (mul factor) :=
  Built.look looks_cursor fun _ =>
    Built.noted _ (built_saveCursor (built_sequence (by simp)))

/-- `divide dividend divisor` subtracts until there is a borrow, which is undone in a sequence
nested in that of a pass. -/
@[simp] theorem built_divide (dividend divisor : Int) :
    Built (divide dividend divisor) := by
  have hundo : Built (sequence [addCell Register.divRemainder divisor,
      decAt Register.divQuotient, clearAt Register.divLoop]) := built_sequence (by simp)
  have hpass : Built (sequence [subCell Register.divRemainder divisor,
      incAt Register.divQuotient, ifNonzero Register.borrow (sequence [
        addCell Register.divRemainder divisor, decAt Register.divQuotient,
        clearAt Register.divLoop])]) := built_sequence (by simp [hundo])
  exact built_sequence (by simp [hpass])

/-- `divCell divisor` copies the quotient of `divide` to the cell under the cursor. -/
@[simp] theorem built_divCell (divisor : Int) : Built (divCell divisor) :=
  Built.look looks_cursor fun _ =>
    Built.noted _ (built_saveCursor (built_sequence (by simp)))

/-- `modCell divisor` copies the remainder of `divide` to the cell under the cursor. -/
@[simp] theorem built_modCell (divisor : Int) : Built (modCell divisor) :=
  Built.look looks_cursor fun _ =>
    Built.noted _ (built_saveCursor (built_sequence (by simp)))

/-- `checkEq value` subtracts `value`, tests for zero, and adds `value` again. -/
@[simp] theorem built_checkEq (value : Int) : Built (checkEq value) :=
  Built.look looks_cursor fun _ => Built.noted _ (built_sequence (by simp))

/-- `logicalAnd other` clears the cell under the cursor if `other` is zero. -/
@[simp] theorem built_logicalAnd (other : Int) : Built (logicalAnd other) :=
  Built.look looks_cursor fun _ => Built.noted _ (built_saveCursor (by simp))

/-- `logicalOr other` sets the cell under the cursor if `other` is not zero. -/
@[simp] theorem built_logicalOr (other : Int) : Built (logicalOr other) :=
  Built.look looks_cursor fun _ => Built.noted _ (built_saveCursor (by simp))

/-- `logicalNot other` sets the cell under the cursor, and clears it again if a copy of `other` is
not zero. -/
@[simp] theorem built_logicalNot (other : Int) : Built (logicalNot other) :=
  Built.look looks_cursor fun _ =>
    Built.noted _ (built_saveCursor (built_sequence (by simp)))

/-- `mulAt pos factor` is a move and `mul factor`. -/
@[simp] theorem built_mulAt (pos factor : Int) : Built (mulAt pos factor) := by
  simp [mulAt]

/-- `div divisor` may warn, and divides by a register with `divisor`. -/
@[simp] theorem built_div (divisor : Int) : Built (div divisor) :=
  Built.look (looks_warnZeroDivisor divisor) fun _ => Built.look looks_cursor fun _ =>
    built_sequence (by simp)

/-- `mod divisor` is built like `div divisor`. -/
@[simp] theorem built_mod (divisor : Int) : Built (mod divisor) :=
  Built.look (looks_warnZeroDivisor divisor) fun _ => Built.look looks_cursor fun _ =>
    built_sequence (by simp)

/-- `writeChar c` writes a register with `c`. -/
@[simp] theorem built_writeChar (c : UInt8) : Built (writeChar c) :=
  Built.noted _ (built_saveCursor (built_sequence (by simp)))

/-- `writeBytes last text` goes to one of two registers for each byte of `text`. -/
@[simp] theorem built_writeBytes (last : Int) (text : Bytes) :
    Built (writeBytes last text) := by
  induction text generalizing last with
  | nil => exact Built.nil
  | cons c rest ih =>
    rw [writeBytes]
    -- Blanks and other bytes take different registers; both leave the rest to the induction.
    split
    · exact .append (built_sequence (by simp)) (ih _)
    · exact .append (built_sequence (by simp)) (ih _)

/-- Both cells have been cleared when blanks are set up. -/
private theorem built_printing (hasBlank : Bool) (last : Int) (text : Bytes) :
    Built (sequence [clearAt Register.putSpace, clearAt Register.put,
      if hasBlank then loadBlanks else return [], writeBytes last text]) := by
  cases hasBlank with
  | false => exact built_sequence (by simp)
  | true => exact .blanks (built_clearAt _) (built_clearAt _) (built_sequence (by simp))

/-- `writeString text` clears two registers, sets up blanks if `text` has any, and writes its bytes.
-/
@[simp] theorem built_writeString (text : Bytes) : Built (writeString text) := by
  unfold writeString
  split
  · exact Built.nil
  · exact Built.noted _ (built_saveCursor (built_printing _ _ _))

/-- `splitDigits pos` counts a copy of the cell into three digits, with two carries nested in a
pass. -/
@[simp] theorem built_splitDigits (pos : Int) : Built (splitDigits pos) := by
  have htens : Built (sequence [addAt Register.tens 10, decAt Register.hundreds]) :=
    built_sequence (by simp)
  have hones : Built (sequence [addAt Register.ones 10, decAt Register.tens,
      ifZero Register.tens (sequence [addAt Register.tens 10, decAt Register.hundreds])]) :=
    built_sequence (by simp [htens])
  have hpass : Built (sequence [decAt Register.digitWork, decAt Register.ones,
      ifZero Register.ones (sequence [addAt Register.ones 10, decAt Register.tens,
        ifZero Register.tens (sequence [addAt Register.tens 10, decAt Register.hundreds])])]) :=
    built_sequence (by simp [hones])
  exact built_sequence (by simp [hpass])

/-- `restoreDigit register` subtracts the `register` from ten. -/
@[simp] theorem built_restoreDigit (register : Int) : Built (restoreDigit register) := by
  simp [restoreDigit]

/-- `printDigit` adds the code of zero and writes. -/
@[simp] theorem built_printDigit : Built printDigit := by
  simp [printDigit]

/-- `printDigits` restores and prints three digits, some of them under conditions. -/
@[simp] theorem built_printDigits : Built printDigits := by
  have hhundreds : Built (sequence [printDigit, setAt Register.bump 1]) :=
    built_sequence (by simp)
  exact built_sequence (by simp [hhundreds])

/-- `writeDecimal pos` splits the value of the cell and prints its digits. -/
@[simp] theorem built_writeDecimal (pos : Int) : Built (writeDecimal pos) :=
  Built.noted _ (built_saveCursor (built_sequence (by simp)))

/-- `writeNumber value` prints a register with `value`. -/
@[simp] theorem built_writeNumber (value : Int) : Built (writeNumber value) :=
  Built.noted _ (built_saveCursor (built_sequence (by simp)))

/-- `readYesNo` is a loop that reads until one of two conditions on the key holds. -/
@[simp] theorem built_readYesNo : Built readYesNo := by
  have hyes : Built (sequence [clearAt Register.yesNoLoop, setAt Register.yesNo 1]) :=
    built_sequence (by simp)
  have hpass : Built (sequence [readAt Register.yesNoKey, add (-110),
      ifZero Register.yesNoKey (clearAt Register.yesNoLoop), moveTo Register.yesNoKey, add (-11),
      ifZero Register.yesNoKey (sequence [clearAt Register.yesNoLoop, setAt Register.yesNo 1])]) :=
    built_sequence (by simp [hyes])
  exact Built.noted _ (built_saveCursor (built_sequence (by simp [hpass])))

/-- `say text next` checks `next`, writes a line and selects `next`. -/
@[simp] theorem built_say (text : Bytes) (next : Int) : Built (say text next) :=
  Built.look (looks_checkNode next) fun _ =>
    Built.noted _ (built_saveCursor (built_sequence (by simp)))

/-- `ask prompt no yes` checks both nodes, writes the question, reads the answer and selects one of
the two. -/
@[simp] theorem built_ask (prompt : Bytes) (no yes : Int) : Built (ask prompt no yes) :=
  Built.look (looks_checkNode no) fun _ => Built.look (looks_checkNode yes) fun _ =>
    Built.noted _ (built_saveCursor (built_sequence (by simp)))

/-- `selectAction before table` is built if all actions of the `table` are, by recursion on the
`table`. -/
theorem built_selectAction (before : Int) {table : Table}
    (htable : ∀ entry ∈ table, Built entry.2) : Built (selectAction before table) := by
  induction table generalizing before with
  | nil => exact Built.nil
  | cons entry rest ih =>
    obtain ⟨id, action⟩ := entry
    have haction : Built action := htable _ List.mem_cons_self
    have hrest : Built (selectAction id rest) :=
      ih id fun e he => htable e (List.mem_cons_of_mem _ he)
    exact built_sequence (by simp [haction, hrest])

/-- `dispatch table` checks the nodes of the `table`, and is a loop around `selectAction`. -/
theorem built_dispatch {table : Table} (htable : ∀ entry ∈ table, Built entry.2) :
    Built (dispatch table) := by
  have hselect := built_selectAction 0 htable
  exact Built.look (looks_checkIds _) fun _ => Built.noted _ (built_saveCursor
    (built_loopAt _ (built_sequence (by simp [hselect]))))

/-- `dispatchFrom start table` checks `start`, selects it and dispatches. -/
theorem built_dispatchFrom (start : Int) {table : Table}
    (htable : ∀ entry ∈ table, Built entry.2) : Built (dispatchFrom start table) := by
  have hdispatch := built_dispatch htable
  exact Built.look (looks_checkNode start) fun _ => built_sequence (by simp [hdispatch])

/-- `observe cells` looks where the `cells` are and records what is known of them. -/
@[simp] theorem built_observe (cells : List Place) : Built (observe cells) :=
  .look (looks_mapM looks_resolve cells) fun _ => .look (looks_modify fun _ => ⟨rfl, rfl, rfl,
    List.suffix_rfl⟩) fun _ => .nil

/-- A step on a place may look where the place is. -/
@[simp] theorem built_resolve_bind (place : Place) {next : Int → Gen Fragment}
    (hnext : ∀ pos, Built (next pos)) : Built (place.resolve >>= next) :=
  Built.look (looks_resolve place) hnext

end Steps

/-! ### Directives -/

section Tables

variable {α : Type} {id : Int}

/-- What is in a list of entries after one was put into it is this one or was there before. -/
theorem mem_of_mem_insertEntry {entry : α} {entries : List (Int × α)} {e : Int × α}
    (h : e ∈ insertEntry id entry entries) : e = (id, entry) ∨ e ∈ entries := by
  induction entries with
  | nil => exact Or.inl (List.mem_singleton.mp h)
  | cons first rest ih =>
    rw [insertEntry] at h
    split at h
    · exact List.mem_cons.mp h
    · split at h
      · obtain rfl | hrest := List.mem_cons.mp h
        · exact Or.inl rfl
        · exact Or.inr (List.mem_cons_of_mem _ hrest)
      · obtain rfl | hrest := List.mem_cons.mp h
        · exact Or.inr List.mem_cons_self
        · exact (ih hrest).imp_right (List.mem_cons_of_mem _)

/-- What is in a list of entries after several were put into it is one of these or was there before.
-/
theorem mem_of_mem_foldl_insertEntry (entries table : List (Int × α)) {e : Int × α}
    (h : e ∈ entries.foldl (fun table (id, entry) => insertEntry id entry table) table) :
    e ∈ entries ∨ e ∈ table := by
  induction entries generalizing table with
  | nil => exact Or.inr h
  | cons first rest ih =>
    obtain hrest | htable := ih _ h
    · exact Or.inl (List.mem_cons_of_mem _ hrest)
    · obtain rfl | htable := mem_of_mem_insertEntry htable
      · exact Or.inl List.mem_cons_self
      · exact Or.inr htable

/-- The actions of a table are among those of its entries. -/
theorem mem_of_mem_ofEntries {entries : List (Int × Option (Gen Fragment))} {action : Gen Fragment}
    (h : (id, action) ∈ Table.ofEntries entries) : (id, some action) ∈ entries := by
  obtain ⟨⟨id', entry⟩, hentry, hsome⟩ := List.mem_filterMap.mp h
  obtain ⟨action', rfl, hpair⟩ := Option.map_eq_some_iff.mp hsome
  cases hpair
  obtain hmem | hnil := mem_of_mem_foldl_insertEntry entries [] hentry
  · exact hmem
  · cases hnil

end Tables

mutual

/-- The step of a directive is put together by the rules. -/
theorem Directive.built_emit : (directive : Directive) → Built directive.emit
  | .saveCursor body => built_saveCursor (built_emitAll body)
  | .loopAt control body =>
    built_resolve_bind control fun _ => built_loopAt _ (built_emitAll body)
  | .repeatBy count body =>
    built_resolve_bind count fun _ => built_repeatBy _ (built_emitAll body)
  | .doOnceIf flag body =>
    built_resolve_bind flag fun _ => built_doOnceIf _ (built_emitAll body)
  | .ifNonzero pos body =>
    built_resolve_bind pos fun _ => built_ifNonzero _ (built_emitAll body)
  | .ifZero pos body =>
    built_resolve_bind pos fun _ => built_ifZero _ (built_emitAll body)
  | .dispatch entries => built_dispatch fun _ hentry =>
    built_emitEntries entries (mem_of_mem_ofEntries hentry)
  | .dispatchFrom start entries => built_dispatchFrom start fun _ hentry =>
    built_emitEntries entries (mem_of_mem_ofEntries hentry)
  | .group body => built_emitAll body
  -- Directives without a body differ only in how many places they resolve.
  | .copy _ _ | .addCell _ _ | .subCell _ _ =>
    built_resolve_bind _ fun _ => built_resolve_bind _ fun _ => by simp
  | .moveTo _ | .incAt _ | .decAt _ | .readAt _ | .clearAt _ | .addAt _ _ | .setAt _ _ | .mulAt _ _
  | .divCell _ | .modCell _ | .logicalAnd _ | .logicalOr _ | .logicalNot _ | .writeDecimal _ =>
    built_resolve_bind _ fun _ => by simp
  | .move amount => .move amount
  | .inc => .inc
  | .dec => .dec
  | .write => .write
  | .read => .read
  | .dump => .dump
  | .clear => .clear
  | .add amount => .add amount
  | .sub amount => .add (-amount)
  | .set value => built_set value
  | .mul factor => built_mul factor
  | .div divisor => built_div divisor
  | .mod divisor => built_mod divisor
  | .checkZero => built_checkZero
  | .checkNonzero => built_checkNonzero
  | .checkEq value => built_checkEq value
  | .writeChar c => built_writeChar c
  | .writeString text => built_writeString text
  | .writeNumber value => built_writeNumber value
  | .readYesNo => built_readYesNo
  | .say text next => built_say text next
  | .ask prompt no yes => built_ask prompt no yes
  | .observe cells => built_observe cells

/-- The step of directives one after another is put together by the rules. -/
theorem built_emitAll : (directives : List Directive) → Built (emitAll directives)
  | [] => Built.nil
  | first :: rest => .append first.built_emit (built_emitAll rest)

/-- The actions of `entries` are put together by the rules, as their directives are. -/
theorem built_emitEntries : (entries : List Entry) → {id : Int} → {action : Gen Fragment} →
    (id, some action) ∈ emitEntries entries → Built action
  | .absent _ :: rest, _, _, h => by
    simp only [emitEntries, List.mem_cons, Prod.mk.injEq, reduceCtorEq, and_false, false_or] at h
    exact built_emitEntries rest h
  | .action _ body :: rest, _, _, h => by
    simp only [emitEntries, List.mem_cons, Prod.mk.injEq, Option.some.injEq] at h
    obtain ⟨-, rfl⟩ | hrest := h
    · exact built_emitAll body
    · exact built_emitEntries rest hrest

end

end TapeMachine.Generator
