import TapeMachine.Proofs.CursorAgreement
import TapeMachine.Proofs.SymbolMachine

/-!
# What a session knows is true

A session tracks what the cells hold. Its facts are those of the innermost open loop, so they are
related to a snapshot together with the one from which the current pass of that loop started: a cell
with a known value holds that value, and a cell without a fact is as it was at the start of the
pass. Each rule by which code is put together keeps this relation; for a loop it holds of every pass
anew.

The module introduces:

* `Generator.Agrees`: the relation of a session to a snapshot and the start of the pass;
* `Generator.Agrees.known`: a known value is the value of the cell;
* `Generator.Derives.agrees_of_steady`: code that follows the rules and makes no pad dirty keeps the
  relation;
* `Generator.cells_eq_of_known`: what is known after a session holds of a machine that
  has run its code.
-/

namespace TapeMachine

/-! ### Loops that get a node -/

namespace Source

mutual

/-- Whether a loop, and every loop inside it, has a node in the program. -/
def keepsLoops : Source → Bool
  | .symbol _ => true
  | .loop body => !(loopNodes body).isEmpty && allKeepLoops body

/-- Whether every loop has a node in the program. -/
def allKeepLoops : List Source → Bool
  | [] => true
  | tree :: rest => tree.keepsLoops && allKeepLoops rest

end

/-- Where every loop has a node, there is nothing to prune. -/
theorem prune_of_allKeepLoops :
    (trees : List Source) → allKeepLoops trees = true → prune trees = trees
  | [], _ => rfl
  | .symbol b :: rest, h => by
    rw [allKeepLoops, keepsLoops, Bool.true_and] at h
    rw [prune_cons, pruned_symbol, prune_of_allKeepLoops rest h]
  | .loop body :: rest, h => by
    simp only [allKeepLoops, keepsLoops, Bool.and_eq_true, Bool.not_eq_true'] at h
    obtain ⟨⟨hnodes, hbody⟩, hrest⟩ := h
    have hne : loopNodes body ≠ [] := by
      rintro hnil
      rw [hnil] at hnodes
      cases hnodes
    rw [prune_cons, pruned_loop, if_neg hne, prune_of_allKeepLoops body hbody,
      prune_of_allKeepLoops rest hrest]

end Source

namespace Generator

variable {σ σ' : Session} {start s t : Snapshot} {pos v : Int} {value : Option Int}
  {code : Fragment}

/-- Whether a cell holds a known value: modulo 256, and exactly where values are tracked modulo
256. -/
def Session.Represents (σ : Session) (v : Int) (b : UInt8) : Prop :=
  b = UInt8.ofInt v ∧ (σ.wraps = true → 0 ≤ v ∧ v < 256)

/-- The value tracked for a sum is that of the cell after the addition. -/
theorem Session.Represents.add {b : UInt8} (h : σ.Represents v b) (amount : Int) :
    σ.Represents (σ.tracked (v + amount)) (b + UInt8.ofInt amount) := by
  have hsum : b + UInt8.ofInt amount = UInt8.ofInt (Word.wrap (v + amount)) := by
    rw [ofInt_wrap, UInt8.ofInt_add, h.1]
  unfold tracked
  split
  · exact ⟨by rw [hsum, ofInt_emod], fun _ => by omega⟩
  · next hwraps => exact ⟨hsum, fun h => absurd h hwraps⟩

/-- Whether a session is right about a snapshot as far as code may rely on it in every pass of a
loop. -/
structure Suits (σ : Session) (s : Snapshot) : Prop where
  /-- The cursor is where the session says. -/
  cursor : s.cursor = σ.cursor
  onTape : OnTape s.cursor
  /-- Pads that are not dirty are zero. -/
  pad : ∀ {pos}, σ.knowledge.isCleanPad pos = true → s.cells pos = 0

/-- Whether a session is right about a snapshot, where `start` is the snapshot from which the
current pass of the innermost loop started, or the blank tape outside all loops. -/
structure Agrees (σ : Session) (start s : Snapshot) : Prop extends Suits σ s where
  /-- A known value is the value of its cell. -/
  fact : ∀ {pos v}, σ.knowledge.facts.lookup pos = some (some v) → σ.Represents v (s.cells pos)
  /-- A cell without a fact has not changed. -/
  untouched : ∀ {pos}, σ.knowledge.facts.lookup pos = none → s.cells pos = start.cells pos
  /-- Outside all loops the start is a blank tape. -/
  blank : σ.knowledge.loops = [] → ∀ pos, start.cells pos = 0

namespace Agrees

/-- A known value is the value of its cell, also for pads and for cells that were never written. -/
theorem known (h : Agrees σ start s) (hknown : σ.known pos = some v) :
    σ.Represents v (s.cells pos) := by
  cases hclean : σ.knowledge.isCleanPad pos with
  | true =>
    rw [Session.known, Knowledge.known_of_isCleanPad hclean] at hknown
    obtain rfl := Option.some.inj hknown
    exact ⟨h.pad hclean, fun _ => by decide⟩
  | false =>
    cases hfact : σ.knowledge.facts.lookup pos with
    | some value =>
      rw [Session.known, Knowledge.known_of_lookup hclean hfact] at hknown
      exact h.fact (hfact.trans (congrArg some hknown))
    -- Nothing was noted of the cell: outside of loops it is zero, inside nothing is known.
    | none =>
      rw [Session.known, Knowledge.known_of_untouched hclean hfact] at hknown
      split at hknown
      · next hloops =>
        obtain rfl := Option.some.inj hknown
        rw [h.untouched hfact, h.blank hloops]
        exact ⟨rfl, fun _ => by decide⟩
      · cases hknown

/-- Only how values are tracked, the cursor and the knowledge of a session matter. -/
theorem of_session (h : Agrees σ start s) (hwraps : σ'.wraps = σ.wraps)
    (hcursor : σ'.cursor = σ.cursor) (hknowledge : σ'.knowledge = σ.knowledge) :
    Agrees σ' start s := by
  refine ⟨⟨h.cursor.trans hcursor.symm, h.onTape, ?_⟩, ?_, ?_, ?_⟩
  · rw [hknowledge]
    exact h.pad
  · intro pos v hfact
    rw [hknowledge] at hfact
    unfold Session.Represents
    rw [hwraps]
    exact h.fact hfact
  · rw [hknowledge]
    exact h.untouched
  · rw [hknowledge]
    exact h.blank

/-- Only the cursor and the cells of a snapshot matter. -/
theorem of_cells (h : Agrees σ start s) (hcursor : t.cursor = s.cursor)
    (hcells : t.cells = s.cells) : Agrees σ start t := by
  refine ⟨⟨hcursor.trans h.cursor, hcursor ▸ h.onTape, ?_⟩, ?_, ?_, h.blank⟩
  · rw [hcells]
    exact h.pad
  · rw [hcells]
    exact h.fact
  · rw [hcells]
    exact h.untouched

theorem goTo (h : Agrees σ start s) (htape : OnTape pos) :
    Agrees { σ with cursor := pos } start (s.goTo pos) :=
  ⟨⟨rfl, htape, h.pad⟩, h.fact, h.untouched, h.blank⟩

/-- Writing a cell, where the value learned is the value written. A pad gets dirty by that, so it
need not be zero. -/
theorem learn (h : Agrees σ start s) (pos : Int) (value : Option Int) (b : UInt8)
    (hvalue : ∀ v, value = some v → σ.Represents v b) :
    Agrees (σ.learn pos value) start (s.set pos b) := by
  -- The facts are those before but for `pos`, which decides all the cases below.
  have hfacts : ∀ other, (σ.learn pos value).knowledge.facts.lookup other =
      if other = pos then some value else σ.knowledge.facts.lookup other := by
    intro other
    rw [Session.learn_knowledge, Knowledge.facts_learn, Facts.lookup_set]
  refine ⟨⟨h.cursor, h.onTape, ?_⟩, ?_, ?_, ?_⟩
  · intro other hother
    obtain ⟨hne, hclean⟩ := Knowledge.isCleanPad_of_learn hother
    rw [Snapshot.cells_set_of_ne hne]
    exact h.pad hclean
  · intro other v hfact
    rw [hfacts] at hfact
    split at hfact
    · next hpos =>
      rw [hpos, Snapshot.cells_set_self]
      exact hvalue v (Option.some.inj hfact)
    · next hpos =>
      rw [Snapshot.cells_set_of_ne hpos]
      exact h.fact hfact
  · intro other hfact
    rw [hfacts] at hfact
    split at hfact
    · cases hfact
    · next hpos =>
      rw [Snapshot.cells_set_of_ne hpos]
      exact h.untouched hfact
  · rw [Session.learn_knowledge, Knowledge.loops_learn_eq_nil_iff]
    exact h.blank

/-- Writing the cell under the cursor. -/
theorem put (h : Agrees σ start s) (value : Option Int) (b : UInt8)
    (hvalue : ∀ v, value = some v → σ.Represents v b) :
    Agrees (σ.learn σ.cursor value) start (s.put b) := by
  rw [Snapshot.put, h.cursor]
  exact h.learn σ.cursor value b hvalue

/-- A constant is added to the cell under the cursor. -/
theorem bump (h : Agrees σ start s) (amount : Int) :
    Agrees (σ.bump amount) start (s.put (s.here + UInt8.ofInt amount)) := by
  have hput := h.put ((σ.known σ.cursor).map fun value => σ.tracked (value + amount))
    (s.here + UInt8.ofInt amount) (by
      intro v hv
      obtain ⟨old, hold, rfl⟩ := Option.map_eq_some_iff.mp hv
      have hknown := h.known hold
      rw [← h.cursor] at hknown
      exact hknown.add amount)
  exact hput.of_session (σ.bump_wraps amount) (σ.bump_cursor amount) (σ.bump_knowledge amount)

/-- If the next cell is known to be zero after a constant was added, it is zero before. -/
theorem next_eq_zero (h : Agrees σ start s) {amount : Int}
    (hzero : (σ.bump amount).knowledge.isZero (σ.cursor + 1) = true) :
    s.cells (s.cursor + 1) = 0 := by
  have hknown := (h.bump amount).known (eq_of_beq hzero)
  have hne : σ.cursor + 1 ≠ s.cursor := by
    rw [h.cursor]
    omega
  rw [Snapshot.put, Snapshot.cells_set_of_ne hne] at hknown
  rw [h.cursor]
  exact hknown.1

/-! ### Loops -/

/-- Each pass of a loop starts without facts. -/
theorem enter (h : Suits σ s) : Agrees { σ with knowledge := σ.knowledge.enter σ.cursor } s s :=
  ⟨⟨h.cursor, h.onTape, h.pad⟩, nofun, fun _ => rfl, nofun⟩

/-- Where a pass ends that makes no pad dirty, the next one can start. -/
theorem next_pass {σ₁ : Session} (h : Agrees σ₁ start s) (hback : σ₁.cursor = σ.cursor)
    (hsteady : σ₁.knowledge.dirty = σ.knowledge.dirty) : Suits σ s := by
  refine ⟨h.cursor.trans hback, h.onTape, fun hclean => h.pad ?_⟩
  rwa [Knowledge.isCleanPad, hsteady]

/-- What the passes of a loop do to the cells, given what one pass does and that it makes no pad
dirty: the cell tested is zero in the end, cells that the body does not write stay as they are, and
a cell of which the body tells the value holds that value if there was a pass at all. -/
theorem loop_cells {body : Effect} {σ₁ : Session}
    (hbody : ∀ {s t : Snapshot}, Agrees { σ with knowledge := σ.knowledge.enter σ.cursor } s s →
      body s (.done t) → Agrees σ₁ s t)
    (hback : σ₁.cursor = σ.cursor) (hsteady : σ₁.knowledge.dirty = σ.knowledge.dirty)
    (hs : Suits σ s) (hloop : Effect.loop body s (.done t)) :
    Suits σ t ∧ t.here = 0 ∧ ∀ pos,
      (σ₁.knowledge.facts.lookup pos = none → t.cells pos = s.cells pos) ∧
      (∀ v, σ₁.knowledge.facts.lookup pos = some (some v) →
        t.cells pos = s.cells pos ∨ σ₁.Represents v (t.cells pos)) := by
  -- Induction on the passes; the end of each one suits the session, as the start did.
  generalize he : Ending.done t = e at hloop
  induction hloop with
  | exit hzero =>
    cases he
    exact ⟨hs, hzero, fun _ => ⟨fun _ => rfl, fun _ _ => Or.inl rfl⟩⟩
  | pass _ hpass _ ih =>
    have hmid := hbody (enter hs) hpass
    obtain ⟨hsuits, hzero, hcells⟩ := ih (hmid.next_pass hback hsteady) he
    refine ⟨hsuits, hzero, fun pos => ⟨fun hnone => ?_, fun v hsome => Or.inr ?_⟩⟩
    · rw [(hcells pos).1 hnone, hmid.untouched hnone]
    · obtain hsame | hvalue := (hcells pos).2 v hsome
      · rw [hsame]
        exact hmid.fact hsome
      · exact hvalue
  | stop _ _ hstop =>
    cases he
    exact hstop.elim

/-- Closing a loop that makes no pad dirty. What is known of a cell that the body writes was known
before it, too, so it holds whether or not there was a pass. -/
theorem leave {body : Effect} {σ₁ : Session} {knowledge : Knowledge} (h : Agrees σ start s)
    (hwraps : σ₁.wraps = σ.wraps) (hbeneath : (σ.knowledge.enter σ.cursor).Beneath σ₁.knowledge)
    (hbody : ∀ {s t : Snapshot}, Agrees { σ with knowledge := σ.knowledge.enter σ.cursor } s s →
      body s (.done t) → Agrees σ₁ s t)
    (hback : σ₁.cursor = σ.cursor) (hleave : σ₁.knowledge.leave = some knowledge)
    (hsteady : knowledge.dirty = σ.knowledge.dirty) (hloop : Effect.loop body s (.done t)) :
    Agrees { σ₁ with knowledge } start t := by
  obtain ⟨hframe, hdirty⟩ := Knowledge.leave_frame hbeneath hleave
  obtain ⟨hsuits, hzero, hcells⟩ :=
    loop_cells hbody hback (hdirty.symm.trans hsteady) h.toSuits hloop
  have hlookup := Knowledge.lookup_leave hbeneath hleave hsteady
  refine ⟨⟨hsuits.cursor.trans hback.symm, hsuits.onTape, ?_⟩, ?_, ?_, ?_⟩
  · intro pos hclean
    apply hsuits.pad
    rwa [Knowledge.isCleanPad, ← hsteady]
  · intro pos v hfact
    change knowledge.facts.lookup pos = some (some v) at hfact
    change σ₁.Represents v (t.cells pos)
    rw [hlookup] at hfact
    -- The cell tested is zero; another one was known before the loop, and the body keeps it so.
    split at hfact
    · next hcontrol =>
      cases hfact
      rw [hcontrol, ← hsuits.cursor]
      exact ⟨hzero, fun _ => by decide⟩
    · cases htouched : σ₁.knowledge.facts.lookup pos with
      | none =>
        rw [Knowledge.lookup_mergeAll_of_none htouched] at hfact
        rw [(hcells pos).1 htouched, Session.Represents, hwraps]
        exact h.fact hfact
      | some value =>
        obtain ⟨merged, hmerged, hvalue⟩ := Knowledge.lookup_mergeAll_of_some htouched
        obtain ⟨hknown, hafter⟩ := hvalue v (Option.some.inj (hmerged.symm.trans hfact))
        have hbefore : σ₁.Represents v (s.cells pos) := by
          rw [Session.Represents, hwraps]
          exact h.known hknown
        cases hclean : σ.knowledge.isCleanPad pos with
        | true => rwa [hsuits.pad hclean, ← h.pad hclean]
        | false =>
          obtain rfl := hafter hclean
          obtain hunchanged | hchanged := (hcells pos).2 v htouched
          · rwa [hunchanged]
          · exact hchanged
  · intro pos hfact
    change knowledge.facts.lookup pos = none at hfact
    rw [hlookup] at hfact
    -- Without a fact after the loop there was none before it, and the body does not write the cell.
    split at hfact
    · cases hfact
    · cases htouched : σ₁.knowledge.facts.lookup pos with
      | none =>
        rw [Knowledge.lookup_mergeAll_of_none htouched] at hfact
        rw [(hcells pos).1 htouched]
        exact h.untouched hfact
      | some value =>
        obtain ⟨merged, hmerged, -⟩ := Knowledge.lookup_mergeAll_of_some htouched
        cases hmerged.symm.trans hfact
  · exact fun hloops => h.blank (hframe.loops_eq_nil hloops)

end Agrees

/-! ### Steady code -/

/-- Whether code makes no pad dirty, and counts no blanks on a dirty pad. -/
structure Steady (σ : Session) (code : Fragment) (σ' : Session) : Prop where
  dirty : σ'.knowledge.dirty = σ.knowledge.dirty
  blanks : Register.putPad ∉ σ.knowledge.dirty ∨
    ¬ Fragment.text blanksCode <:+: Fragment.text code

namespace Steady

/-- What counts no blanks has no part that does. -/
private theorem blanks_part {part : Fragment} (h : Steady σ code σ')
    (hpart : Fragment.text part <:+: Fragment.text code) : Register.putPad ∉ σ.knowledge.dirty ∨
      ¬ Fragment.text blanksCode <:+: Fragment.text part :=
  h.blanks.imp_right fun hnone hblanks => hnone (hblanks.trans hpart)

/-- Both parts of steady code are steady. -/
theorem append {σ₁ : Session} {first second : Fragment} (h : Steady σ (first ++ second) σ')
    (hfirst : Derives σ first σ₁) (hsecond : Derives σ₁ second σ') :
    Steady σ first σ₁ ∧ Steady σ₁ second σ' := by
  have hdirty := hfirst.dirty_eq_of_append hsecond h.dirty
  refine ⟨⟨hdirty, h.blanks_part ?_⟩, ⟨h.dirty.trans hdirty.symm, hdirty ▸ h.blanks_part ?_⟩⟩
  · rw [Fragment.text_append]
    exact (List.prefix_append _ _).isInfix
  · rw [Fragment.text_append]
    exact (List.suffix_append _ _).isInfix

theorem noted {note : Bytes} {body : Fragment} (h : Steady σ [.noted note body] σ') :
    Steady σ body σ' :=
  ⟨h.dirty, Fragment.text_noted note body ▸ h.blanks⟩

/-- The body of a steady loop is steady. -/
theorem loop {σ₁ : Session} {knowledge : Knowledge} {body : Fragment}
    (h : Steady σ [.loop body] { σ₁ with knowledge })
    (hbody : Derives { σ with knowledge := σ.knowledge.enter σ.cursor } body σ₁)
    (hleave : σ₁.knowledge.leave = some knowledge) :
    Steady { σ with knowledge := σ.knowledge.enter σ.cursor } body σ₁ :=
  ⟨(Knowledge.leave_frame hbody.frame.2 hleave).2.symm.trans h.dirty,
    h.blanks_part (Fragment.text_infix_loop body)⟩

end Steady

/-- Steady code that follows the rules keeps a session right about the snapshot. -/
theorem Derives.agrees_of_steady (h : Derives σ code σ') (hsteady : Steady σ code σ')
    (hs : Agrees σ start s) (heffect : code.effect s (.done t)) : Agrees σ' start t := by
  -- A case for each rule, by which the parts of steady code are steady.
  induction h generalizing start s t with
  | record hwraps hcursor hknowledge =>
    cases heffect
    exact hs.of_session hwraps hcursor hknowledge
  | append hfirst hsecond ih₁ ih₂ =>
    rw [Fragment.effect_append] at heffect
    obtain ⟨mid, heffect₁, heffect₂⟩ := Effect.seq_done_iff.mp heffect
    obtain ⟨hsteady₁, hsteady₂⟩ := hsteady.append hfirst hsecond
    exact ih₂ hsteady₂ (ih₁ hsteady₁ hs heffect₁) heffect₂
  | noted note _ ih =>
    rw [Fragment.effect_noted] at heffect
    exact ih hsteady.noted hs heffect
  | @move σ pos htape =>
    have hsum : s.cursor + (pos - σ.cursor) = pos := by
      rw [hs.cursor]
      omega
    have hmove := Fragment.effect_moving hs.onTape (hsum.symm ▸ htape)
    obtain rfl := Ending.done.inj (Fragment.effect_isFunctional _ hmove heffect)
    rw [hsum]
    exact hs.goTo htape
  | write =>
    rw [Fragment.effect_write] at heffect
    cases heffect
    exact hs.of_cells rfl rfl
  | dump =>
    rw [Fragment.effect_dump] at heffect
    cases heffect
    exact hs
  | read σ =>
    rw [Fragment.effect_read, Effect.of_iff] at heffect
    obtain ⟨b, rest, -, rfl⟩ := Snapshot.eq_of_read heffect
    have hrest : Agrees σ start { s with input := rest } := hs.of_cells rfl rfl
    exact hrest.put none b nofun
  | clear σ =>
    rw [Fragment.effect_clear] at heffect
    cases heffect
    refine hs.put (some 0) 0 fun v hv => ?_
    cases hv
    exact ⟨rfl, fun _ => by decide⟩
  | bump σ amount =>
    rw [Fragment.effect_adding] at heffect
    cases heffect
    exact hs.bump amount
  | constant σ amount =>
    rw [Fragment.effect_constant] at heffect
    -- Code that counts in the next cell is emitted only where that cell is known to be zero.
    obtain rfl := eq_of_effect_addingCode amount hs.onTape hs.next_eq_zero heffect
    exact hs.bump amount
  | @blanks σ hcursor hspace hput =>
    have hclean : σ.knowledge.isCleanPad Register.putPad = true :=
      Knowledge.isCleanPad_iff.mpr
        ⟨by decide, hsteady.blanks.resolve_right fun h => h List.infix_rfl⟩
    have hcounted := effect_blanksCode (hs.cursor.trans hcursor) (hs.pad hclean)
    obtain rfl := Ending.done.inj (Fragment.effect_isFunctional _ hcounted heffect)
    have hblank : ∀ {σ : Session} {v}, some (blank.toNat : Int) = some v →
        σ.Represents v (UInt8.ofInt 0 + 32) := by
      rintro σ v hv
      cases hv
      exact ⟨rfl, fun _ => by decide⟩
    rw [(hs.known hspace).1, (hs.known hput).1]
    exact (hs.learn _ _ _ fun _ => hblank).learn _ _ _ fun _ => hblank
  | @loop σ σ₁ knowledge body hbody hcursor hleave ih =>
    rw [Fragment.effect_loop] at heffect
    have hinner := hsteady.loop hbody hleave
    exact hs.leave hbody.frame.1 hbody.frame.2 (fun hpass => ih hinner hpass) hcursor hleave
      hsteady.dirty heffect

/-- Code that follows the rules keeps a session right about the snapshot, as long as no pad gets
dirty. -/
theorem Derives.agrees (h : Derives σ code σ') (hclean : σ'.knowledge.dirty = [])
    (hs : Agrees σ start s) (heffect : code.effect s (.done t)) : Agrees σ' start t := by
  have hnil := h.dirty_eq_nil hclean
  refine h.agrees_of_steady ⟨hclean.trans hnil.symm, Or.inl ?_⟩ hs heffect
  rw [hnil]
  exact List.not_mem_nil

/-! ### Sessions -/

/-- A new session is right about a blank tape. -/
theorem agrees_fresh (wraps : Bool) (input : Bytes) :
    Agrees { wraps } (.fresh input) (.fresh input) :=
  ⟨⟨rfl, onTape_zero, fun _ => rfl⟩, nofun, fun _ => rfl, fun _ _ => rfl⟩

/-- A machine that has reached the end of the program of a text is in a state to which the text
leads, if every loop of the text has a node in the program or the symbol machine reaches the end of
the text. -/
theorem effect_of_finished {wraps : Bool} (hderives : Derives { wraps } code σ)
    (hlength : (Fragment.text code).length ≤ Register.lastPosition)
    {m m' : Machine} {sink fuel : Nat} {memory : Memory} {input : Bytes}
    (hm : m.Ready sink memory input)
    (hexec : m.exec .endless fuel (Source.condense (Fragment.sources code)) = .finished m')
    (hloops : Source.allKeepLoops (Fragment.sources code) = true ∨
      ∃ s, SymbolMachine.Ends (Fragment.text code) input (.done s)) :
    code.effect (.fresh input) (.done (m'.view sink)) := by
  have hprogram := Machine.effect_of_exec hm.unhindered
    (Outcome.ending_eq_done_iff.mpr ⟨m', hexec, rfl⟩)
  rw [hm.view_eq] at hprogram
  obtain hkept | ⟨s, hends⟩ := hloops
  · have hleads := hderives.leads onTape_zero (by simpa using hlength)
    have heffects := Source.effects_of_condense hleads rfl onTape_zero hprogram
    rwa [Source.prune_of_allKeepLoops _ hkept] at heffects
  -- The text ends when it is run symbol by symbol, and both runs have one ending.
  · have heffects := SymbolMachine.effects_of_ends (Fragment.ofText_text code) hends
    have hcondensed : Program.effect (Source.condense (Fragment.sources code)) (.fresh input)
      (.done s) := Source.effects_refines_condense _ onTape_zero (by simp) heffects
    cases Program.effect_isFunctional _ hprogram hcondensed
    exact heffects

/-- Let the `directives` leave a session `σ` without dirty pads, and let a machine reach the end of
the `program` of their text. If `σ` knows the value `v` at `pos`, the cell holds `v`: modulo 256,
and exactly where `wraps` has values tracked modulo 256. As `Program.parse` drops the loops that
come to nothing, `hloops` asks for a text without them, or for one that ends when it is run symbol
by symbol. -/
theorem cells_eq_of_known {directives : List Directive} {wraps : Bool}
    (hemit : Session.perform { wraps } (emitAll directives) = (.ok code, σ))
    (hclean : σ.knowledge.dirty = [])
    (hlength : (Fragment.text code).length ≤ Register.lastPosition)
    {program : Program} (hparse : Program.parse (Fragment.text code) = .ok program)
    {m m' : Machine} {sink fuel : Nat} {memory : Memory} {input : Bytes}
    (hm : m.Ready sink memory input)
    (hexec : m.exec .endless fuel program = .finished m')
    (hloops : Source.allKeepLoops (Fragment.sources code) = true ∨
      ∃ s, SymbolMachine.Ends (Fragment.text code) input (.done s))
    (hknown : σ.known pos = some v) :
    (((m'.view sink).cells pos).toNat : Int) % 256 = v % 256 ∧
      (wraps = true → (((m'.view sink).cells pos).toNat : Int) = v) := by
  have hderives : Derives { wraps } code σ := derivable_emitAll directives hemit
  obtain rfl : Source.condense (Fragment.sources code) = program :=
    Except.ok.inj ((Fragment.parse_text code).symm.trans hparse)
  -- The run of the program is a run of the code, for which knowledge is sound.
  have heffect := effect_of_finished hderives hlength hm hexec hloops
  obtain ⟨hcell, hrange⟩ := (hderives.agrees hclean (agrees_fresh wraps input) heffect).known hknown
  have hvalue : (((m'.view sink).cells pos).toNat : Int) = v % 256 := by
    rw [hcell, toNat_ofInt]
  refine ⟨by omega, fun hwraps => ?_⟩
  have hbyte := hrange (hderives.frame.1.trans hwraps)
  omega

/-- A session that counts one cell down into another knows that the first is zero then. -/
theorem cells_eq_of_known_countdown : ∃ code σ program fuel m',
    Session.perform { wraps := true }
        (emitAll [.incAt (.cell 3), .repeatBy (.cell 3) [.incAt (.cell 5)]]) = (.ok code, σ) ∧
      Fragment.text code = utf8 ">>>+[>>+<<-]" ∧ Program.parse (Fragment.text code) = .ok program ∧
      (Machine.forInput .endless []).exec .endless fuel program = .finished m' ∧
      σ.known 3 = some 0 ∧ (((m'.view 0).cells 3).toNat : Int) = 0 := by
  have hm := Machine.ready_forInput .endless []
  obtain ⟨code, σ, hemit, htext, hclean, hknown⟩ : ∃ code σ, Session.perform { wraps := true }
      (emitAll [.incAt (.cell 3), .repeatBy (.cell 3) [.incAt (.cell 5)]]) = (.ok code, σ) ∧
        Fragment.text code = utf8 ">>>+[>>+<<-]" ∧ σ.knowledge.dirty = [] ∧ σ.known 3 = some 0 :=
    ⟨_, _, rfl, by decide, rfl, rfl⟩
  -- The loop is run once, so that 13 steps are enough for the symbol machine.
  obtain ⟨s, hends⟩ : ∃ s, SymbolMachine.Ends (utf8 ">>>+[>>+<<-]") [] (.done s) := ⟨_, 13, rfl⟩
  rw [← htext] at hends
  obtain ⟨fuel, m', hexec, -⟩ :=
    hm.finishes (Source.effects_refines_condense _ onTape_zero (by simp)
    (SymbolMachine.effects_of_ends (Fragment.ofText_text code) hends))
  have hlength : (Fragment.text code).length ≤ Register.lastPosition := by
    rw [htext]
    decide
  have hcell := (cells_eq_of_known hemit hclean hlength (Fragment.parse_text code)
    hm hexec (Or.inr ⟨s, hends⟩) hknown).2 rfl
  exact ⟨code, σ, _, fuel, m', hemit, htext, Fragment.parse_text code, hexec, hknown, hcell⟩

/-- In `+[]`, a loop without a body is entered and never ends, but `Program.parse` drops it. So the
program ends, and the cell that the loop tests is not zero although it is `known` to be. -/
theorem cells_ne_of_known_emptyLoop : ∃ code σ program fuel m',
    Session.perform { wraps := true } (emitAll [.inc, .loopAt (.cell 0) []]) = (.ok code, σ) ∧
      σ.knowledge.dirty = [] ∧ Fragment.text code = utf8 "+[]" ∧
      Program.parse (Fragment.text code) = .ok program ∧
      (Machine.forInput .endless []).exec .endless fuel program = .finished m' ∧
      σ.known 0 = some 0 ∧ (((m'.view 0).cells 0).toNat : Int) = 1 := by
  have heffect : Program.effect [{ op := .add, amount := 1 }] (.fresh [])
      (.done ((Snapshot.fresh []).put 1)) := by
    simp only [Program.effect_cons, Program.effect_nil, Node.effect_add, Effect.seq_skip,
      Effect.of_iff]
    rfl
  have hparse : Program.parse (utf8 "+[]") = .ok [{ op := .add, amount := 1 }] := by
    decide +kernel
  obtain ⟨fuel, m', hexec, hview⟩ := (Machine.ready_forInput .endless []).finishes heffect
  exact ⟨_, _, _, fuel, m', rfl, rfl, rfl, hparse, hexec, rfl, by rw [hview]; decide⟩

end Generator

end TapeMachine
