import TapeMachine.Proofs.DialogEffect

/-!
# What a pass of a dispatch does

A pass of a dispatch counts a copy of the selected node down through the nodes of the table, and
does the action of the node at which the copy gets to zero. The countdown goes on behind that
action, but no later node of the table is the selected one, so that no other action is done.

The module introduces:

* `Dialog.arranged`: the entries of a table in the order in which a pass goes through them;
* `Generator.exists_realizes_selectAction`: the countdown does the action of the selected node;
* `Generator.exists_realizes_pass`: a pass of the dispatch is a turn of the talk.
-/

namespace TapeMachine

/-! ### Tables -/

namespace Generator

section Tables

variable {α β : Type} {id : Int} {entry : α} {table : List (Int × α)}

/-- Looking a number up finds the first entry for it. -/
private theorem lookup_entry (e : Int × α) (n : Int) :
    (e :: table).lookup n = if n = e.1 then some e.2 else table.lookup n := by
  rw [List.lookup_cons]
  by_cases h : n = e.1
  · rw [if_pos h, beq_iff_eq.mpr h]
  · rw [if_neg h, beq_eq_false_iff_ne.mpr h]

/-- An entry that was put in is found, and so are those for other numbers. -/
theorem lookup_insertEntry (n : Int) :
    (insertEntry id entry table).lookup n = if n = id then some entry else table.lookup n := by
  induction table with
  | nil => exact lookup_entry (id, entry) n
  | cons first rest ih =>
    rw [insertEntry, lookup_entry first n]
    split
    · rw [lookup_entry, lookup_entry]
    · split
      · next hid =>
        rw [lookup_entry]
        grind
      · rw [lookup_entry, ih]
        grind

/-- Entries may be mapped before they are put in or after. -/
theorem insertEntry_map (g : α → β) :
    insertEntry id (g entry) (table.map fun e => (e.1, g e.2)) =
      (insertEntry id entry table).map fun e => (e.1, g e.2) := by
  induction table with
  | nil => rfl
  | cons first rest ih =>
    simp only [List.map_cons, insertEntry, ih]
    split
    · rfl
    · split <;> rfl

/-- Entries are kept in ascending order. -/
theorem pairwise_insertEntry (h : table.Pairwise (·.1 < ·.1)) :
    (insertEntry id entry table).Pairwise (·.1 < ·.1) := by
  induction table with
  | nil => exact List.pairwise_singleton _ _
  | cons first rest ih =>
    obtain ⟨hfirst, hrest⟩ := List.pairwise_cons.mp h
    rw [insertEntry]
    split
    · next hlt =>
      refine List.pairwise_cons.mpr ⟨fun e he => ?_, h⟩
      obtain rfl | he := List.mem_cons.mp he
      · exact hlt
      · exact Int.lt_trans hlt (hfirst e he)
    · split
      · next hid => exact List.pairwise_cons.mpr ⟨fun e he => hid ▸ hfirst e he, hrest⟩
      · next hle hne =>
        refine List.pairwise_cons.mpr ⟨fun e he => ?_, ih hrest⟩
        -- The entry is put in behind `first`, whose number is smaller.
        obtain rfl | he := mem_of_mem_insertEntry he
        · exact Int.lt_iff_le_and_ne.mpr ⟨Int.not_lt.mp hle, Ne.symm hne⟩
        · exact hfirst e he

/-- A node with a smaller number than all those of a table has no action in it. -/
theorem lookup_eq_none_of_lt {n : Int} (h : ∀ e ∈ table, n < e.1) : table.lookup n = none := by
  rw [List.lookup_eq_none_iff]
  intro e he
  simpa using (Int.ne_of_lt (h e he))

end Tables

end Generator

namespace Dialog

open Generator

/-- The entries of a table in ascending order, without those that were replaced. -/
def arranged (entries : List (Int × Action)) : List (Int × Action) :=
  entries.foldl (fun table (id, action) => insertEntry id action table) []

/-- The table in which the entries have code for their actions. -/
def tableOf (entries : List (Int × Action)) : Table :=
  Table.ofEntries (entries.map fun entry => (entry.1, some entry.2.emit))

variable (entries : List (Int × Action))

/-- Arranging entries and writing the code of their actions can be done in either order. -/
private theorem foldl_insertEntry_emit (table : List (Int × Action)) :
    (entries.map fun entry => (entry.1, some entry.2.emit)).foldl
      (fun table (id, action) => insertEntry id action table)
        (table.map fun entry => (entry.1, some entry.2.emit)) =
    (entries.foldl (fun table (id, action) => insertEntry id action table) table).map
      fun entry => (entry.1, some entry.2.emit) := by
  induction entries generalizing table with
  | nil => rfl
  | cons first rest ih =>
    rw [List.foldl_cons, ← ih, ← insertEntry_map fun action : Action => some action.emit]
    rfl

/-- The table of `entries` has the code of the actions, in order. -/
theorem tableOf_eq :
    tableOf entries = (arranged entries).map fun entry => (entry.1, entry.2.emit) := by
  rw [tableOf, Table.ofEntries, arranged]
  exact (congrArg _ (foldl_insertEntry_emit entries [])).trans (by simp [List.filterMap_map])

/-- In order, the entry for a `node` is still its action. -/
theorem lookup_arranged (node : Nat) :
    (arranged entries).lookup (node : Int) = actionOf entries node := by
  have hfold : ∀ table : List (Int × Action),
      (entries.foldl (fun table (id, action) => insertEntry id action table) table).lookup
          (node : Int) =
        (entries.reverse.lookup (node : Int)).or (table.lookup (node : Int)) := by
    induction entries with
    | nil => exact fun _ => rfl
    | cons first rest ih =>
      intro table
      rw [List.foldl_cons, ih, lookup_insertEntry, List.reverse_cons, List.lookup_append,
        lookup_entry, Option.or_assoc]
      split <;> rfl
  exact (hfold []).trans Option.or_none

/-- The entries are in ascending order. -/
theorem pairwise_arranged : (arranged entries).Pairwise (·.1 < ·.1) := by
  have hfold : ∀ table : List (Int × Action), table.Pairwise (·.1 < ·.1) →
      (entries.foldl (fun table (id, action) => insertEntry id action table) table).Pairwise
        (·.1 < ·.1) := by
    induction entries with
    | nil => exact fun _ h => h
    | cons first rest ih => exact fun table h => ih _ (pairwise_insertEntry h)
  exact hfold [] .nil

variable {entries}

/-- No entry is there that was not given. -/
theorem mem_of_mem_arranged {entry : Int × Action} (h : entry ∈ arranged entries) :
    entry ∈ entries := by
  obtain hmem | hnil := mem_of_mem_foldl_insertEntry entries [] h
  · exact hmem
  · cases hnil

/-! ### The countdown -/

/-- What follows a turn may change other registers, but not the talk. -/
theorem Turn.Shown.andThen {turn : Turn} {e : Ending} {h : Snapshot → Ending} (hturn : turn.Shown e)
    (hkeep : ∀ t, e = .done t → (Turn.next (.ofSnapshot t)).Shown (h t)) :
    turn.Shown (e.andThen h) := by
  cases turn with
  | next talk =>
    cases e with
    | done t =>
      cases hturn
      exact hkeep t rfl
    | outOfInput t => exact hturn
    | offTape => exact hturn
  | unanswered output =>
    cases e with
    | done t => exact hturn.elim
    | outOfInput t => exact hturn
    | offTape => exact hturn
  | closed => exact hturn.elim

/-- Whether a table can be dispatched: numbers and targets fit into a cell, and zero has no
action. -/
def Dispatchable (entries : List (Int × Action)) : Prop :=
  ∀ entry ∈ entries, (1 ≤ entry.1 ∧ entry.1 ≤ 255) ∧ ∀ target ∈ entry.2.targets, target ≤ 255

instance (entries : List (Int × Action)) : Decidable (Dispatchable entries) :=
  inferInstanceAs (Decidable (∀ _ ∈ _, _))

end Dialog

namespace Generator

open Dialog

/-- The copy of the node selected can be used. -/
private theorem usable_nodeWork : Register.Usable Register.nodeWork := by decide

/-- The countdown gets to zero at the selected node, and only there. -/
private theorem sub_ofInt_eq_zero_iff {v : UInt8} {id : Int} (hid : 0 ≤ id ∧ id ≤ 255) :
    v - UInt8.ofInt id = 0 ↔ (v.toNat : Int) = id := by
  have hbyte := toNat_ofInt id
  have hsub : v - UInt8.ofInt id = 0 ↔ v = UInt8.ofInt id := by grind
  rw [hsub, ← UInt8.toNat_inj]
  omega

/-- Counting down through a table does the action of the selected node. -/
theorem exists_realizes_selectAction {actions : List (Int × Action)}
    (hactions : Dispatchable actions) (hsorted : actions.Pairwise (·.1 < ·.1)) (before pos : Int) :
    ∃ next f, Realizes .inKnowledge pos
        (selectAction before (actions.map fun entry => (entry.1, entry.2.emit))) next f ∧
      ∀ (v : UInt8) (s : Snapshot), s.cells Register.nodeWork = v - UInt8.ofInt before →
        ((Talk.ofSnapshot s).proceed (actions.lookup (v.toNat : Int))).Shown (f s) := by
  induction actions generalizing before pos with
  | nil => exact ⟨pos, .done, Realizes.nil pos, fun _ _ _ => rfl⟩
  | cons entry rest ih =>
    obtain ⟨id, action⟩ := entry
    obtain ⟨⟨hlow, hhigh⟩, htargets⟩ := hactions _ List.mem_cons_self
    obtain ⟨hfirst, hrest⟩ := List.pairwise_cons.mp hsorted
    obtain ⟨g, hg, hact⟩ := Action.exists_realizes_emit htargets
    obtain ⟨next, f, hf, hselect⟩ :=
      ih (fun e he => hactions e (List.mem_cons_of_mem _ he)) hrest id Register.nodeWork
    have hadd := Realizes.addAt pos (usable_nodeWork.isOpen _)
      (usable_nodeWork.adds (before - id))
    have hdo := Realizes.ifZero usable_nodeWork.onTape (usable_nodeWork.isOpen _) (by decide) hg
    refine ⟨next, _, hadd.cons (hdo.cons (hf.cons (.nil next))), fun v s hwork => ?_⟩
    -- The copy has been counted down by this number then, and is zero if that is the node.
    have hcount : s.cells Register.nodeWork + UInt8.ofInt (before - id) = v - UInt8.ofInt id := by
      rw [hwork, ofInt_sub]
      grind
    rw [Ending.andThen_done, hcount, lookup_entry]
    generalize hu : (s.set Register.nodeWork (v - UInt8.ofInt id)).goTo Register.nodeWork = u
    have htalk : Talk.ofSnapshot s = .ofSnapshot u := by
      rw [← hu]
      simp (disch := decide) [Talk.ofSnapshot, Function.update_of_ne]
    have hwork : u.cells Register.nodeWork = v - UInt8.ofInt id := by
      rw [← hu, Snapshot.goTo_cells, Snapshot.cells_set_self]
    have hzero : u.cells Register.nodeWork = 0 ↔ (v.toNat : Int) = id := by
      rw [hwork]
      exact sub_ofInt_eq_zero_iff ⟨Int.le_trans (by decide) hlow, hhigh⟩
    simp only [htalk, Ending.andThen_end]
    by_cases hselected : (v.toNat : Int) = id
    · -- The action is done, and the rest of the countdown does not get to zero again.
      rw [if_pos hselected, if_pos (hzero.mpr hselected), Ending.andThen_andThen]
      obtain ⟨hshown, hkeep⟩ := hact (tested u 1)
      have htested : Talk.ofSnapshot (tested u 1) = .ofSnapshot u := by
        simp (disch := decide) [Talk.ofSnapshot]
      rw [htested] at hshown
      refine hshown.andThen fun t ht => ?_
      have hbehind := hselect v ((t.set Register.flag 0).goTo Register.nodeWork) (by
        rw [Snapshot.goTo_cells, Snapshot.cells_set_of_ne (by decide), hkeep t ht, ← hwork]
        simp (disch := decide))
      rw [lookup_eq_none_of_lt (hselected ▸ hfirst)] at hbehind
      have hflag : Talk.ofSnapshot ((t.set Register.flag 0).goTo Register.nodeWork) =
          .ofSnapshot t := by
        simp (disch := decide) [Talk.ofSnapshot, Function.update_of_ne]
      exact hflag ▸ hbehind
    · -- Nothing is done, and the countdown goes on from here.
      rw [if_neg hselected, if_neg (mt hzero.mp hselected), Ending.andThen_done]
      have hbehind := hselect v ((tested u 0).goTo Register.nodeWork) (by
        rw [← hwork]
        simp (disch := decide))
      have htested : Talk.ofSnapshot ((tested u 0).goTo Register.nodeWork) = .ofSnapshot u := by
        simp (disch := decide) [Talk.ofSnapshot]
      exact htested ▸ hbehind

/-! ### Passes -/

/-- The body of the loop of a dispatch. -/
def passOf (entries : List (Int × Action)) : Gen Fragment :=
  sequence [sequence [Generator.copy Register.nodeWork Register.node,
    selectAction 0 (tableOf entries), clearAt Register.nodeWork], moveTo Register.node]

/-- A pass of a dispatch is a turn of the talk, and leaves the countdown at zero. -/
theorem exists_realizes_pass {entries : List (Int × Action)} (hentries : Dispatchable entries) :
    ∃ f, Realizes .inKnowledge Register.node (passOf entries) Register.node f ∧
      ∀ s, ((Talk.ofSnapshot s).proceed (actionOf entries (Talk.ofSnapshot s).node)).Shown (f s) ∧
        ∀ t, f s = .done t → t.cells Register.nodeWork = 0 := by
  have hnode : Register.Usable Register.node := by decide
  obtain ⟨next, f, hf, hselect⟩ := exists_realizes_selectAction
    (fun entry hentry => hentries entry (mem_of_mem_arranged hentry)) (pairwise_arranged entries) 0
      Register.node
  rw [← tableOf_eq] at hf
  refine ⟨_, ((Realizes.copy hnode.onTape (usable_nodeWork.isOpen _) (hnode.isOpen _) (by decide)
    (by decide) (by decide)).cons (hf.cons ((Realizes.clearAt next (usable_nodeWork.isOpen _)).cons
      (.nil _)))).cons
      ((Realizes.moveTo _ hnode.onTape).cons (.nil _)), fun s => ?_⟩
  simp only [Ending.andThen_done, Ending.andThen_andThen]
  generalize hu : (s.set Register.nodeWork (s.cells Register.node)).set Register.copy 0 = u
  have htalk : Talk.ofSnapshot s = .ofSnapshot u := by
    rw [← hu]
    simp (disch := decide) [Talk.ofSnapshot, Function.update_of_ne]
  have hwork : u.cells Register.nodeWork = s.cells Register.node - UInt8.ofInt 0 := by
    rw [← hu, Snapshot.cells_set_of_ne (by decide), Snapshot.cells_set_self]
    exact (UInt8.sub_zero _).symm
  -- The countdown starts at the number of the node, as nothing has been subtracted yet.
  have hshown := hselect _ u hwork
  rw [← htalk] at hshown
  refine ⟨lookup_arranged entries _ ▸ hshown.andThen fun t _ => ?_, ?_⟩
  · simp (disch := decide) [Turn.Shown, Talk.ofSnapshot, Function.update_of_ne]
  · intro t ht
    obtain ⟨w, -, hcleared⟩ := Ending.andThen_eq_done_iff.mp ht
    cases hcleared
    simp

end Generator

end TapeMachine
