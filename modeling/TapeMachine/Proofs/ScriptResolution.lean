import TapeMachine.Proofs.DispatchEffect

/-!
# Scripts that have a tree

Resolving a script succeeds exactly if the script is well formed, and the tree is determined by the
script. The numbers of the tree are the places of the nodes, and all that it leads to is in it, so
its table can be dispatched.

The module introduces:

* `Dialog.Script.IsWellFormed`: what is asked of a script;
* `Dialog.Script.tree`, `Dialog.Script.resolve_eq_ok_iff`: the tree of a script, and which scripts
  have one;
* `Dialog.Script.IsNumberedBy`: how names, numbers and the table of a tree belong to a script;
* `Dialog.Tree.table_eq_tableOf`, `Dialog.Script.dispatchable_entries`: the table of a tree is one
  that can be dispatched.
-/

namespace TapeMachine.Dialog

/-! ### Names and numbers -/

/-- Whether a name leads somewhere: it is empty, which ends the dialog, or the name of a node. -/
def Leads (names : List Bytes) (name : Bytes) : Prop :=
  name = [] ∨ name ∈ names

instance (names : List Bytes) (name : Bytes) : Decidable (Leads names name) :=
  inferInstanceAs (Decidable (_ ∨ _))

/-- The number that a name leads to. -/
def target (names : List Bytes) (name : Bytes) : Nat :=
  if name = [] then 0 else idOf names name

section Names

variable {names : List Bytes} {name : Bytes} {id : Nat} {fault : Fault}

/-- A name that is there has the number of its first place. -/
theorem idOf_of_mem (h : name ∈ names) : idOf names name = names.idxOf name + 1 := by
  obtain ⟨i, hi⟩ := Option.isSome_iff_exists.mp (List.isSome_idxOf?.mpr h)
  rw [idOf, List.idxOf_eq_getD_idxOf?, hi]
  rfl

/-- A name that is not there has the number zero. -/
theorem idOf_of_not_mem (h : name ∉ names) : idOf names name = 0 := by
  rw [idOf, List.idxOf?_eq_none_iff.mpr h]

/-- There are no more numbers than `names`. -/
theorem idOf_le (names : List Bytes) (name : Bytes) : idOf names name ≤ names.length := by
  by_cases h : name ∈ names
  · rw [idOf_of_mem h]
    exact List.idxOf_lt_length_of_mem h
  · rw [idOf_of_not_mem h]
    exact Nat.zero_le _

/-- The number of a name that is there belongs to this name. -/
theorem nameOf_idOf (h : name ∈ names) : nameOf names (idOf names name) = name := by
  have hlt := List.idxOf_lt_length_of_mem h
  have hpos : (1 : Int) ≤ ((names.idxOf name + 1 : Nat) : Int) := by omega
  rw [idOf_of_mem h, nameOf, if_pos hpos, Int.toNat_natCast, Nat.add_sub_cancel,
    List.getElem?_eq_getElem hlt, List.getElem_idxOf hlt, Option.getD_some]

/-- The name at a `place` has the number behind it. -/
theorem nameOf_succ {place : Nat} (h : names[place]? = some name) :
    nameOf names (place + 1 : Nat) = name := by
  have hpos : (1 : Int) ≤ ((place + 1 : Nat) : Int) := by omega
  rw [nameOf, if_pos hpos, Int.toNat_natCast, Nat.add_sub_cancel, h, Option.getD_some]

/-- Where names differ, the number of a node is its place. -/
theorem idOf_of_getElem? (hnames : names.Nodup) {place : Nat} (h : names[place]? = some name) :
    idOf names name = place + 1 := by
  obtain ⟨hlt, rfl⟩ := List.getElem?_eq_some_iff.mp h
  rw [idOf_of_mem (List.getElem_mem hlt), hnames.idxOf_getElem place hlt]

/-- A name leads to one of the nodes or to zero. -/
theorem target_le (names : List Bytes) (name : Bytes) : target names name ≤ names.length := by
  rw [target]
  split
  · exact Nat.zero_le _
  · exact idOf_le names name

/-- A name can be followed if it leads somewhere, and then to its target. -/
theorem follow_eq_ok_iff :
    follow names fault name = .ok id ↔ Leads names name ∧ id = target names name := by
  rw [follow, target, Leads]
  -- An empty name ends the dialog and is not looked up.
  by_cases hempty : name = []
  · rw [if_pos (List.isEmpty_iff.mpr hempty), if_pos hempty, Except.ok.injEq]
    exact ⟨fun h => ⟨Or.inl hempty, h.symm⟩, fun h => h.2.symm⟩
  rw [if_neg (mt List.isEmpty_iff.mp hempty), if_neg hempty]
  by_cases hmem : name ∈ names
  · rw [idOf_of_mem hmem]
    change Except.ok _ = _ ↔ _
    rw [Except.ok.injEq]
    exact ⟨fun h => ⟨Or.inr hmem, h.symm⟩, fun h => h.2.symm⟩
  · rw [idOf_of_not_mem hmem]
    simp [hempty, hmem]

/-- Names are accepted if none is empty, no two are equal and none has come before. -/
theorem checkNames_eq_ok_iff {before : List Bytes} {done : Unit} :
    checkNames before names = .ok done ↔
      (∀ name ∈ names, name ≠ []) ∧ names.Nodup ∧ ∀ name ∈ names, name ∉ before := by
  induction names generalizing before with
  | nil => simp [checkNames]
  | cons name rest ih =>
    rw [checkNames]
    by_cases hempty : name = []
    · simp [hempty]
    rw [if_neg (mt List.isEmpty_iff.mp hempty)]
    by_cases hbefore : name ∈ before
    · simp [hbefore]
    · -- For the rest, the name is one of those that came before.
      rw [if_neg (by simpa using hbefore), ih]
      grind

end Names

/-! ### Nodes -/

/-- What a node does, given the numbers of the names. -/
def Node.action (names : List Bytes) (node : Node) : Action :=
  match node.say with
  | some text => .say text (target names node.next)
  | none => .ask (node.ask.getD []) (target names node.no) (target names node.yes)

/-- Whether a node does one thing and leads somewhere. -/
structure Node.IsSound (names : List Bytes) (node : Node) : Prop where
  /-- It says something or asks something, but not both. -/
  one : node.say.isSome ≠ node.ask.isSome
  /-- What it says leads somewhere. -/
  next : node.say.isSome → Leads names node.next
  /-- What it asks leads somewhere, with either answer. -/
  answers : node.ask.isSome → Leads names node.yes ∧ Leads names node.no

/-- Two steps succeed together through a result between them. -/
private theorem bind_eq_ok_iff {α β : Type} {first : Except Fault α} {goOn : α → Except Fault β}
    {b : β} : first >>= goOn = .ok b ↔ ∃ a, first = .ok a ∧ goOn a = .ok b := by
  cases first with
  | error fault => simp [bind, Except.bind]
  | ok a => simp [bind, Except.bind]

/-- Exactly the sound nodes can be resolved, and to their actions. -/
theorem Node.resolve_eq_ok_iff {names : List Bytes} {node : Node} {action : Action} :
    node.resolve names = .ok action ↔ node.IsSound names ∧ action = node.action names := by
  obtain ⟨name, say, next, ask, yes, no⟩ := node
  rw [Node.resolve]
  -- Of `say` and `ask`, a sound node has exactly one.
  cases say with
  | none =>
    cases ask with
    | none =>
      constructor
      · rintro ⟨⟩
      · exact fun h => absurd rfl h.1.one
    | some prompt =>
      simp only [bind_eq_ok_iff, follow_eq_ok_iff]
      constructor
      · rintro ⟨_, ⟨hyes, rfl⟩, _, ⟨hno, rfl⟩, ⟨⟩⟩
        exact ⟨⟨by simp, by simp, fun _ => ⟨hyes, hno⟩⟩, rfl⟩
      · rintro ⟨hsound, rfl⟩
        obtain ⟨hyes, hno⟩ := hsound.answers rfl
        exact ⟨_, ⟨hyes, rfl⟩, _, ⟨hno, rfl⟩, rfl⟩
  | some text =>
    cases ask with
    | none =>
      simp only [bind_eq_ok_iff, follow_eq_ok_iff]
      constructor
      · rintro ⟨_, ⟨hnext, rfl⟩, ⟨⟩⟩
        exact ⟨⟨by simp, fun _ => hnext, by simp⟩, rfl⟩
      · rintro ⟨hsound, rfl⟩
        exact ⟨_, ⟨hsound.next rfl, rfl⟩, rfl⟩
    | some prompt =>
      constructor
      · rintro ⟨⟩
      · exact fun h => absurd rfl h.1.one

/-- Nodes can be resolved together if each of them can. -/
theorem Node.mapM_resolve_eq_ok_iff {names : List Bytes} {nodes : List Node}
    {actions : List Action} : nodes.mapM (Node.resolve names) = .ok actions ↔
      (∀ node ∈ nodes, node.IsSound names) ∧ actions = nodes.map (Node.action names) := by
  induction nodes generalizing actions with
  | nil =>
    rw [List.mapM_nil]
    change Except.ok [] = _ ↔ _
    simp [eq_comm]
  | cons node rest ih =>
    rw [List.mapM_cons]
    simp only [bind_eq_ok_iff, Node.resolve_eq_ok_iff, ih, List.forall_mem_cons, List.map_cons]
    constructor
    · rintro ⟨_, ⟨hnode, rfl⟩, _, ⟨hrest, rfl⟩, ⟨⟩⟩
      exact ⟨⟨hnode, hrest⟩, rfl⟩
    · rintro ⟨⟨hnode, hrest⟩, rfl⟩
      exact ⟨_, ⟨hnode, rfl⟩, _, ⟨hrest, rfl⟩, rfl⟩

/-! ### Scripts -/

namespace Script

/-- Whether a script can be resolved. -/
structure IsWellFormed (script : Script) : Prop where
  /-- There are nodes, and no more than a cell can tell apart. -/
  count : 1 ≤ script.nodes.length ∧ script.nodes.length ≤ 255
  /-- All nodes have names. -/
  named : ∀ name ∈ script.names, name ≠ []
  /-- No two names are equal. -/
  distinct : script.names.Nodup
  /-- Every node does one thing and leads somewhere. -/
  sound : ∀ node ∈ script.nodes, node.IsSound script.names
  /-- The dialog starts with its first node or with one that is named. -/
  start : Leads script.names script.start

/-- The tree that a script has if it can be resolved. -/
def tree (script : Script) : Tree where
  names := script.names
  actions := script.nodes.map (Node.action script.names)
  start := target script.names script.startName

variable {script : Script}

/-- There is a name for each node. -/
theorem length_names (script : Script) : script.names.length = script.nodes.length :=
  List.length_map _

/-- The name of the node to start with is one of a node. -/
theorem leads_startName_iff (hnodes : script.nodes ≠ []) :
    Leads script.names script.startName ↔ Leads script.names script.start := by
  rw [startName]
  split
  · next hempty =>
    have hhead : script.names.headD [] ∈ script.names := by
      obtain ⟨node, rest, hcons⟩ := List.exists_cons_of_ne_nil hnodes
      simp [names, hcons]
    exact iff_of_true (Or.inr hhead) (Or.inl (List.isEmpty_iff.mp hempty))
  · rfl

/-- Resolving succeeds for well-formed scripts only, and gives their trees. -/
theorem resolve_eq_ok_iff {tree : Tree} :
    script.resolve = .ok tree ↔ script.IsWellFormed ∧ tree = script.tree := by
  rw [resolve]
  by_cases hempty : script.nodes = []
  · rw [if_pos (List.isEmpty_iff.mpr hempty)]
    constructor
    · rintro ⟨⟩
    · rintro ⟨hscript, -⟩
      have hcount := hscript.count.1
      simp [hempty] at hcount
  rw [if_neg (mt List.isEmpty_iff.mp hempty)]
  by_cases hmany : maxNodes < script.nodes.length
  · rw [if_pos hmany]
    constructor
    · rintro ⟨⟩
    · rintro ⟨hscript, -⟩
      exact absurd hmany (Nat.not_lt.mpr hscript.count.2)
  rw [if_neg hmany]
  -- What is left are the checks of the names, of the nodes and of the start, one after another.
  change (checkNames [] script.names >>= fun _ => _) = _ ↔ _
  simp only [bind_eq_ok_iff, checkNames_eq_ok_iff, Node.mapM_resolve_eq_ok_iff, follow_eq_ok_iff,
    leads_startName_iff hempty]
  constructor
  · rintro ⟨_, ⟨hnamed, hdistinct, -⟩, _, ⟨hsound, rfl⟩, _, ⟨hstart, rfl⟩, ⟨⟩⟩
    exact ⟨⟨⟨List.length_pos_iff.mpr hempty, Nat.not_lt.mp hmany⟩, hnamed, hdistinct, hsound,
      hstart⟩, rfl⟩
  · rintro ⟨hscript, rfl⟩
    exact ⟨(), ⟨hscript.named, hscript.distinct, by simp⟩, _, ⟨hscript.sound, rfl⟩, _,
      ⟨hscript.start, rfl⟩, rfl⟩

/-- How the names, the numbers and the table of a tree belong to a script. -/
structure IsNumberedBy (script : Script) (tree : Tree) : Prop where
  /-- Nodes are numbered from one on, in their order. -/
  id_of_place : ∀ place node, script.nodes[place]? = some node → tree.id node.name = place + 1
  /-- A name is that of its number. -/
  name_id : ∀ name ∈ script.names, tree.name (tree.id name) = name
  /-- A number is that of its name. -/
  id_name : ∀ id : Nat, 1 ≤ id → id ≤ script.nodes.length → tree.id (tree.name id) = id
  /-- The actions of the nodes are at their numbers, with numbers for the names of their targets. -/
  numbered : tree.numbered =
    (script.nodes.zipIdx 1).map fun (node, id) => (id, node.action tree.names)
  /-- The table has an entry for every number up to the last one, and no other. -/
  populated : tree.table.map (·.1) =
    (List.range' 1 script.nodes.length).map fun id : Nat => (id : Int)
  /-- Actions lead to zero or to a number that has an entry. -/
  closed : ∀ node ∈ script.nodes, ∀ id ∈ (node.action tree.names).targets,
    id = 0 ∨ (id : Int) ∈ tree.table.map (·.1)
  /-- The dialog starts with its first node if no other one is named. -/
  start : tree.start = if script.start = [] then 1 else tree.id script.start
  /-- The node to start with has an entry. -/
  start_mem : (tree.start : Int) ∈ tree.table.map (·.1)

/-- The nodes of a tree are numbered from one, in the order of the `script`. -/
theorem numbered_tree (script : Script) : script.tree.numbered =
    (script.nodes.zipIdx 1).map fun (node, id) => (id, node.action script.names) := by
  rw [Tree.numbered, tree, List.zipIdx_map, List.map_map]
  rfl

/-- The table of a tree has the numbers from one to that of the nodes. -/
theorem map_fst_table_tree (script : Script) : script.tree.table.map (·.1) =
    (List.range' 1 script.nodes.length).map fun id : Nat => (id : Int) := by
  rw [Tree.table, numbered_tree, ← List.zipIdx_map_snd, List.map_map, List.map_map, List.map_map]
  rfl

/-- The numbers in the table are those of the nodes. -/
theorem mem_table_tree_iff {id : Nat} : (id : Int) ∈ script.tree.table.map (·.1) ↔
    1 ≤ id ∧ id ≤ script.nodes.length := by
  rw [map_fst_table_tree]
  simp only [List.mem_map, List.mem_range'_1]
  constructor
  · rintro ⟨other, hother, heq⟩
    omega
  · exact fun h => ⟨id, by omega, rfl⟩

/-- The node to start with is the first one, or the one that is named. -/
theorem start_tree (hscript : script.IsWellFormed) :
    script.tree.start = if script.start = [] then 1 else script.tree.id script.start := by
  obtain ⟨node, rest, hnodes⟩ := List.exists_cons_of_ne_nil
    (List.length_pos_iff.mp hscript.count.1)
  have hfirst : script.names[0]? = some node.name := by simp [names, hnodes]
  have hnamed := hscript.named _ (List.mem_of_getElem? hfirst)
  have hhead : script.names.headD [] = node.name := by simp [names, hnodes]
  -- The default is a name, which is looked up like any other.
  change target script.names script.startName = _
  rw [startName]
  by_cases hstart : script.start = []
  · rw [if_pos (List.isEmpty_iff.mpr hstart), if_pos hstart, hhead, target, if_neg hnamed,
      idOf_of_getElem? hscript.distinct hfirst]
  · rw [if_neg (mt List.isEmpty_iff.mp hstart), if_neg hstart, target, if_neg hstart]
    rfl

/-- The dialog of a script that is well-formed starts with one of its nodes. -/
theorem start_tree_mem (hscript : script.IsWellFormed) :
    1 ≤ script.tree.start ∧ script.tree.start ≤ script.nodes.length := by
  rw [start_tree hscript]
  split
  · exact ⟨Nat.le_refl 1, hscript.count.1⟩
  · next hstart =>
    have hmem := hscript.start.resolve_left hstart
    have hle := idOf_le script.names script.start
    rw [length_names] at hle
    have hid : script.tree.id script.start = script.names.idxOf script.start + 1 := idOf_of_mem hmem
    exact ⟨by omega, hle⟩

/-- An action leads to one of the nodes or to zero. -/
theorem targets_le {node : Node} {id : Nat} (h : id ∈ (node.action script.names).targets) :
    id ≤ script.nodes.length := by
  have hle := target_le script.names
  simp only [length_names] at hle
  rw [Node.action] at h
  split at h
  · rw [Action.targets, List.mem_singleton] at h
    exact h ▸ hle _
  · rw [Action.targets, List.mem_pair] at h
    obtain rfl | rfl := h
    · exact hle _
    · exact hle _

/-- The tree of a well-formed script numbers its nodes. -/
theorem isNumberedBy_tree (hscript : script.IsWellFormed) : script.IsNumberedBy script.tree where
  id_of_place place node hnode :=
    idOf_of_getElem? hscript.distinct (by rw [names, List.getElem?_map, hnode, Option.map_some])
  name_id name hname := nameOf_idOf hname
  id_name id hlow hhigh := by
    obtain ⟨place, rfl⟩ := Nat.exists_eq_add_of_le' hlow
    -- Numbers start at one, so that the node `place + 1` is at `place`.
    have hlt : place < script.names.length := by
      rw [length_names]
      omega
    have hplace := List.getElem?_eq_getElem hlt
    change idOf script.names (nameOf script.names _) = _
    rw [nameOf_succ hplace, idOf_of_getElem? hscript.distinct hplace]
  numbered := numbered_tree script
  populated := map_fst_table_tree script
  closed node _ id hid := by
    rw [mem_table_tree_iff]
    have hle := targets_le hid
    omega
  start := start_tree hscript
  start_mem := mem_table_tree_iff.mpr (start_tree_mem hscript)

end Script

/-! ### Tables -/

/-- An entry with a number beyond all others is put at the end. -/
private theorem insertEntry_of_lt {α : Type} {id : Int} {entry : α} {table : List (Int × α)}
    (h : ∀ e ∈ table, e.1 < id) :
    Generator.insertEntry id entry table = table ++ [(id, entry)] := by
  induction table with
  | nil => rfl
  | cons first rest ih =>
    obtain ⟨hfirst, hrest⟩ := List.forall_mem_cons.mp h
    rw [Generator.insertEntry, if_neg (by omega), if_neg (by omega), ih hrest, List.cons_append]

/-- Entries in ascending order that are greater than those of a table go to its end. -/
private theorem foldl_insertEntry_of_pairwise {table entries : List (Int × Action)}
    (h : (table ++ entries).Pairwise (·.1 < ·.1)) :
    entries.foldl (fun table (id, action) => Generator.insertEntry id action table) table =
      table ++ entries := by
  induction entries generalizing table with
  | nil => exact (List.append_nil table).symm
  | cons first rest ih =>
    have hlast : ∀ e ∈ table, e.1 < first.1 := fun e he =>
      (List.pairwise_append.mp h).2.2 e he first List.mem_cons_self
    have happend : table ++ first :: rest = table ++ [first] ++ rest := by simp
    rw [happend] at h ⊢
    rw [List.foldl_cons, ← ih h]
    exact congrArg (rest.foldl _) (insertEntry_of_lt hlast)

/-- Entries in ascending order are arranged already. -/
theorem arranged_of_pairwise {entries : List (Int × Action)} (h : entries.Pairwise (·.1 < ·.1)) :
    arranged entries = entries :=
  @foldl_insertEntry_of_pairwise [] entries h

/-- The entries of the table of a tree. -/
def Tree.entries (tree : Tree) : List (Int × Action) :=
  tree.numbered.map fun (id, action) => ((id : Int), action)

/-- The entries of a `tree` are its actions, with their numbers. -/
theorem Tree.mem_entries_iff {tree : Tree} {id : Nat} {action : Action} :
    ((id : Int), action) ∈ tree.entries ↔ 1 ≤ id ∧ tree.actions[id - 1]? = some action := by
  rw [← List.mk_mem_zipIdx_iff_le_and_getElem?_sub, Tree.entries, Tree.numbered, List.map_map,
    List.mem_map]
  constructor
  · rintro ⟨⟨other, place⟩, hmem, heq⟩
    obtain ⟨hid, rfl⟩ := Prod.mk.inj heq
    obtain rfl : place = id := Int.ofNat_inj.mp hid
    exact hmem
  · exact fun h => ⟨(action, id), h, rfl⟩

/-- The entries of a `tree` are in ascending order. -/
theorem Tree.pairwise_entries (tree : Tree) : tree.entries.Pairwise (·.1 < ·.1) := by
  have hids : (List.range' 1 tree.actions.length).Pairwise (· < ·) := List.pairwise_lt_range' 1
  rw [← List.zipIdx_map_snd, List.pairwise_map] at hids
  rw [Tree.entries, Tree.numbered, List.map_map, List.pairwise_map]
  exact hids.imp fun h => Int.ofNat_lt.mpr h

/-- The table of a `tree` is that of its entries. -/
theorem Tree.table_eq_tableOf (tree : Tree) : tree.table = tableOf tree.entries := by
  rw [tableOf_eq, arranged_of_pairwise tree.pairwise_entries, Tree.entries, Tree.table,
    List.map_map]
  rfl

namespace Script

variable {script : Script}

/-- The entries of the tree of a script are the actions of its nodes. -/
theorem mem_entries_tree_iff {id : Nat} {action : Action} :
    ((id : Int), action) ∈ script.tree.entries ↔
      1 ≤ id ∧ ∃ node, script.nodes[id - 1]? = some node ∧ node.action script.names = action := by
  rw [Tree.mem_entries_iff, tree, List.getElem?_map, Option.map_eq_some_iff]

/-- What is done at any number leads no further than to the last node. -/
theorem targets_le_of_actionOf {id next : Nat} {action : Action}
    (h : actionOf script.tree.entries id = some action) (hnext : next ∈ action.targets) :
    next ≤ script.nodes.length := by
  obtain ⟨before, behind, hentries, -⟩ := List.lookup_eq_some_iff.mp h
  have hmem : ((id : Int), action) ∈ script.tree.entries := by
    rw [← List.mem_reverse, hentries]
    simp
  obtain ⟨-, node, -, rfl⟩ := mem_entries_tree_iff.mp hmem
  exact targets_le hnext

/-- The table of a well-formed script can be dispatched. -/
theorem dispatchable_entries (hscript : script.IsWellFormed) :
    Dispatchable script.tree.entries := by
  intro entry hentry
  obtain ⟨⟨id, action⟩, -, rfl⟩ := List.mem_map.mp hentry
  obtain ⟨hlow, node, hnode, rfl⟩ := mem_entries_tree_iff.mp hentry
  have hlt := (List.getElem?_eq_some_iff.mp hnode).1
  have hcount := hscript.count.2
  have hhigh : id ≤ 255 := by omega
  exact ⟨⟨Int.ofNat_le.mpr hlow, Int.ofNat_le.mpr hhigh⟩,
    fun next hnext => (targets_le hnext).trans hcount⟩

end Script

end TapeMachine.Dialog
