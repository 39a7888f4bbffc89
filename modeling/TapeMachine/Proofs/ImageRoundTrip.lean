import TapeMachine.Program.Image
import TapeMachine.Proofs.ItemRoundTrip

/-!
# Restoring stored programs

A stored program is the written form of an item, so restoring it gives what reading the item back
gives. Writing has no bounds and reading has: a loop takes two levels of nesting, one for the node
and one for the list of its nodes, and two levels are around the program. Of the 32 levels this
leaves room for 14 loops inside one another.

The module introduces:

* `Program.nesting`, `Program.longestList`: the size of a program as far as images are concerned;
* `Node.item`, `Image.item`: the items that nodes and images are written as;
* `Node.fits_item_iff`: which nodes can be read back;
* `Image.node?_item`: what reading a node gives;
* `Image.decode_encode`: what restoring a stored program gives.
-/

namespace TapeMachine

open Cbor

/-! ### Sizes -/

mutual

/-- How many loops are inside one another in a node. -/
def Node.nesting : Node → Nat
  | ⟨op, _, body⟩ => (if op = .loop then 1 else 0) + Node.nestingOf body

/-- How many loops are inside one another in the nodes of a list. -/
def Node.nestingOf : List Node → Nat
  | [] => 0
  | node :: rest => max node.nesting (Node.nestingOf rest)

end

mutual

/-- The length of the longest list inside a node. -/
def Node.longestBody : Node → Nat
  | ⟨_, _, body⟩ => max body.length (Node.longestBodyOf body)

/-- The length of the longest list inside the nodes of a list. -/
def Node.longestBodyOf : List Node → Nat
  | [] => 0
  | node :: rest => max node.longestBody (Node.longestBodyOf rest)

end

/-- How many loops are inside one another in a program. -/
def Program.nesting (program : Program) : Nat :=
  Node.nestingOf program

/-- The length of the longest list of nodes in a program, the program itself being one. -/
def Program.longestList (program : Program) : Nat :=
  max program.length (Node.longestBodyOf program)

/-! ### Checked programs -/

/-- An operation with a body that is no loop is at fault. -/
theorem Node.leafFault_of_hasBody (op : Op) (amount : Int64) :
    Node.leafFault op amount true ≠ none := by
  unfold Node.leafFault
  split
  case h_7 => simp
  all_goals split <;> simp

/-- A node without a fault is a loop with a body, or no loop and without a body. -/
theorem Node.body_of_fault_eq_none {op : Op} {amount : Int64} {body : List Node}
    (h : Node.fault ⟨op, amount, body⟩ = none) :
    (op = .loop ∧ body ≠ [] ∧ Node.firstFault body = none) ∨ (op ≠ .loop ∧ body = []) := by
  by_cases hloop : op = .loop
  · subst hloop
    rw [Node.fault.eq_def] at h
    change (if body.isEmpty then _ else _) = none at h
    split at h
    · simp at h
    · next hbody => exact .inl ⟨rfl, by simpa using hbody, h⟩
  · rw [Node.fault] at h
    · cases body with
      | nil => exact .inr ⟨hloop, rfl⟩
      | cons node rest => exact absurd h (Node.leafFault_of_hasBody op amount)
    · exact hloop

/-- Nodes have no fault if the first one has none and the `rest` has none. -/
theorem Node.firstFault_cons_eq_none {node : Node} {rest : List Node} :
    Node.firstFault (node :: rest) = none ↔ node.fault = none ∧ Node.firstFault rest = none := by
  rw [Node.firstFault]
  split <;> simp_all

/-- The check accepts programs without a fault. -/
theorem Program.check_eq_ok_iff {program : Program} :
    program.check = .ok () ↔ Node.firstFault program = none := by
  rw [Program.check]
  split <;> simp_all

/-! ### Items of nodes -/

/-- The item of an integer. -/
def Cbor.Item.ofInt : Int → Item
  | .ofNat n => .unsigned n
  | .negSucc n => .negative n

mutual

/-- The item of a node. -/
def Node.item : Node → Item
  | ⟨op, amount, body⟩ =>
    .map <| [.unsigned 1, .unsigned op.code.toNat] ++
      (if amount ≠ 0 then [.unsigned 2, .ofInt amount.toInt] else []) ++
      (if body.isEmpty then [] else [.unsigned 3, .array (Node.items body)])

/-- The items of the nodes of a list. -/
def Node.items : List Node → List Item
  | [] => []
  | node :: rest => node.item :: Node.items rest

end

/-- There is an item for each node. -/
theorem Node.length_items (nodes : List Node) : (Node.items nodes).length = nodes.length := by
  induction nodes with
  | nil => rfl
  | cons node rest ih => simp [Node.items, ih]

namespace Image

/-- The item of a program. -/
def programItem (program : Program) : Item :=
  if program.isEmpty then .simple 22 else .array (Node.items program)

/-- The item of an image. -/
def item (program : Program) : Item :=
  .map [.unsigned 1, .ofInt version, .unsigned 2, programItem program]

/-! ### Images are written items -/

/-- An integer is written as its item. -/
theorem write_ofInt (n : Int) : (Item.ofInt n).write = writeInt n := by
  cases n <;> rfl

mutual

/-- A node is written as its item. -/
theorem writeNode_eq (node : Node) : writeNode node = node.item.write := by
  obtain ⟨op, amount, body⟩ := node
  have hbody := writeNodes_eq body
  by_cases hamount : amount = 0 <;> by_cases hempty : body = [] <;>
    simp [writeNode, Node.item, Item.write, hamount, hempty, write_ofInt, Node.length_items, hbody]

/-- Nodes are written as their items. -/
theorem writeNodes_eq (nodes : List Node) :
    writeNodes nodes = Item.writeAll (Node.items nodes) := by
  cases nodes with
  | nil => rfl
  | cons node rest => rw [writeNodes, writeNode_eq node, writeNodes_eq rest]; rfl

end

/-- A program is stored as its item. -/
theorem encode_eq (program : Program) : encode program = (item program).write := by
  by_cases hempty : program = []
  · subst hempty
    rfl
  · simp [encode, item, Item.write, writeProgram, programItem, hempty, write_ofInt, writeNodes_eq,
      Node.length_items]

/-! ### Which images can be read -/

end Image

/-- The item of a word is writable. -/
theorem Cbor.Item.isWritable_ofInt (n : Int64) : (Item.ofInt n.toInt).IsWritable := by
  have hlow := n.le_toInt
  have hhigh := n.toInt_lt
  cases hn : n.toInt with
  | ofNat k =>
    change k < 0x10000000000000000
    rw [hn, Int.ofNat_eq_natCast] at hhigh
    omega
  | negSucc k =>
    change k < 0x10000000000000000
    omega

mutual

/-- The item of a node is writable. -/
theorem Node.isWritable_item (node : Node) : node.item.IsWritable := by
  obtain ⟨op, amount, body⟩ := node
  have hbody := Node.areWritable_items body
  have hop : op.code.toNat < Word.count := op.code.toNat_lt.trans (by decide)
  by_cases hamount : amount = 0 <;> by_cases hempty : body = [] <;>
    simp [Node.item, Item.IsWritable, Item.AreWritable, hamount, hempty, hbody, hop,
      Item.isWritable_ofInt, Word.count]

/-- The items of nodes are writable. -/
theorem Node.areWritable_items (nodes : List Node) : Item.AreWritable (Node.items nodes) := by
  cases nodes with
  | nil => trivial
  | cons node rest => exact ⟨Node.isWritable_item node, Node.areWritable_items rest⟩

end

/-- An integer fits at any `depth`. -/
theorem Cbor.Item.fits_ofInt (depth : Nat) (n : Int) : (Item.ofInt n).Fits depth := by
  cases n <;> trivial

/-- The item of a node without a body fits if there is a level left for it, and that of a node with
a body if there is a level left for its list and the items of the list fit. -/
theorem Node.fits_item {depth : Nat} {op : Op} {amount : Int64} {body : List Node} :
    (Node.item ⟨op, amount, body⟩).Fits depth ↔
      depth < Item.maxDepth ∧ (body = [] ∨ (depth + 1 < Item.maxDepth ∧
        body.length ≤ Item.maxCount ∧ Item.AllFit (depth + 2) (Node.items body))) := by
  by_cases hamount : amount = 0 <;> by_cases hempty : body = [] <;>
    simp [Node.item, Item.Fits, Item.AllFit, hamount, hempty, Item.fits_ofInt, Node.length_items,
      Item.maxCount]

mutual

/-- A loop takes two levels of nesting. -/
theorem Node.fits_item_iff {node : Node} (hok : node.fault = none) {depth : Nat} :
    node.item.Fits depth ↔
      depth + 2 * node.nesting < Item.maxDepth ∧ node.longestBody ≤ Item.maxCount := by
  obtain ⟨op, amount, body⟩ := node
  rw [Node.fits_item, Node.nesting, Node.longestBody]
  obtain ⟨rfl, hbody, hinner⟩ | ⟨hop, rfl⟩ := Node.body_of_fault_eq_none hok
  · rw [Node.allFit_items_iff hinner, if_pos rfl, max_le_iff]
    simp only [hbody, false_or]
    grind
  · simp [hop, Node.nestingOf, Node.longestBodyOf]

/-- The items of nodes fit if their loops are not too deep and their lists not too long. -/
theorem Node.allFit_items_iff {nodes : List Node} (hok : Node.firstFault nodes = none)
    {depth : Nat} :
    Item.AllFit depth (Node.items nodes) ↔ (nodes = [] ∨
      depth + 2 * Node.nestingOf nodes < Item.maxDepth) ∧
        Node.longestBodyOf nodes ≤ Item.maxCount := by
  cases nodes with
  | nil => simp [Node.items, Item.AllFit, Node.longestBodyOf]
  | cons node rest =>
    obtain ⟨hnode, hrest⟩ := Node.firstFault_cons_eq_none.1 hok
    rw [Node.items, Item.AllFit, Node.fits_item_iff hnode, Node.allFit_items_iff hrest,
      Node.nestingOf, Node.longestBodyOf, max_le_iff]
    have hnil : rest = [] → Node.nestingOf rest = 0 := by
      rintro rfl
      rfl
    grind

end

namespace Image

/-- The item of a program is writable. -/
theorem isWritable_item (program : Program) : (item program).IsWritable := by
  have hitems := Node.areWritable_items program
  by_cases hempty : program = [] <;>
    simp [item, programItem, version, Item.ofInt, Item.IsWritable, Item.AreWritable, hempty, hitems,
      Word.count]

/-- Two levels are around a program, so an image has room for 14 loops inside one another. -/
theorem fits_item_iff {program : Program} (hok : program.check = .ok ()) :
    (item program).Fits 0 ↔ program.nesting ≤ 14 ∧ program.longestList ≤ Item.maxCount := by
  have hcount : Item.maxCount = 131072 := rfl
  rw [Program.check_eq_ok_iff] at hok
  by_cases hempty : program = []
  · subst hempty
    simp [item, programItem, Item.Fits, Item.AllFit, Program.nesting, Node.nestingOf,
      Program.longestList, Node.longestBodyOf, Item.fits_ofInt, Item.maxDepth, Item.maxCount]
  · simp [item, programItem, hempty, Item.Fits, Item.AllFit, Item.fits_ofInt, Node.length_items,
      Node.allFit_items_iff hok, Program.nesting, Program.longestList, Item.maxDepth]
    omega

/-! ### Reading the item of an image -/

/-- An integer is read back from its item. -/
theorem integer?_ofInt (n : Int) : integer? (.ofInt n) = some n := by
  cases n with
  | ofNat n => rfl
  | negSucc n => simp [integer?, Item.ofInt, untagged, Int.negSucc_eq]; omega

/-- A word is read back from its item. -/
theorem int64?_ofInt (n : Int64) : int64? (.ofInt n.toInt) = some n := by
  have hsigned : Word.isSigned n.toInt = true := by
    have hlow := n.le_toInt
    have hhigh := n.toInt_lt
    simp [Word.isSigned]
    omega
  rw [int64?, integer?_ofInt]
  simp [hsigned]

/-- An operation is read back from its code. -/
theorem op?_unsigned (op : Op) : op? (.unsigned op.code.toNat) = some op := by
  have hcode : (op.code.toNat : Int) < 256 := by exact_mod_cast op.code.toNat_lt
  have hinteger : integer? (.unsigned op.code.toNat) = some (op.code.toNat : Int) := rfl
  rw [op?, hinteger]
  simp [hcode]

/-- The entries of the item of a node. -/
theorem record?_item (op : Op) (amount : Int64) (body : List Node) :
    ∃ entries, record? (Node.item ⟨op, amount, body⟩) = some entries ∧
      field? 1 entries = some (.unsigned op.code.toNat) ∧
      field? 2 entries = (if amount = 0 then none else some (.ofInt amount.toInt)) ∧
      field? 3 entries = (if body = [] then none else some (.array (Node.items body))) := by
  by_cases hamount : amount = 0 <;> by_cases hempty : body = [] <;>
    simp [Node.item, record?, entries?, untagged, keysAreValid, isKey, field?, selects, hamount,
      hempty]

mutual

/-- A node is read back if there are more levels than loops inside one another in it. -/
theorem node?_item {node : Node} (hok : node.fault = none) {levels : Nat}
    (hlevels : node.nesting < levels) : node? levels node.item = some node := by
  obtain ⟨op, amount, body⟩ := node
  obtain _ | levels := levels
  · omega
  obtain ⟨entries, hrecord, hop, hamount, hbody⟩ := record?_item op amount body
  -- Each field is left out where it has its default, and found otherwise.
  have hinner : readField entries 3 [] (fun body => do (← elements? body).mapM (node? levels)) =
      some body := by
    rw [readField, hbody]
    obtain ⟨rfl, hne, hbodyOk⟩ | ⟨-, rfl⟩ := Node.body_of_fault_eq_none hok
    · rw [if_neg hne]
      rw [Node.nesting, if_pos rfl] at hlevels
      exact mapM_items hbodyOk (by omega)
    · rw [if_pos rfl]
  have hfound : readField entries 2 0 int64? = some amount := by
    rw [readField, hamount]
    by_cases hzero : amount = 0
    · rw [if_pos hzero, hzero]
    · rw [if_neg hzero]
      exact int64?_ofInt amount
  rw [node?, hrecord, Option.bind_eq_bind, Option.bind_some, hinner, hfound, readField, hop]
  simp [op?_unsigned]

/-- Nodes without a fault are read back from their items, with levels enough. -/
theorem mapM_items {nodes : List Node} (hok : Node.firstFault nodes = none) {levels : Nat}
    (hlevels : Node.nestingOf nodes < levels) :
    (Node.items nodes).mapM (node? levels) = some nodes := by
  cases nodes with
  | nil => rfl
  | cons node rest =>
    obtain ⟨hnode, hrest⟩ := Node.firstFault_cons_eq_none.1 hok
    rw [Node.nestingOf, max_lt_iff] at hlevels
    rw [Node.items, List.mapM_cons, node?_item hnode hlevels.1, mapM_items hrest hlevels.2]
    rfl

end

/-- The program of an image is read back if the bound on levels is not reached. -/
theorem program?_programItem {program : Program} (hok : Node.firstFault program = none)
    (hnesting : program.nesting < Item.maxDepth) :
    program? (programItem program) = some program := by
  by_cases hempty : program = []
  · subst hempty
    rfl
  · rw [programItem, if_neg (by simpa using hempty)]
    exact mapM_items hok hnesting

/-- What is read of an image is the program that was written. -/
theorem read?_encode {program : Program} (hok : program.check = .ok ()) :
    read? (encode program) =
      if program.nesting ≤ 14 ∧ program.longestList ≤ 131072 then some (1, program) else none := by
  rw [encode_eq]
  split
  · next hsize =>
    have hfits := (fits_item_iff hok).2 hsize
    have hprogram : program? (programItem program) = some program :=
      program?_programItem (Program.check_eq_ok_iff.1 hok) (hsize.1.trans_lt (by decide))
    have hrecord : record? (item program) =
        some [.unsigned 1, .ofInt version, .unsigned 2, programItem program] := rfl
    have hversion : readField [.unsigned 1, .ofInt version, .unsigned 2, programItem program] 1 0
        int64? = some 1 := rfl
    have hread : readField [.unsigned 1, .ofInt version, .unsigned 2, programItem program] 2 []
        program? = some program := hprogram
    rw [read?, Item.ofBytes_write_of_fits (isWritable_item program) hfits, Option.bind_eq_bind,
      Option.bind_some, hrecord, Option.bind_eq_bind, Option.bind_some, hversion, hread]
    rfl
  · next hsize =>
    -- An item that can be read back fits, so one that does not fit is not read at all.
    have hnone : Item.ofBytes (item program).write = none := by
      rw [Option.eq_none_iff_forall_ne_some]
      intro found hread
      have hfits := (Item.fits_of_ofBytes_write (isWritable_item program) hread).1
      exact hsize ((fits_item_iff hok).1 hfits)
    rw [read?, hnone]
    rfl

/-- `decode` restores the `program` that `encode` stored. It fails only if more than 14 loops are
inside one another or if a list of nodes has more than 131072 elements. -/
theorem decode_encode {program : Program} (hok : program.check = .ok ()) :
    decode (encode program) =
      if program.nesting ≤ 14 ∧ program.longestList ≤ 131072 then .ok program
      else .error .malformed := by
  rw [decode, read?_encode hok]
  split_ifs with hsize
  · simp only [hok]
    rfl
  · rfl

/-- Amounts and bodies survive, and so do 14 loops inside one another, but not 15. -/
theorem decode_encode_tower :
    let tower (loops : Nat) : Program :=
      [⟨.add, Int64.minValue, []⟩, (fun node => ⟨.loop, -3, [node]⟩)^[loops] ⟨.clear, 0, []⟩]
    (tower 14).check = .ok () ∧ decode (encode (tower 14)) = .ok (tower 14) ∧
      (tower 15).check = .ok () ∧ decode (encode (tower 15)) = .error .malformed := by
  refine ⟨rfl, ?_, rfl, ?_⟩
  · rw [decode_encode rfl, if_pos (by decide)]
  · rw [decode_encode rfl, if_neg (by decide)]

end Image

end TapeMachine
