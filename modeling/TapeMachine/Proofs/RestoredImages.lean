import TapeMachine.Proofs.CheckedPrograms
import TapeMachine.Proofs.ImageRoundTrip

/-!
# Storing restored programs

Restoring is lenient, so one program has many images: keys in another order, tags, lengths that are
left open, fields that mean nothing. None of them holds a program that storing would make too large.
Reading bounds how deep arrays and maps are nested and how long an array is, tags do not hide a
level from it, and the item that a node is written as needs no more levels than the one it was read
from. So what was restored can be stored and restored again, and storing it a second time changes
nothing.

The module introduces:

* `Cbor.Item.IsWithin`: an item stays within the bounds of reading, tags or not;
* `Cbor.Item.isWithin_of_ofBytes`: reading gives no other items;
* `Image.fits_item_of_node?`: a node fits wherever the item that it was read from is;
* `Image.renew`: the image of what is restored from an image;
* `Image.renew_of_decode`: a renewed image is restored to the same program and renewed to
  itself.
-/

namespace TapeMachine

namespace Cbor.Item

/-! ### Items that were read -/

mutual

/-- Whether an item inside so many arrays and maps stays within the bounds of reading: no more than
32 of them are inside one another, and no array has more than 131072 elements. Tags do not count. -/
def IsWithin (depth : Nat) : Item → Prop
  | .array elements =>
    depth < maxDepth ∧ elements.length ≤ maxCount ∧ AreWithin (depth + 1) elements
  | .map entries => depth < maxDepth ∧ AreWithin (depth + 1) entries
  | .tagged _ content => content.IsWithin depth
  | _ => True

/-- Whether items inside so many arrays and maps stay within the bounds of reading. -/
def AreWithin (depth : Nat) : List Item → Prop
  | [] => True
  | item :: rest => item.IsWithin depth ∧ AreWithin depth rest

end

theorem areWithin_nil (depth : Nat) : AreWithin depth [] := trivial

/-- Items are within the bounds if each one is. -/
theorem areWithin_iff {depth : Nat} {items : List Item} :
    AreWithin depth items ↔ ∀ item ∈ items, item.IsWithin depth := by
  induction items with
  | nil => simp [AreWithin]
  | cons item rest ih => simp [AreWithin, ih]

mutual

/-- Inside fewer arrays and maps there is more room. -/
theorem IsWithin.of_le {depth deeper : Nat} (hle : depth ≤ deeper) :
    (item : Item) → item.IsWithin deeper → item.IsWithin depth
  | .array elements, ⟨hdepth, hlength, hall⟩ =>
    ⟨hle.trans_lt hdepth, hlength, AreWithin.of_le (Nat.succ_le_succ hle) elements hall⟩
  | .map entries, ⟨hdepth, hall⟩ =>
    ⟨hle.trans_lt hdepth, AreWithin.of_le (Nat.succ_le_succ hle) entries hall⟩
  | .tagged _ content, h => IsWithin.of_le hle content h
  | .unsigned _, _ | .negative _, _ | .bytes _, _ | .text _, _ | .simple _, _ | .float, _ => trivial

/-- Items within the bounds are so with fewer arrays and maps around them. -/
theorem AreWithin.of_le {depth deeper : Nat} (hle : depth ≤ deeper) :
    (items : List Item) → AreWithin deeper items → AreWithin depth items
  | [], _ => trivial
  | item :: rest, ⟨hitem, hrest⟩ => ⟨IsWithin.of_le hle item hitem, AreWithin.of_le hle rest hrest⟩

end

/-- The order of items does not matter to the bounds. -/
theorem AreWithin.reverse {depth : Nat} {items : List Item} (h : AreWithin depth items) :
    AreWithin depth items.reverse := by
  rw [areWithin_iff] at h ⊢
  exact fun item hmem => h item (List.mem_reverse.mp hmem)

/-- Reading an item gives one within the bounds. -/
def ReadsWithin (fuel : Nat) : Prop :=
  ∀ ⦃depth : Nat⦄ ⦃text rest : Bytes⦄ ⦃item : Item⦄,
    readItem fuel depth text = some (item, rest) → item.IsWithin depth

/-- Reading items behind others within the bounds gives so many more of them. -/
theorem readItems_within {fuel : Nat} (hitem : ∀ less ≤ fuel, ReadsWithin less) {depth count : Nat}
    {done items : List Item} {text rest : Bytes} (hdone : AreWithin depth done)
    (hread : readItems fuel depth count done text = some (items, rest)) :
    AreWithin depth items ∧ items.length = done.length + count := by
  induction count generalizing fuel done text with
  | zero =>
    obtain ⟨rfl, -⟩ : done.reverse = items ∧ text = rest := by simpa using hread
    exact ⟨hdone.reverse, by simp⟩
  | succ count ih =>
    -- The first item and those behind it are read with one unit of fuel less.
    obtain _ | fuel := fuel
    · simp [readItems] at hread
    rw [readItems] at hread
    split at hread
    case h_2 => cases hread
    case h_1 item middle hfirst =>
    have hmore : AreWithin depth (item :: done) := ⟨hitem fuel (by omega) hfirst, hdone⟩
    obtain ⟨hall, hlength⟩ := ih (fun less hless => hitem less (by omega)) hmore hread
    rw [List.length_cons] at hlength
    exact ⟨hall, by omega⟩

/-- Reading items up to a break behind others within the bounds gives at most so many more. -/
theorem readOpen_within {fuel : Nat} (hitem : ∀ less ≤ fuel, ReadsWithin less) {depth count : Nat}
    {done items : List Item} {text rest : Bytes} (hdone : AreWithin depth done)
    (hread : readOpen fuel depth count done text = some (items, rest)) :
    AreWithin depth items ∧ items.length ≤ done.length + count := by
  induction fuel generalizing count done text with
  | zero => simp [readOpen] at hread
  | succ fuel ih =>
    rw [readOpen.eq_def] at hread
    simp only at hread
    split at hread
    · -- The break ends the items, and what was read so far is all of them.
      obtain ⟨rfl, -⟩ : done.reverse = items ∧ text.tail = rest := by simpa using hread
      exact ⟨hdone.reverse, by simp⟩
    · obtain _ | count := count
      · cases hread
      simp only at hread
      split at hread
      case h_2 => cases hread
      case h_1 item middle hfirst =>
      have hmore : AreWithin depth (item :: done) := ⟨hitem fuel (by omega) hfirst, hdone⟩
      obtain ⟨hall, hlength⟩ := ih (fun less hless => hitem less (by omega)) hmore hread
      rw [List.length_cons] at hlength
      exact ⟨hall, by omega⟩

/-- An item that is built of what was read. -/
theorem isWithin_of_map {α : Type} {found : Option (α × Bytes)} {build : α × Bytes → Item × Bytes}
    {depth : Nat} {item : Item} {rest : Bytes} (hread : found.map build = some (item, rest))
    (hbuild : ∀ part rest, found = some (part, rest) → (build (part, rest)).1.IsWithin depth) :
    item.IsWithin depth := by
  obtain ⟨⟨part, middle⟩, hfound, heq⟩ := Option.map_eq_some_iff.mp hread
  have hpart := hbuild part middle hfound
  rwa [heq] at hpart

/-- A simple value is within the bounds. -/
theorem isWithin_of_ofSimple {n wide depth : Nat} {item : Item} (h : ofSimple n wide = some item) :
    item.IsWithin depth := by
  unfold ofSimple at h
  split at h
  · cases h
    trivial
  · split at h
    · cases h
    · cases h
      trivial
  · cases h
    trivial

/-- Whatever can be read is within the bounds. -/
theorem readsWithin (fuel : Nat) : ReadsWithin fuel := by
  -- The parts of an item are read with less fuel than the item.
  induction fuel using Nat.strong_induction_on with
  | _ fuel ih =>
  obtain _ | fuel := fuel
  · intro depth text rest item hread
    simp [readItem] at hread
  have hparts : ∀ less ≤ fuel, ReadsWithin less := fun less hless => ih less (by omega)
  intro depth text rest item hread
  rw [readItem] at hread
  split at hread
  · cases hread
  split at hread
  -- Numbers and strings have no parts.
  case h_1 | h_2 =>
    cases hread
    trivial
  case h_3 | h_4 | h_5 | h_6 => exact isWithin_of_map hread fun _ _ _ => trivial
  -- Arrays and maps have as many as their head says, or end with a break.
  case h_7 =>
    split at hread
    case isFalse => cases hread
    case isTrue hroom =>
    refine isWithin_of_map hread fun items rest hitems => ?_
    obtain ⟨hall, hlength⟩ := readItems_within hparts (areWithin_nil _) hitems
    exact ⟨hroom.1, by simpa [hlength] using hroom.2, hall⟩
  case h_8 =>
    split at hread
    case isFalse => cases hread
    case isTrue hroom =>
    refine isWithin_of_map hread fun items rest hitems => ?_
    obtain ⟨hall, hlength⟩ := readOpen_within hparts (areWithin_nil _) hitems
    exact ⟨hroom, by simpa using hlength, hall⟩
  case h_9 =>
    split at hread
    case isFalse => cases hread
    case isTrue hroom =>
    refine isWithin_of_map hread fun items rest hitems => ?_
    exact ⟨hroom.1, (readItems_within hparts (areWithin_nil _) hitems).1⟩
  case h_10 =>
    split at hread
    case isFalse => cases hread
    case isTrue hroom =>
    split at hread
    case h_2 => cases hread
    case h_1 items middle hitems =>
    split at hread
    case isFalse => cases hread
    case isTrue =>
    cases hread
    exact ⟨hroom, (readOpen_within hparts (areWithin_nil _) hitems).1⟩
  -- A tag inside a tag is read as if it were deeper, which only leaves less room.
  case h_11 =>
    extract_lets deeper at hread
    have hle : depth ≤ deeper := by
      change depth ≤ if _ then _ else _
      split
      · exact Nat.le_succ depth
      · exact le_rfl
    split at hread
    case isFalse => cases hread
    case isTrue =>
    refine isWithin_of_map hread fun content rest hcontent => ?_
    exact IsWithin.of_le hle content (hparts fuel le_rfl hcontent)
  case h_12 =>
    obtain ⟨simple, hsimple, heq⟩ := Option.map_eq_some_iff.mp hread
    obtain ⟨rfl, -⟩ := Prod.mk.inj heq
    exact isWithin_of_ofSimple hsimple
  case h_13 => cases hread

/-- What reading gives stays within the bounds. -/
theorem isWithin_of_ofBytes {text : Bytes} {item : Item} (h : ofBytes text = some item) :
    item.IsWithin 0 := by
  rw [ofBytes] at h
  split at h
  case h_2 => cases h
  case h_1 found hread =>
  obtain rfl : found = item := by simpa using h
  exact readsWithin _ hread

end Cbor.Item

open Cbor

namespace Image

/-! ### Nodes that were read -/

/-- Without its tags, an `item` within the bounds still is. -/
theorem isWithin_untagged {depth : Nat} : (item : Item) → item.IsWithin depth →
    (untagged item).IsWithin depth
  | .tagged tag content, h => by
    rw [untagged]
    split
    · exact h
    · exact isWithin_untagged content h
  | .array _, h | .map _, h => h
  | .unsigned _, _ | .negative _, _ | .bytes _, _ | .text _, _ | .simple _, _ | .float, _ => trivial

/-- The entries of a map are a level deeper than the map; null has none. -/
theorem areWithin_of_record? {depth : Nat} {item : Item} {entries : List Item}
    (hitem : item.IsWithin depth) (h : record? item = some entries) :
    entries = [] ∨ (depth < Item.maxDepth ∧ Item.AreWithin (depth + 1) entries) := by
  have hentries : entries? item = some entries := by
    unfold record? at h
    split at h
    · next found hfound =>
      split at h
      · exact hfound.trans h
      · cases h
    · cases h
  -- A record that is given as null has no entries; the one of a map has those of the map.
  have hwithin := isWithin_untagged item hitem
  unfold entries? at hentries
  split at hentries
  · next found hfound =>
    cases hentries
    rw [hfound] at hwithin
    exact Or.inr hwithin
  · split at hentries
    · cases hentries
      exact Or.inl rfl
    · cases hentries

/-- The elements of an array are a level deeper than the array; null has none. -/
theorem areWithin_of_elements? {depth : Nat} {item : Item} {elements : List Item}
    (hitem : item.IsWithin depth) (h : elements? item = some elements) :
    elements = [] ∨ (depth < Item.maxDepth ∧ elements.length ≤ Item.maxCount ∧
      Item.AreWithin (depth + 1) elements) := by
  have hwithin := isWithin_untagged item hitem
  unfold elements? at h
  split at h
  · next found hfound =>
    cases h
    rw [hfound] at hwithin
    exact Or.inr hwithin
  · split at h
    · cases h
      exact Or.inl rfl
    · cases h

/-- The value of a `field` is one of the entries. -/
theorem mem_of_field? {field : Nat} : {entries : List Item} → {item : Item} →
    field? field entries = some item → item ∈ entries
  | [], _, h | [_], _, h => by cases h
  | key :: value :: rest, item, h => by
    rw [field?] at h
    split at h
    · cases h
      simp
    · have hrest := mem_of_field? h
      simp [hrest]

/-- The list of nodes under a key. -/
theorem exists_elements_of_readField {levels field : Nat} {entries : List Item} {nodes : List Node}
    (h : readField entries field [] (fun item => do (← elements? item).mapM (node? levels)) =
      some nodes) (hne : nodes ≠ []) :
    ∃ item ∈ entries, ∃ elements, elements? item = some elements ∧
      elements.mapM (node? levels) = some nodes := by
  rw [readField] at h
  split at h
  · next item hitem =>
    obtain ⟨elements, helements, hnodes⟩ := Option.bind_eq_some_iff.mp h
    exact ⟨item, mem_of_field? hitem, elements, helements, hnodes⟩
  · cases h
    exact absurd rfl hne

/-- What a node is read from. -/
theorem exists_entries_of_node? {levels : Nat} {item : Item} {op : Op} {amount : Int64}
    {body : List Node} (h : node? (levels + 1) item = some ⟨op, amount, body⟩) :
    ∃ entries, record? item = some entries ∧ readField entries 1 ⟨0⟩ op? = some op ∧
      readField entries 3 [] (fun item => do (← elements? item).mapM (node? levels)) =
        some body := by
  rw [node?] at h
  obtain ⟨entries, hrecord, h⟩ := Option.bind_eq_some_iff.mp h
  obtain ⟨foundOp, hop, h⟩ := Option.bind_eq_some_iff.mp h
  obtain ⟨foundAmount, -, h⟩ := Option.bind_eq_some_iff.mp h
  obtain ⟨foundBody, hbody, h⟩ := Option.bind_eq_some_iff.mp h
  obtain ⟨rfl, rfl, rfl⟩ := Node.mk.inj (Option.some.inj h)
  exact ⟨entries, hrecord, hop, hbody⟩

/-- Nodes fit wherever the items are that they were read from, if each of them does. -/
theorem allFit_items_of_mapM {levels depth : Nat}
    (hnode : ∀ item node, node? levels item = some node → node.fault = none →
      item.IsWithin depth → node.item.Fits depth) :
    {items : List Item} → {nodes : List Node} → items.mapM (node? levels) = some nodes →
      Node.firstFault nodes = none → Item.AreWithin depth items →
        nodes.length = items.length ∧ Item.AllFit depth (Node.items nodes)
  | [], nodes, h, _, _ => by
    rw [List.mapM_nil] at h
    cases h
    exact ⟨rfl, trivial⟩
  | item :: rest, nodes, h, hok, hall => by
    rw [List.mapM_cons] at h
    obtain ⟨node, hread, h⟩ := Option.bind_eq_some_iff.mp h
    obtain ⟨others, hothers, h⟩ := Option.bind_eq_some_iff.mp h
    cases h
    obtain ⟨hnodeOk, hothersOk⟩ := Node.firstFault_cons_eq_none.mp hok
    obtain ⟨hlength, hfit⟩ := allFit_items_of_mapM hnode hothers hothersOk hall.2
    exact ⟨by simp [hlength], hnode item node hread hnodeOk hall.1, hfit⟩

/-- Nodes under a key fit wherever the entries are, if each node fits wherever its item is. -/
theorem allFit_items_of_readField {levels field depth : Nat} {entries : List Item}
    {nodes : List Node}
    (hnode : ∀ {depth item node}, node? levels item = some node → node.fault = none →
      item.IsWithin depth → node.item.Fits depth)
    (h : readField entries field [] (fun item => do (← elements? item).mapM (node? levels)) =
      some nodes) (hne : nodes ≠ []) (hok : Node.firstFault nodes = none)
    (hentries : Item.AreWithin depth entries) :
    depth < Item.maxDepth ∧ nodes.length ≤ Item.maxCount ∧
      Item.AllFit (depth + 1) (Node.items nodes) := by
  obtain ⟨list, hmem, elements, helements, hnodes⟩ := exists_elements_of_readField h hne
  have hlist := Item.areWithin_iff.mp hentries list hmem
  obtain rfl | ⟨hdepth, hcount, hall⟩ := areWithin_of_elements? hlist helements
  · -- There are nodes, so the list was not null.
    cases hnodes
    exact absurd rfl hne
  · obtain ⟨hlength, hfit⟩ := allFit_items_of_mapM (fun _ _ => hnode) hnodes hok hall
    exact ⟨hdepth, hlength ▸ hcount, hfit⟩

/-- A node fits wherever the item is that it was read from: a loop has a body, so there was an array
in its item, and all other nodes take one level. -/
theorem fits_item_of_node? {levels depth : Nat} {item : Item} {node : Node}
    (h : node? levels item = some node) (hok : node.fault = none) (hitem : item.IsWithin depth) :
    node.item.Fits depth := by
  induction levels generalizing depth item node with
  | zero => cases h
  | succ levels ih =>
  obtain ⟨op, amount, body⟩ := node
  obtain ⟨entries, hrecord, hop, hbody⟩ := exists_entries_of_node? h
  obtain rfl | ⟨hdepth, hentries⟩ := areWithin_of_record? hitem hrecord
  · -- A node without entries has no operation.
    cases hop
    cases hbody
    cases hok
  rw [Node.fits_item]
  refine ⟨hdepth, ?_⟩
  obtain ⟨rfl, hne, hinner⟩ | ⟨-, rfl⟩ := Node.body_of_fault_eq_none hok
  · exact Or.inr (allFit_items_of_readField ih hbody hne hinner hentries)
  · exact Or.inl rfl

/-- A program that was read from an image fits into one. -/
theorem fits_item_of_read? {bytes : Bytes} {found : Int64} {program : Program}
    (h : read? bytes = some (found, program)) (hok : program.check = .ok ()) :
    (item program).Fits 0 := by
  rw [Program.check_eq_ok_iff] at hok
  rw [read?] at h
  obtain ⟨whole, hwhole, h⟩ := Option.bind_eq_some_iff.mp h
  obtain ⟨entries, hrecord, h⟩ := Option.bind_eq_some_iff.mp h
  obtain ⟨foundVersion, -, h⟩ := Option.bind_eq_some_iff.mp h
  obtain ⟨foundProgram, hprogram, h⟩ := Option.bind_eq_some_iff.mp h
  cases h
  -- The nodes are within the bounds of the array they were read from, and are written alike.
  have hitem : (programItem program).Fits 1 := by
    rw [programItem]
    split
    · trivial
    · next hempty =>
      have hne : program ≠ [] := by simpa using hempty
      have hentries : Item.AreWithin 1 entries := by
        obtain rfl | ⟨-, hentries⟩ :=
          areWithin_of_record? (Item.isWithin_of_ofBytes hwhole) hrecord
        · trivial
        · exact hentries
      obtain ⟨hdepth, hcount, hfit⟩ :=
        allFit_items_of_readField fits_item_of_node? hprogram hne hok hentries
      exact ⟨hdepth, by rwa [Node.length_items], hfit⟩
  exact ⟨by decide, by simp [Item.maxCount], trivial, trivial, trivial, hitem, trivial⟩

/-! ### Renewed images -/

/-- An image of the version written here is restored, if its `program` is accepted. -/
theorem decode_of_read? {bytes : Bytes} {program : Program} (h : read? bytes = some (1, program))
    (hok : program.check = .ok ()) : decode bytes = .ok program := by
  rw [decode, h]
  simp only [hok]
  rfl

/-- A program that was restored is restored again, whether an empty one is stored as null or as an
array. -/
theorem decode_encodeAs {bytes : Bytes} {program : Program} (h : decode bytes = .ok program)
    (listed : Bool) : decode (encodeAs listed program) = .ok program := by
  have hok := Image.check_of_decode h
  obtain ⟨found, hread⟩ : ∃ found, read? bytes = some (found, program) := by
    unfold decode at h
    split at h
    · cases h
    · next found restored hread =>
      split at h
      · split at h
        · cases h
        · cases h
          exact ⟨found, hread⟩
      · cases h
  rw [encodeAs]
  split
  · -- An empty program that is stored as an array is not what `encode` gives.
    next hempty =>
    obtain rfl : program = [] := by simp_all
    decide +kernel
  · have hsize := (fits_item_iff hok).mp (fits_item_of_read? hread hok)
    apply decode_of_read? _ hok
    rw [read?_encode hok]
    exact if_pos hsize

/-- The image of what is restored from an image. -/
def renew (bytes : Bytes) : Except ImageFault Bytes :=
  (decode bytes).map (encodeAs (isListed bytes))

/-- An image tells of an empty program whether it was an array. -/
theorem encodeAs_isListed (listed : Bool) (program : Program) :
    encodeAs (isListed (encodeAs listed program)) program = encodeAs listed program := by
  cases program with
  | nil => cases listed <;> decide +kernel
  | cons node rest =>
    have hencode : ∀ listed, encodeAs listed (node :: rest) = encode (node :: rest) := by
      intro listed
      rw [encodeAs, List.isEmpty_cons, Bool.and_false, if_neg Bool.false_ne_true]
    rw [hencode, hencode]

/-- A `program` that `decode` restores from any `bytes` can be stored and restored again, and an
image that `renew` gives is renewed to itself. -/
theorem renew_of_decode {bytes : Bytes} {program : Program}
    (h : decode bytes = .ok program) :
    decode (encode program) = .ok program ∧
      ∃ renewed, renew bytes = .ok renewed ∧ decode renewed = .ok program ∧
        renew renewed = .ok renewed := by
  refine ⟨decode_encodeAs h false, encodeAs (isListed bytes) program, ?_, ?_, ?_⟩
  · rw [renew, h, Except.map]
  · exact decode_encodeAs h _
  · rw [renew, decode_encodeAs h, Except.map, encodeAs_isListed]

/-- An image with open lengths, keys out of order, a tag around the version and a second program
that does not count is renewed to a shorter one, and that to itself. -/
theorem renew_openLengths :
    let bytes : Bytes := [0xbf, 0x02, 0x81, 0xa3, 0x03, 0x9f, 0xa1, 0x01, 0x06, 0xff, 0x02, 0x20,
      0x01, 0x01, 0x01, 0xd9, 0xd9, 0xf7, 0x01, 0x61, 0x32, 0xf6, 0xff]
    let program : Program := [⟨.loop, -1, [⟨.clear, 0, []⟩]⟩]
    decode bytes = .ok program ∧ renew bytes = .ok [0xa2, 0x01, 0x01, 0x02, 0x81, 0xa3, 0x01, 0x01,
        0x02, 0x20, 0x03, 0x81, 0xa1, 0x01, 0x06] ∧
      decode (encode program) = .ok program ∧
      ∃ renewed, renew bytes = .ok renewed ∧ decode renewed = .ok program ∧
        renew renewed = .ok renewed := by
  intro bytes program
  have hdecode : decode bytes = .ok program := by decide +kernel
  exact ⟨hdecode, by decide +kernel, renew_of_decode hdecode⟩

end Image

end TapeMachine
