import Mathlib.Data.Nat.ModEq
import TapeMachine.Cbor.Item

/-!
# Writing and reading CBOR items

Integers, null, arrays and maps have a written form: a head that takes as few bytes as possible, and
behind it the parts. Reading gives the item back if it is not nested too deep and nothing in it is
too long, and fails otherwise.

That reading never gives another item is not obvious, since a head holds lengths of 64 bits only. A
longer array is read as one that has fewer elements, but then the elements left over follow it, and
something is left of the text in the end.

The module introduces:

* `Cbor.Head.read_write`: a head is read back, with its number modulo 2^64;
* `Cbor.Item.write`, `Cbor.Item.IsWritable`: the written form of an item, and the items that have
  one;
* `Cbor.Item.Fits`: an item is nested little enough and nothing in it is too long;
* `Cbor.Item.ItemLeaves`: reading an item leaves whole items, and none only if the item fits;
* `Cbor.Item.ofBytes_write_of_fits`, `Cbor.Item.fits_of_ofBytes_write`: what reading a written item
  gives.
-/

namespace TapeMachine.Cbor

/-! ### Heads -/

/-- A number is written in as many bytes as it is given. -/
theorem length_toBigEndian (width n : Nat) : (toBigEndian width n).length = width := by
  induction width generalizing n with
  | zero => rfl
  | succ width ih => simp [toBigEndian, ih]

/-- The last byte of a number counts once, and those before it 256 times. -/
theorem bigEndian_append (bytes : Bytes) (b : UInt8) :
    bigEndian (bytes ++ [b]) = bigEndian bytes * 256 + b.toNat := by
  simp [bigEndian]

/-- So many bytes hold a number modulo a power of 256. -/
theorem bigEndian_toBigEndian (width n : Nat) :
    bigEndian (toBigEndian width n) = n % 256 ^ width := by
  induction width generalizing n with
  | zero => simp [toBigEndian, bigEndian, Nat.mod_one]
  | succ width ih =>
    rw [toBigEndian, bigEndian_append, ih, Nat.pow_succ', Nat.mod_mul, Nat.toUInt8_eq,
      UInt8.toNat_ofNat']
    omega

/-- As many bytes as there are in front can be taken. -/
theorem takeExact_append (taken rest : Bytes) :
    takeExact taken.length (taken ++ rest) = some (taken, rest) := by
  simp [takeExact]

/-- A number that is written in `width` bytes is read modulo what these can hold. -/
theorem wideArgument_toBigEndian (major width n : Nat) (rest : Bytes) :
    wideArgument major width (toBigEndian width n ++ rest) =
      some (⟨major, .number (n % 256 ^ width) width⟩, rest) := by
  have htake := takeExact_append (toBigEndian width n) rest
  rw [length_toBigEndian] at htake
  simp only [wideArgument, htake, Option.map_some, bigEndian_toBigEndian]

section Initial

variable {major info : Nat}

/-- The first byte of a head holds the major type in its upper three bits. -/
theorem toNat_initial (hmajor : major < 8) (hinfo : info < 32) :
    (initial major info).toNat = major * 32 + info := by
  rw [initial, Nat.toUInt8_eq, UInt8.toNat_ofNat']
  omega

/-- The major type is read from the first byte. -/
theorem initial_div (hmajor : major < 8) (hinfo : info < 32) :
    (initial major info).toNat / 32 = major := by
  rw [toNat_initial hmajor hinfo]
  omega

/-- The additional information is read from the first byte. -/
theorem initial_mod (hmajor : major < 8) (hinfo : info < 32) :
    (initial major info).toNat % 32 = info := by
  rw [toNat_initial hmajor hinfo]
  omega

end Initial

/-- The forms of a head whose number stands in bytes of its own. -/
theorem Head.read_initial {major info width : Nat} (hmajor : major < 8)
    (hform : (info, width) ∈ [(24, 1), (25, 2), (26, 4), (27, 8)]) (rest : Bytes) :
    Head.read (initial major info :: rest) = wideArgument major width rest := by
  simp only [List.mem_cons, Prod.mk.injEq, List.not_mem_nil, or_false] at hform
  rcases hform with ⟨rfl, rfl⟩ | ⟨rfl, rfl⟩ | ⟨rfl, rfl⟩ | ⟨rfl, rfl⟩
  all_goals
    rw [Head.read, initial_div hmajor (by decide), initial_mod hmajor (by decide)]
    rfl

/-- A head is read back, with its number modulo 2^64. -/
theorem Head.read_write {major : Nat} (hmajor : major < 8) (n : Nat) (rest : Bytes) :
    ∃ wide, Head.read (Head.write major n ++ rest) =
      some (⟨major, .number (n % Word.count) wide⟩, rest) ∧ (n < 24 → wide = 0) := by
  have hcount : Word.count = 0x10000000000000000 := rfl
  -- Each form holds the numbers it is chosen for, so only the longest one loses something.
  have hwide : ∀ info width, (info, width) ∈ [(24, 1), (25, 2), (26, 4), (27, 8)] →
      n % 256 ^ width = n % Word.count → ¬ n < 24 →
        ∃ wide, Head.read (initial major info :: toBigEndian width n ++ rest) =
          some (⟨major, .number (n % Word.count) wide⟩, rest) ∧ (n < 24 → wide = 0) := by
    intro info width hform hmod hlarge
    refine ⟨width, ?_, fun h => absurd h hlarge⟩
    rw [List.cons_append, Head.read_initial hmajor hform, wideArgument_toBigEndian, hmod]
  rw [Head.write]
  split
  · next hsmall =>
    refine ⟨0, ?_, fun _ => rfl⟩
    have hlt : n < 32 := by omega
    rw [List.singleton_append, Head.read, initial_div hmajor hlt, initial_mod hmajor hlt,
      Nat.mod_eq_of_lt (show n < Word.count by omega)]
    exact if_pos hsmall
  · next hlarge =>
    split
    · exact hwide 24 1 (by decide) (by rw [hcount]; omega) hlarge
    · split
      · exact hwide 25 2 (by decide) (by rw [hcount]; omega) hlarge
      · split
        · exact hwide 26 4 (by decide) (by rw [hcount]; omega) hlarge
        · exact hwide 27 8 (by decide) (by rw [hcount]; omega) hlarge

/-- A head has a first byte. -/
theorem Head.write_ne_nil (major n : Nat) : Head.write major n ≠ [] := by
  rw [Head.write]
  split_ifs <;> simp

/-- A head has a length that is not zero. -/
theorem Head.length_write_pos (major n : Nat) : 0 < (Head.write major n).length :=
  List.length_pos_iff.2 (Head.write_ne_nil major n)

/-! ### Written items -/

namespace Item

mutual

/-- The written form of an item; strings, tags and floating point numbers are not written. -/
def write : Item → Bytes
  | .unsigned n => Head.write 0 n
  | .negative n => Head.write 1 n
  | .array elements => Head.write 4 elements.length ++ writeAll elements
  | .map entries => Head.write 5 (entries.length / 2) ++ writeAll entries
  | .simple code => Head.write 7 code
  | _ => []

/-- The written form of items one after another. -/
def writeAll : List Item → Bytes
  | [] => []
  | item :: rest => item.write ++ writeAll rest

end

mutual

/-- Whether an item has a written form. -/
def IsWritable : Item → Prop
  | .unsigned n => n < Word.count
  | .negative n => n < Word.count
  | .array elements => AreWritable elements
  | .map entries => entries.length % 2 = 0 ∧ AreWritable entries
  | .simple code => code < 24
  | _ => False

/-- Whether items have a written form. -/
def AreWritable : List Item → Prop
  | [] => True
  | item :: rest => item.IsWritable ∧ AreWritable rest

end

mutual

/-- Whether an item inside so many arrays and maps can be read: no more than 32 of them are inside
one another, and none has more than 131072 elements or pairs. -/
def Fits (depth : Nat) : Item → Prop
  | .array elements =>
    depth < maxDepth ∧ elements.length ≤ maxCount ∧ AllFit (depth + 1) elements
  | .map entries => depth < maxDepth ∧ entries.length / 2 ≤ maxCount ∧ AllFit (depth + 1) entries
  | _ => True

/-- Whether items inside so many arrays and maps can be read. -/
def AllFit (depth : Nat) : List Item → Prop
  | [] => True
  | item :: rest => item.Fits depth ∧ AllFit depth rest

end

/-- No items are written as nothing. -/
@[simp] theorem writeAll_nil : writeAll [] = [] := rfl

/-- Items are written one after another. -/
@[simp] theorem writeAll_cons (item : Item) (rest : List Item) :
    writeAll (item :: rest) = item.write ++ writeAll rest := rfl

/-- Items in a row are written in a row. -/
@[simp] theorem writeAll_append (first second : List Item) :
    writeAll (first ++ second) = writeAll first ++ writeAll second := by
  induction first with
  | nil => rfl
  | cons item rest ih => simp [ih]

/-- Items in a row are writable if all of them are. -/
@[simp] theorem areWritable_append {first second : List Item} :
    AreWritable (first ++ second) ↔ AreWritable first ∧ AreWritable second := by
  induction first with
  | nil => simp [AreWritable]
  | cons item rest ih => simp [AreWritable, ih, and_assoc]

/-- An item is written as something. -/
theorem write_ne_nil {item : Item} (h : item.IsWritable) : item.write ≠ [] := by
  cases item with
  | unsigned n => exact Head.write_ne_nil 0 n
  | negative n => exact Head.write_ne_nil 1 n
  | simple code => exact Head.write_ne_nil 7 code
  | array elements => simp [write, Head.write_ne_nil]
  | map entries => simp [write, Head.write_ne_nil]
  | bytes | text | tagged | float => exact h.elim

/-- An item is written as one byte at least. -/
theorem length_write_pos {item : Item} (h : item.IsWritable) : 0 < item.write.length :=
  List.length_pos_iff.2 (write_ne_nil h)

/-! ### Reading by the form of the head -/

section Reading

variable (fuel depth n : Nat) (tail : Bytes)

/-- A head of major type 0 is a number. -/
theorem readItem_unsigned :
    readItem (fuel + 1) depth (Head.write 0 n ++ tail) =
      some (.unsigned (n % Word.count), tail) := by
  obtain ⟨wide, hread, -⟩ := Head.read_write (show 0 < 8 by decide) n tail
  rw [readItem, hread]
  rfl

/-- A head of major type 1 is a number below zero. -/
theorem readItem_negative :
    readItem (fuel + 1) depth (Head.write 1 n ++ tail) =
      some (.negative (n % Word.count), tail) := by
  obtain ⟨wide, hread, -⟩ := Head.read_write (show 1 < 8 by decide) n tail
  rw [readItem, hread]
  rfl

/-- A head of major type 7 is a simple value, if it is small. -/
theorem readItem_simple {n : Nat} (hn : n < 24) :
    readItem (fuel + 1) depth (Head.write 7 n ++ tail) = some (.simple n, tail) := by
  obtain ⟨wide, hread, hwide⟩ := Head.read_write (show 7 < 8 by decide) n tail
  have hcount : Word.count = 0x10000000000000000 := rfl
  rw [readItem, hread, hwide hn, Nat.mod_eq_of_lt (by omega)]
  rfl

/-- A head of major type 4 is followed by the items of an array, unless there are too many or too
many are around it. -/
theorem readItem_array :
    readItem (fuel + 1) depth (Head.write 4 n ++ tail) =
      if depth < maxDepth ∧ n % Word.count ≤ maxCount then
        (readItems fuel (depth + 1) (n % Word.count) [] tail).map fun (items, rest) =>
          (.array items, rest)
      else none := by
  obtain ⟨wide, hread, -⟩ := Head.read_write (show 4 < 8 by decide) n tail
  rw [readItem, hread]
  rfl

/-- A head of major type 5 is followed by twice as many items, the keys and values of a map. -/
theorem readItem_map :
    readItem (fuel + 1) depth (Head.write 5 n ++ tail) =
      if depth < maxDepth ∧ n % Word.count ≤ maxCount then
        (readItems fuel (depth + 1) (2 * (n % Word.count)) [] tail).map fun (items, rest) =>
          (.map items, rest)
      else none := by
  obtain ⟨wide, hread, -⟩ := Head.read_write (show 5 < 8 by decide) n tail
  rw [readItem, hread]
  rfl

end Reading

/-! ### Reading gives no other item -/

/-- Reading an item takes it off the text and leaves whole items; if it leaves none, the item fits
and is the one that was read. -/
def ItemLeaves (fuel : Nat) : Prop :=
  ∀ ⦃depth : Nat⦄ ⦃item found : Item⦄ ⦃tail rest : Bytes⦄, item.IsWritable →
    readItem fuel depth (item.write ++ tail) = some (found, rest) →
      ∃ left, AreWritable left ∧ rest = writeAll left ++ tail ∧
        (left = [] → item.Fits depth ∧ found = item)

/-- Reading `count` items takes at most so many off the text and leaves whole items; if it leaves
none, all items fit and are the ones that were read. -/
def ItemsLeave (fuel : Nat) : Prop :=
  ∀ ⦃depth count : Nat⦄ ⦃items done found : List Item⦄ ⦃tail rest : Bytes⦄, AreWritable items →
    count ≤ items.length →
    readItems fuel depth count done (writeAll items ++ tail) = some (found, rest) →
      ∃ left, AreWritable left ∧ rest = writeAll left ++ tail ∧ items.length ≤ left.length + count ∧
        (left = [] → AllFit depth items ∧ found = done.reverse ++ items)

/-- No items are read from nothing. -/
@[simp] theorem readItems_zero (fuel depth : Nat) (done : List Item) (text : Bytes) :
    readItems fuel depth 0 done text = some (done.reverse, text) := by
  cases fuel <;> rw [readItems]

/-- Reading no items leaves all of them. -/
theorem leaves_of_readItems_zero {fuel depth : Nat} {items done found : List Item}
    {tail rest : Bytes} (hitems : AreWritable items)
    (hread : readItems fuel depth 0 done (writeAll items ++ tail) = some (found, rest)) :
    ∃ left, AreWritable left ∧ rest = writeAll left ++ tail ∧ items.length ≤ left.length + 0 ∧
      (left = [] → AllFit depth items ∧ found = done.reverse ++ items) := by
  obtain ⟨rfl, rfl⟩ : done.reverse = found ∧ writeAll items ++ tail = rest := by simpa using hread
  refine ⟨items, hitems, rfl, le_rfl, ?_⟩
  rintro rfl
  simp [AllFit]

/-- What is left behind one item is read on as if it had been there from the start. -/
theorem ItemLeaves.items {fuel : Nat} (hitem : ItemLeaves fuel) (hall : ItemsLeave fuel) :
    ItemsLeave (fuel + 1) := by
  intro depth count items done found tail rest hitems hcount hread
  cases count with
  | zero => exact leaves_of_readItems_zero hitems hread
  | succ count =>
    obtain _ | ⟨item, more⟩ := items
    · simp at hcount
    rw [writeAll_cons, List.append_assoc, readItems] at hread
    split at hread
    case h_2 => simp at hread
    case h_1 first middle hfirst =>
    obtain ⟨skipped, hskipped, rfl, hwhole⟩ := hitem hitems.1 hfirst
    rw [← List.append_assoc, ← writeAll_append] at hread
    have hlength : count ≤ (skipped ++ more).length := by
      simp only [List.length_append, List.length_cons] at hcount ⊢
      omega
    obtain ⟨left, hleft, hrest, hbound, hend⟩ :=
      hall (areWritable_append.2 ⟨hskipped, hitems.2⟩) hlength hread
    simp only [List.length_append, List.length_cons] at hcount hbound ⊢
    refine ⟨left, hleft, hrest, by omega, ?_⟩
    rintro rfl
    -- Nothing is left at last, so the first item has left nothing either.
    have hskip : skipped = [] := by
      rw [← List.length_eq_zero_iff]
      simp only [List.length_nil] at hbound
      omega
    subst hskip
    obtain ⟨hfits, rfl⟩ := hwhole rfl
    obtain ⟨hmore, rfl⟩ := hend rfl
    exact ⟨⟨hfits, hmore⟩, by simp⟩

/-- The parts of an array or a map of which not more than all are read. -/
theorem ItemsLeave.parts {fuel depth n count : Nat} {items : List Item} {tail rest : Bytes}
    {found : Item} {build : List Item → Item} (hall : ItemsLeave fuel) (hitems : AreWritable items)
    (hcount : count ≤ items.length)
    (hread : (if depth < maxDepth ∧ n ≤ maxCount then
        (readItems fuel (depth + 1) count [] (writeAll items ++ tail)).map fun (items, rest) =>
          (build items, rest)
      else none) = some (found, rest)) :
    ∃ left, AreWritable left ∧ rest = writeAll left ++ tail ∧
      (left = [] → (depth < maxDepth ∧ n ≤ maxCount ∧ items.length ≤ count ∧
        AllFit (depth + 1) items) ∧ found = build items) := by
  split at hread
  case isFalse => simp at hread
  case isTrue hwithin =>
  obtain ⟨⟨parts, middle⟩, hparts, hbuild⟩ := Option.map_eq_some_iff.1 hread
  obtain ⟨rfl, rfl⟩ : build parts = found ∧ middle = rest := by simpa using hbuild
  obtain ⟨left, hleft, hrest, hbound, hend⟩ := hall hitems hcount hparts
  -- Where no item is left over, exactly the items written have been read.
  refine ⟨left, hleft, hrest, ?_⟩
  rintro rfl
  obtain ⟨hfit, rfl⟩ := hend rfl
  exact ⟨⟨hwithin.1, hwithin.2, by simpa using hbound, hfit⟩, by simp⟩

/-- What reading items leaves, reading one item leaves with more fuel. -/
theorem ItemsLeave.item {fuel : Nat} (hall : ItemsLeave fuel) : ItemLeaves (fuel + 1) := by
  intro depth item found tail rest hitem hread
  cases item with
  | unsigned n =>
    rw [write, readItem_unsigned, Nat.mod_eq_of_lt hitem] at hread
    obtain ⟨rfl, rfl⟩ : .unsigned n = found ∧ tail = rest := by simpa using hread
    exact ⟨[], trivial, rfl, fun _ => ⟨trivial, rfl⟩⟩
  | negative n =>
    rw [write, readItem_negative, Nat.mod_eq_of_lt hitem] at hread
    obtain ⟨rfl, rfl⟩ : .negative n = found ∧ tail = rest := by simpa using hread
    exact ⟨[], trivial, rfl, fun _ => ⟨trivial, rfl⟩⟩
  | simple code =>
    rw [write, readItem_simple _ _ _ hitem] at hread
    obtain ⟨rfl, rfl⟩ : .simple code = found ∧ tail = rest := by simpa using hread
    exact ⟨[], trivial, rfl, fun _ => ⟨trivial, rfl⟩⟩
  | array elements =>
    -- The count is written modulo 2^64. If that makes it too small, elements are left.
    rw [write, List.append_assoc, readItem_array] at hread
    obtain ⟨left, hleft, hrest, hend⟩ := hall.parts hitem (Nat.mod_le _ _) hread
    refine ⟨left, hleft, hrest, fun h => ?_⟩
    obtain ⟨⟨hdepth, hbound, hlength, hfit⟩, rfl⟩ := hend h
    exact ⟨⟨hdepth, hlength.trans hbound, hfit⟩, rfl⟩
  | map entries =>
    rw [write, List.append_assoc, readItem_map] at hread
    have hle : entries.length / 2 % Word.count ≤ entries.length / 2 := Nat.mod_le _ _
    obtain ⟨left, hleft, hrest, hend⟩ := hall.parts hitem.2 (by omega) hread
    refine ⟨left, hleft, hrest, fun h => ?_⟩
    obtain ⟨⟨hdepth, hbound, hlength, hfit⟩, rfl⟩ := hend h
    exact ⟨⟨hdepth, by omega, hfit⟩, rfl⟩
  | bytes | text | tagged | float => exact hitem.elim

/-- Reading leaves what it should for any `fuel`, by induction on the `fuel`. -/
theorem itemLeaves_and_itemsLeave (fuel : Nat) : ItemLeaves fuel ∧ ItemsLeave fuel := by
  induction fuel with
  | zero =>
    constructor
    · intro depth item found tail rest hitem hread
      simp [readItem] at hread
    · intro depth count items done found tail rest hitems hcount hread
      cases count with
      | zero => exact leaves_of_readItems_zero hitems hread
      | succ count => simp [readItems] at hread
  | succ fuel ih => exact ⟨ih.2.item, ih.1.items ih.2⟩

/-! ### Reading gives the item -/

mutual

/-- Reading an item that fits with enough fuel gives it. -/
theorem readItem_of_fits {depth : Nat} {item : Item} (hitem : item.IsWritable)
    (hfits : item.Fits depth) {fuel : Nat} (hfuel : 2 * item.write.length ≤ fuel) (tail : Bytes) :
    readItem fuel depth (item.write ++ tail) = some (item, tail) := by
  -- Two units of fuel for every byte: an item takes one, and so does going on to the next.
  have hpos := length_write_pos hitem
  obtain _ | fuel := fuel
  · omega
  cases item with
  | unsigned n => rw [write, readItem_unsigned, Nat.mod_eq_of_lt hitem]
  | negative n => rw [write, readItem_negative, Nat.mod_eq_of_lt hitem]
  | simple code => rw [write, readItem_simple _ _ _ hitem]
  | array elements =>
    have hcount : elements.length % Word.count = elements.length :=
      Nat.mod_eq_of_lt (hfits.2.1.trans_lt (by decide))
    rw [write, List.length_append] at hfuel
    have hhead := Head.length_write_pos 4 elements.length
    rw [write, List.append_assoc, readItem_array, hcount, if_pos ⟨hfits.1, hfits.2.1⟩,
      readItems_of_fits hitem hfits.2.2 (by omega)]
    rfl
  | map entries =>
    have hcount : entries.length / 2 % Word.count = entries.length / 2 :=
      Nat.mod_eq_of_lt (hfits.2.1.trans_lt (by decide))
    have heven : 2 * (entries.length / 2) = entries.length := Nat.mul_div_cancel' <|
      Nat.dvd_of_mod_eq_zero hitem.1
    rw [write, List.length_append] at hfuel
    have hhead := Head.length_write_pos 5 (entries.length / 2)
    rw [write, List.append_assoc, readItem_map, hcount, if_pos ⟨hfits.1, hfits.2.1⟩, heven,
      readItems_of_fits hitem.2 hfits.2.2 (by omega)]
    rfl
  | bytes | text | tagged | float => exact hitem.elim

/-- Reading items that fit with enough fuel gives them. -/
theorem readItems_of_fits {depth : Nat} {items : List Item} (hitems : AreWritable items)
    (hfit : AllFit depth items) {fuel : Nat} (hfuel : 2 * (writeAll items).length + 1 ≤ fuel)
    (done : List Item) (tail : Bytes) :
    readItems fuel depth items.length done (writeAll items ++ tail) =
      some (done.reverse ++ items, tail) := by
  cases items with
  | nil => simp
  | cons item rest =>
    obtain _ | fuel := fuel
    · omega
    have hpos := length_write_pos hitems.1
    rw [writeAll_cons, List.length_append] at hfuel
    rw [writeAll_cons, List.append_assoc, List.length_cons, readItems,
      readItem_of_fits hitems.1 hfit.1 (by omega)]
    simp only
    rw [readItems_of_fits hitems.2 hfit.2 (by omega)]
    simp

end

/-- An item that fits is read back from what it is written as, with nothing left. -/
theorem ofBytes_write_of_fits {item : Item} (hitem : item.IsWritable) (hfits : item.Fits 0) :
    ofBytes item.write = some item := by
  have hread := readItem_of_fits hitem hfits (Nat.le_add_right _ 2) []
  rw [List.append_nil] at hread
  rw [ofBytes, hread]

/-- Reading a written item gives no other, and only if it fits. -/
theorem fits_of_ofBytes_write {item found : Item} (hitem : item.IsWritable)
    (hread : ofBytes item.write = some found) : item.Fits 0 ∧ found = item := by
  rw [ofBytes] at hread
  split at hread
  case h_2 => simp at hread
  case h_1 read hsome =>
  obtain rfl : read = found := by simpa using hread
  rw [← List.append_nil item.write] at hsome
  obtain ⟨left, hleft, hrest, hwhole⟩ := (itemLeaves_and_itemsLeave _).1 hitem hsome
  rw [List.append_nil] at hrest
  apply hwhole
  -- Whatever is left has a written form, and nothing is left of the text.
  cases left with
  | nil => rfl
  | cons item rest => simp [write_ne_nil hleft.1] at hrest

end Item

end TapeMachine.Cbor
