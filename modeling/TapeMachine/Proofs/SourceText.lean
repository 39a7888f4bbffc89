import TapeMachine.Program.Parser

/-!
# Source trees and their texts

Matching the brackets of a text and writing source trees down again undo each other.

The module introduces:

* `Source.texts`: the text of source trees;
* `Source.ArePlain`: the leaves of source trees are no brackets;
* `Source.ofText_eq_ok_iff`: matching the brackets of a text gives the plain source trees with that
  text;
* `Bytes.IsBalanced`: every bracket of a text has its partner;
* `Source.exists_ofText_iff`: the brackets of a text can be matched exactly if it is balanced.
-/

namespace TapeMachine

/-- The character of a byte is written as this byte. -/
theorem byte_char (b : UInt8) : byte (Bytes.char b) = b := by
  change b.toUInt32.toUInt8 = b
  simp

namespace Source

mutual

/-- The text of a source tree. -/
def text : Source → Bytes
  | .symbol b => [b]
  | .loop body => byte '[' :: (texts body ++ [byte ']'])

/-- The text of source trees one after another. -/
def texts : List Source → Bytes
  | [] => []
  | tree :: rest => tree.text ++ texts rest

end

/-- No source trees have no text. -/
@[simp] theorem texts_nil : texts [] = [] := rfl

/-- Source trees are written one after another. -/
@[simp] theorem texts_cons (tree : Source) (rest : List Source) :
    texts (tree :: rest) = tree.text ++ texts rest := rfl

/-- A symbol is written as its byte. -/
@[simp] theorem text_symbol (b : UInt8) : text (.symbol b) = [b] := rfl

/-- A loop is written in brackets. -/
@[simp] theorem text_loop (body : List Source) :
    text (.loop body) = byte '[' :: (texts body ++ [byte ']']) := rfl

/-- Source trees in a row are written in a row. -/
@[simp] theorem texts_append (first second : List Source) :
    texts (first ++ second) = texts first ++ texts second := by
  induction first with
  | nil => rfl
  | cons tree rest ih => simp [ih]

mutual

/-- Whether the leaves of a source tree are no brackets. -/
def IsPlain : Source → Prop
  | .symbol b => Bytes.char b ≠ '[' ∧ Bytes.char b ≠ ']'
  | .loop body => ArePlain body

/-- Whether the leaves of source trees are no brackets. -/
def ArePlain : List Source → Prop
  | [] => True
  | tree :: rest => tree.IsPlain ∧ ArePlain rest

end

/-- No source trees are plain. -/
@[simp] theorem arePlain_nil : ArePlain [] := trivial

/-- Source trees are plain if each of them is. -/
@[simp] theorem arePlain_cons {tree : Source} {rest : List Source} :
    ArePlain (tree :: rest) ↔ tree.IsPlain ∧ ArePlain rest := Iff.rfl

/-- A symbol is plain if it is no bracket. -/
@[simp] theorem isPlain_symbol {b : UInt8} :
    IsPlain (.symbol b) ↔ Bytes.char b ≠ '[' ∧ Bytes.char b ≠ ']' := Iff.rfl

/-- A loop is plain if its `body` is. -/
@[simp] theorem isPlain_loop {body : List Source} : IsPlain (.loop body) ↔ ArePlain body := Iff.rfl

/-- Source trees in a row are plain if both parts are. -/
@[simp] theorem arePlain_append {first second : List Source} :
    ArePlain (first ++ second) ↔ ArePlain first ∧ ArePlain second := by
  induction first with
  | nil => simp
  | cons tree rest ih => simp [ih, and_assoc]

/-- The order of source trees does not matter to whether they are plain. -/
@[simp] theorem arePlain_reverse {trees : List Source} :
    ArePlain trees.reverse ↔ ArePlain trees := by
  induction trees with
  | nil => simp
  | cons tree rest ih => simp [ih, and_comm]

/-! ### One step of matching -/

section Step

variable (offset : Nat) (done : List Source) (pending : List Pending) (rest : Bytes)

/-- An opening bracket puts what was read so far aside. -/
theorem matchFrom_open : matchFrom offset done pending (byte '[' :: rest) =
    matchFrom (offset + 1) [] (⟨offset, done⟩ :: pending) rest := by
  simp [matchFrom, show Bytes.char (byte '[') = '[' from by decide]

/-- A closing bracket makes a loop of what was read since the `inner` bracket. -/
theorem matchFrom_close (inner : Pending) :
    matchFrom offset done (inner :: pending) (byte ']' :: rest) =
      matchFrom (offset + 1) (.loop done.reverse :: inner.before) pending rest := by
  simp [matchFrom, show Bytes.char (byte ']') = ']' from by decide]

/-- Any other byte is a symbol. -/
theorem matchFrom_symbol {b : UInt8} (hplain : IsPlain (.symbol b)) :
    matchFrom offset done pending (b :: rest) =
      matchFrom (offset + 1) (.symbol b :: done) pending rest := by
  obtain ⟨hopen, hclose⟩ := hplain
  simp [matchFrom]

end Step

/-- A byte is a bracket or a plain symbol. -/
theorem bracket_or_plain (b : UInt8) : b = byte '[' ∨ b = byte ']' ∨ IsPlain (.symbol b) := by
  by_cases hopen : Bytes.char b = '['
  · exact Or.inl (byte_char b ▸ congrArg byte hopen)
  by_cases hclose : Bytes.char b = ']'
  · exact Or.inr (Or.inl (byte_char b ▸ congrArg byte hclose))
  · exact Or.inr (Or.inr ⟨hopen, hclose⟩)

/-- A plain symbol is no bracket. -/
theorem ne_bracket_of_isPlain {b : UInt8} (h : IsPlain (.symbol b)) :
    b ≠ byte '[' ∧ b ≠ byte ']' := by
  constructor
  · rintro rfl
    exact h.1 (by decide)
  · rintro rfl
    exact h.2 (by decide)

/-! ### Writing and matching -/

/-- Matching goes over the text of plain source trees and keeps the trees. -/
theorem matchFrom_texts : (trees : List Source) → ArePlain trees → (offset : Nat) →
    (done : List Source) → (pending : List Pending) → (rest : Bytes) →
      matchFrom offset done pending (texts trees ++ rest) =
        matchFrom (offset + (texts trees).length) (trees.reverse ++ done) pending rest
  | [], _, offset, done, pending, rest => rfl
  | .symbol b :: trees, hplain, offset, done, pending, rest => by
    rw [texts_cons, text_symbol, List.singleton_append, List.cons_append,
      matchFrom_symbol _ _ _ _ hplain.1, matchFrom_texts trees hplain.2]
    simp [Nat.add_assoc, Nat.add_comm 1]
  | .loop body :: trees, hplain, offset, done, pending, rest => by
    have hbody : ArePlain body := hplain.1
    simp only [texts_cons, text_loop, List.cons_append, List.append_assoc, List.nil_append]
    rw [matchFrom_open, matchFrom_texts body hbody, matchFrom_close, matchFrom_texts trees hplain.2]
    simp only [List.reverse_reverse, List.reverse_cons, List.append_nil, List.append_assoc,
      List.singleton_append, List.length_cons, List.length_append]
    congr 1
    omega

/-- The text in front of the innermost of some open loops, its bracket included. -/
private def openText : List Pending → Bytes
  | [] => []
  | inner :: outer => openText outer ++ texts inner.before.reverse ++ [byte '[']

/-- What matching yields is plain and has the text that was read. -/
private theorem texts_of_matchFrom {trees : List Source} (rest : Bytes) :
    ∀ {offset : Nat} {done : List Source} {pending : List Pending}, ArePlain done →
      (∀ inner ∈ pending, ArePlain inner.before) →
        matchFrom offset done pending rest = .ok trees →
          ArePlain trees ∧ texts trees = openText pending ++ texts done.reverse ++ rest := by
  -- Induction on the text ahead; what has been read is the open brackets and the trees in hand.
  induction rest with
  | nil =>
    intro offset done pending hdone hpending h
    cases pending with
    | nil =>
      cases h
      exact ⟨arePlain_reverse.mpr hdone, by simp [openText]⟩
    | cons inner outer => cases h
  | cons b rest ih =>
    intro offset done pending hdone hpending h
    obtain rfl | rfl | hplain := bracket_or_plain b
    · rw [matchFrom_open] at h
      obtain ⟨hplain, htext⟩ := ih arePlain_nil (by simpa using ⟨hdone, hpending⟩) h
      exact ⟨hplain, by simp [htext, openText]⟩
    · cases pending with
      | nil =>
        simp only [matchFrom, show Bytes.char (byte ']') = ']' from by decide] at h
        cases h
      | cons inner outer =>
        rw [matchFrom_close] at h
        obtain ⟨hplain, htext⟩ := ih (by simpa using ⟨hdone, hpending inner (by simp)⟩)
          (fun p hp => hpending p (by simp [hp])) h
        exact ⟨hplain, by simp [htext, openText]⟩
    · rw [matchFrom_symbol _ _ _ _ hplain] at h
      obtain ⟨hplain', htext⟩ := ih (arePlain_cons.mpr ⟨hplain, hdone⟩) hpending h
      exact ⟨hplain', by simp [htext]⟩

/-- Matching the brackets of a text gives the plain source trees with that text. -/
theorem ofText_eq_ok_iff {text : Bytes} {trees : List Source} :
    ofText text = .ok trees ↔ ArePlain trees ∧ texts trees = text := by
  constructor
  · intro h
    simpa [openText] using texts_of_matchFrom text arePlain_nil (by simp) h
  · rintro ⟨hplain, rfl⟩
    have h := matchFrom_texts trees hplain 0 [] [] []
    rw [List.append_nil, List.append_nil] at h
    simp [ofText, h, matchFrom]

end Source

/-! ### Balanced texts -/

/-- Whether the brackets of a text, behind some that are open, pair up. -/
def Bytes.balancedFrom : Nat → Bytes → Bool
  | depth, [] => depth == 0
  | depth, b :: rest =>
    if b = byte '[' then balancedFrom (depth + 1) rest
    else if b = byte ']' then depth != 0 && balancedFrom (depth - 1) rest
    else balancedFrom depth rest

/-- Whether the brackets of a text pair up. -/
def Bytes.IsBalanced (text : Bytes) : Prop :=
  Bytes.balancedFrom 0 text = true

instance (text : Bytes) : Decidable text.IsBalanced :=
  inferInstanceAs (Decidable (_ = true))

/-- Matching succeeds on what closes as many brackets as are `pending`, and no more. -/
private theorem Source.exists_matchFrom {text : Bytes} :
    ∀ {offset : Nat} {done : List Source} {pending : List Source.Pending},
      text.balancedFrom pending.length = true →
        ∃ trees, Source.matchFrom offset done pending text = .ok trees := by
  -- As many brackets are pending as the count of open ones says.
  induction text with
  | nil =>
    intro offset done pending h
    cases pending with
    | nil => exact ⟨_, rfl⟩
    | cons inner outer => cases h
  | cons b rest ih =>
    intro offset done pending h
    obtain rfl | rfl | hplain := Source.bracket_or_plain b
    · rw [Source.matchFrom_open]
      exact ih (by simpa [Bytes.balancedFrom] using h)
    · cases pending with
      | nil => cases h
      | cons inner outer =>
        have hne : byte ']' ≠ byte '[' := by decide
        rw [Source.matchFrom_close]
        exact ih (by simpa [Bytes.balancedFrom, hne] using h)
    · obtain ⟨hopen, hclose⟩ := Source.ne_bracket_of_isPlain hplain
      rw [Source.matchFrom_symbol _ _ _ _ hplain]
      exact ih (by simpa [Bytes.balancedFrom, hopen, hclose] using h)

/-- The brackets of a balanced text can be matched. -/
theorem Source.exists_ofText_of_isBalanced {text : Bytes} (h : text.IsBalanced) :
    ∃ trees, Source.ofText text = .ok trees :=
  Source.exists_matchFrom h

/-- Plain symbols make no difference to the balance of a text. -/
theorem Bytes.balancedFrom_append {between : Bytes}
    (hplain : ∀ b ∈ between, Source.IsPlain (.symbol b)) (before behind : Bytes) :
    ∀ depth, balancedFrom depth (before ++ between ++ behind) =
      balancedFrom depth (before ++ behind) := by
  induction before with
  | nil =>
    intro depth
    induction between with
    | nil => rfl
    | cons b between ih =>
      obtain ⟨hopen, hclose⟩ := Source.ne_bracket_of_isPlain (hplain b (by simp))
      simpa [balancedFrom, hopen, hclose] using ih fun c hc => hplain c (by simp [hc])
  | cons b before ih =>
    intro depth
    simp only [List.cons_append, balancedFrom, ih]

/-- The text of plain source trees is balanced. -/
theorem Source.balancedFrom_texts : (trees : List Source) → Source.ArePlain trees →
    (depth : Nat) → (rest : Bytes) →
      Bytes.balancedFrom depth (Source.texts trees ++ rest) = Bytes.balancedFrom depth rest
  | [], _, depth, rest => rfl
  | .symbol b :: trees, hplain, depth, rest => by
    obtain ⟨hopen, hclose⟩ := Source.ne_bracket_of_isPlain hplain.1
    simpa [Bytes.balancedFrom, hopen, hclose] using
      Source.balancedFrom_texts trees hplain.2 depth rest
  | .loop body :: trees, hplain, depth, rest => by
    have hne : byte ']' ≠ byte '[' := by decide
    have hbody := Source.balancedFrom_texts body hplain.1 (depth + 1)
    simpa [Bytes.balancedFrom, hbody, hne] using
      Source.balancedFrom_texts trees hplain.2 depth rest

/-- The brackets of a text can be matched exactly if it is balanced. -/
theorem Source.exists_ofText_iff {text : Bytes} :
    (∃ trees, Source.ofText text = .ok trees) ↔ text.IsBalanced := by
  refine ⟨?_, Source.exists_ofText_of_isBalanced⟩
  rintro ⟨trees, htrees⟩
  obtain ⟨hplain, rfl⟩ := Source.ofText_eq_ok_iff.mp htrees
  have h := Source.balancedFrom_texts trees hplain 0 []
  rw [List.append_nil] at h
  exact h

end TapeMachine
