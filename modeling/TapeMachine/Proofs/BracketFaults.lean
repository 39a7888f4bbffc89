import TapeMachine.Proofs.SourceText

/-!
# Which bracket is at fault

A text is a program if its brackets pair up. If they do not, the fault names one of them: the first
closing bracket for which nothing is open, or else the last opening bracket that is never closed.
Which ones these are is said here by counting brackets and by pairing them, without following how
they are matched.

What matching knows at any time is which brackets of the text behind it are open. They stand between
balanced texts, and every step of matching keeps it so.

The module introduces:

* `Bytes.surplus`: how many more brackets a text opens than it closes (`Bytes.isBalanced_iff`);
* `Bytes.OverclosesAt`: the first closing bracket too many;
* `Bytes.HasPartner`, `Bytes.IsLastOpen`: brackets that are closed, and the last one that is not;
* `Bytes.OpenAt`: the open brackets of a text, innermost first (`Bytes.OpenAt.append`);
* `Source.matchFrom_isExplained`: what matching the brackets of a text says about them;
* `Program.exists_parse_iff_isBalanced`: which texts are programs, and what is wrong with the
  others.
-/

namespace TapeMachine

/-! ### Counting brackets -/

namespace Bytes

/-- How many more brackets a text opens than it closes. -/
def surplus (text : Bytes) : Int :=
  text.count (byte '[') - text.count (byte ']')

/-- Nothing is opened in an empty text. -/
@[simp] theorem surplus_nil : surplus [] = 0 := rfl

/-- The brackets of two texts add up. -/
@[simp] theorem surplus_append (first second : Bytes) :
    surplus (first ++ second) = surplus first + surplus second := by
  simp only [surplus, List.count_append]
  omega

/-- An opening bracket counts one. -/
@[simp] theorem surplus_open (rest : Bytes) : surplus (byte '[' :: rest) = surplus rest + 1 := by
  have hne : byte '[' ≠ byte ']' := by decide
  simp only [surplus, List.count_cons_self, List.count_cons_of_ne hne]
  omega

/-- A closing bracket counts minus one. -/
@[simp] theorem surplus_close (rest : Bytes) : surplus (byte ']' :: rest) = surplus rest - 1 := by
  have hne : byte ']' ≠ byte '[' := by decide
  simp only [surplus, List.count_cons_self, List.count_cons_of_ne hne]
  omega

/-- Other symbols do not count. -/
theorem surplus_symbol {b : UInt8} (hb : Source.IsPlain (.symbol b)) (rest : Bytes) :
    surplus (b :: rest) = surplus rest := by
  obtain ⟨hopen, hclose⟩ := Source.ne_bracket_of_isPlain hb
  simp only [surplus, List.count_cons_of_ne hopen, List.count_cons_of_ne hclose]

/-- What is said of the prefixes of a text is said of the empty one and of the others. -/
private theorem forall_take_cons {p : Bytes → Prop} {b : UInt8} {rest : Bytes} :
    (∀ n, p ((b :: rest).take n)) ↔ p [] ∧ ∀ n, p (b :: rest.take n) := by
  refine ⟨fun h => ⟨h 0, fun n => h (n + 1)⟩, ?_⟩
  rintro ⟨hnil, hcons⟩ (_ | n)
  · exact hnil
  · exact hcons n

/-- Behind some open brackets, those of a text pair up if it never closes more than are open and
closes all of them. -/
theorem balancedFrom_iff {depth : Nat} {text : Bytes} :
    balancedFrom depth text = true ↔
      (∀ n, 0 ≤ depth + surplus (text.take n)) ∧ depth + surplus text = 0 := by
  induction text generalizing depth with
  | nil => simp [balancedFrom]
  | cons b rest ih =>
    have hne : byte ']' ≠ byte '[' := by decide
    rw [forall_take_cons (p := fun text => 0 ≤ (depth : Int) + surplus text), surplus_nil]
    obtain rfl | rfl | hplain := Source.bracket_or_plain b
    · simp only [balancedFrom, if_pos, surplus_open, ih, Int.natCast_add, Int.natCast_one]
      grind
    · cases depth with
      | zero =>
        -- Nothing is open, so this bracket is one too many.
        simp only [balancedFrom, if_neg hne, surplus_close]
        refine iff_of_false (by simp) fun h => ?_
        have hfirst := h.1.2 0
        simp at hfirst
      | succ depth =>
        simp only [balancedFrom, if_neg hne, surplus_close, Int.natCast_add, Int.natCast_one]
        simp only [if_pos, bne_iff_ne, Bool.and_eq_true, Nat.add_sub_cancel, ih]
        grind
    · obtain ⟨hopen, hclose⟩ := Source.ne_bracket_of_isPlain hplain
      simp only [balancedFrom, if_neg hopen, if_neg hclose, surplus_symbol hplain, ih]
      grind

/-- A text is balanced if no prefix of it closes more than it opens, and all that it opens is
closed. -/
theorem isBalanced_iff {text : Bytes} :
    text.IsBalanced ↔ (∀ n, 0 ≤ surplus (text.take n)) ∧ surplus text = 0 := by
  rw [IsBalanced, balancedFrom_iff]
  simp

/-! ### Balanced texts -/

/-- A text behind which no more brackets are open than before it makes no difference. -/
theorem balancedFrom_append_of {depth extra : Nat} {text : Bytes}
    (h : balancedFrom depth text = true) (rest : Bytes) :
    balancedFrom (depth + extra) (text ++ rest) = balancedFrom extra rest := by
  induction text generalizing depth with
  | nil =>
    obtain rfl : depth = 0 := by simpa [balancedFrom] using h
    simp
  | cons b text ih =>
    rw [List.cons_append, balancedFrom]
    rw [balancedFrom] at h
    split at h
    · next hopen =>
      rw [if_pos hopen, Nat.add_right_comm]
      exact ih h
    · next hopen =>
      rw [if_neg hopen]
      split at h
      · -- The bracket that is closed is open without the extra ones, too.
        next hclose =>
        obtain ⟨hdepth, h⟩ : depth ≠ 0 ∧ balancedFrom (depth - 1) text = true := by simpa using h
        have hsub : depth + extra - 1 = depth - 1 + extra := by omega
        have hpos : (depth + extra != 0) = true := by simp; omega
        rw [if_pos hclose, hsub, hpos, Bool.true_and]
        exact ih h
      · next hclose =>
        rw [if_neg hclose]
        exact ih h

/-- An empty text is balanced. -/
theorem isBalanced_nil : IsBalanced [] :=
  rfl

/-- Balanced texts in a row are balanced. -/
theorem IsBalanced.append {first second : Bytes} (hfirst : first.IsBalanced)
    (hsecond : second.IsBalanced) : (first ++ second).IsBalanced :=
  (@balancedFrom_append_of 0 0 first hfirst second).trans hsecond

/-- A symbol that is no bracket is balanced. -/
theorem isBalanced_symbol {b : UInt8} (hb : Source.IsPlain (.symbol b)) : IsBalanced [b] := by
  obtain ⟨hopen, hclose⟩ := Source.ne_bracket_of_isPlain hb
  simp [IsBalanced, balancedFrom, hopen, hclose]

/-- A balanced text between two brackets is balanced. -/
theorem IsBalanced.enclosed {inner : Bytes} (h : inner.IsBalanced) :
    IsBalanced (byte '[' :: (inner ++ [byte ']'])) :=
  @balancedFrom_append_of 0 1 inner h [byte ']']

/-- No prefix of a balanced text closes more than it opens. -/
theorem IsBalanced.surplus_take {text : Bytes} (h : text.IsBalanced) (n : Nat) :
    0 ≤ surplus (text.take n) :=
  (isBalanced_iff.mp h).1 n

/-- A balanced text closes all that it opens. -/
theorem IsBalanced.surplus_eq {text : Bytes} (h : text.IsBalanced) : surplus text = 0 :=
  (isBalanced_iff.mp h).2

/-! ### Open brackets -/

/-- Which brackets of a text are open, innermost first. They stand between balanced texts. -/
inductive OpenAt : List Nat → Bytes → Prop
  | none {text : Bytes} (htext : text.IsBalanced) : OpenAt [] text
  | behind {offsets : List Nat} {before inner : Bytes} (hbefore : OpenAt offsets before)
      (hinner : inner.IsBalanced) : OpenAt (before.length :: offsets) (before ++ byte '[' :: inner)

variable {offsets : List Nat} {text : Bytes} {i : Nat}

/-- A balanced text leaves the same brackets open. -/
theorem OpenAt.append (h : OpenAt offsets text) {more : Bytes} (hmore : more.IsBalanced) :
    OpenAt offsets (text ++ more) := by
  cases h with
  | none htext => exact .none (htext.append hmore)
  | behind hbefore hinner =>
    rw [List.append_assoc, List.cons_append]
    exact .behind hbefore (hinner.append hmore)

/-- An opening bracket is open behind those before it. -/
theorem OpenAt.opening (h : OpenAt offsets text) :
    OpenAt (text.length :: offsets) (text ++ [byte '[']) :=
  .behind h isBalanced_nil

/-- A closing bracket is the partner of the innermost open one, and leaves the others open. -/
theorem OpenAt.closing (h : OpenAt (i :: offsets) text) : OpenAt offsets (text ++ [byte ']']) := by
  cases h with
  | behind hbefore hinner =>
    rw [List.append_assoc, List.cons_append]
    exact hbefore.append hinner.enclosed

/-- Where brackets are open, none was closed too many. -/
theorem OpenAt.surplus_take (h : OpenAt offsets text) (n : Nat) : 0 ≤ surplus (text.take n) := by
  induction h generalizing n with
  | none htext => exact htext.surplus_take n
  | @behind offsets before inner hbefore hinner ih =>
    -- A prefix ends in front of the last open bracket or in the balanced text behind it.
    have hwhole := ih before.length
    rw [List.take_length] at hwhole
    rw [List.take_append, surplus_append]
    by_cases hle : n ≤ before.length
    · rw [Nat.sub_eq_zero_of_le hle, List.take_zero, surplus_nil, Int.add_zero]
      exact ih n
    · obtain ⟨m, hm⟩ : ∃ m, n - before.length = m + 1 := ⟨n - before.length - 1, by omega⟩
      have hrest := hinner.surplus_take m
      rw [List.take_of_length_le (Nat.le_of_not_le hle), hm, List.take_succ_cons, surplus_open]
      omega

end Bytes

/-! ### Matching -/

namespace Source

/-- What matching the brackets of a text says about them. -/
def IsExplained (text : Bytes) : Except ParseFault (List Source) → Prop
  | .ok _ => text.IsBalanced
  | .error (.unmatchedClose i) => ∃ before behind : Bytes,
      text = before ++ byte ']' :: behind ∧ before.length = i ∧ before.IsBalanced
  | .error (.unmatchedOpen i) => ∃ offsets, Bytes.OpenAt (i :: offsets) text

/-- Matching goes on behind a text knowing which of its brackets are open. -/
theorem matchFrom_isExplained (rest : Bytes) : ∀ {seen : Bytes} {done : List Source}
    {pending : List Pending}, Bytes.OpenAt (pending.map Pending.offset) seen →
      IsExplained (seen ++ rest) (matchFrom seen.length done pending rest) := by
  induction rest with
  | nil =>
    intro seen done pending h
    rw [List.append_nil]
    cases pending with
    | nil =>
      cases h with
      | none hseen => exact hseen
    | cons inner outer => exact ⟨outer.map Pending.offset, h⟩
  | cons b rest ih =>
    -- Every byte goes over from what is to be matched to what was seen.
    intro seen done pending h
    have hnext : seen ++ b :: rest = (seen ++ [b]) ++ rest := by simp
    have hlength : seen.length + 1 = (seen ++ [b]).length := by simp
    obtain rfl | rfl | hplain := bracket_or_plain b
    · rw [matchFrom_open, hnext, hlength]
      exact ih h.opening
    · cases pending with
      | nil =>
        cases h with
        | none hseen =>
          -- Nothing is open, so all that was seen is balanced and this bracket is at fault.
          simp only [matchFrom, show Bytes.char (byte ']') = ']' from by decide]
          exact ⟨seen, rest, rfl, rfl, hseen⟩
      | cons inner outer =>
        rw [matchFrom_close, hnext, hlength]
        exact ih h.closing
    · rw [matchFrom_symbol _ _ _ _ hplain, hnext, hlength]
      exact ih (h.append (Bytes.isBalanced_symbol hplain))

/-- What matching a text gives is explained by its brackets. -/
theorem ofText_isExplained (text : Bytes) : IsExplained text (ofText text) :=
  @matchFrom_isExplained text [] [] [] (.none Bytes.isBalanced_nil)

end Source

namespace Bytes

variable {offsets : List Nat} {text : Bytes} {i : Nat}

/-- A text that closes more brackets than it opens has a balanced text in front of the first one too
many. -/
theorem exists_overclosed (h : surplus text < 0) :
    ∃ before behind : Bytes, text = before ++ byte ']' :: behind ∧ before.IsBalanced := by
  have hexplained := Source.ofText_isExplained text
  cases hmatch : Source.ofText text with
  | ok trees =>
    rw [hmatch] at hexplained
    have hzero := IsBalanced.surplus_eq hexplained
    omega
  | error fault =>
    rw [hmatch] at hexplained
    cases fault with
    | unmatchedClose i =>
      obtain ⟨before, behind, htext, -, hbefore⟩ := hexplained
      exact ⟨before, behind, htext, hbefore⟩
    -- Brackets that stay open add to the surplus.
    | unmatchedOpen i =>
      obtain ⟨offsets, hopen⟩ := hexplained
      have hwhole := hopen.surplus_take text.length
      rw [List.take_length] at hwhole
      omega

/-! ### Brackets at fault -/

/-- Whether the bracket at an offset is the first with which a text has closed more brackets than it
has opened. -/
def OverclosesAt (text : Bytes) (i : Nat) : Prop :=
  text[i]? = some (byte ']') ∧ surplus (text.take (i + 1)) < 0 ∧ ∀ n ≤ i, 0 ≤ surplus (text.take n)

/-- Whether the bracket at an offset is opened and closed again: the brackets between it and its
partner pair up. -/
def HasPartner (text : Bytes) (i : Nat) : Prop :=
  ∃ before inner behind : Bytes, text = before ++ byte '[' :: (inner ++ byte ']' :: behind) ∧
    before.length = i ∧ inner.IsBalanced

/-- Whether the bracket at an offset is opened and never closed. -/
def IsOpen (text : Bytes) (i : Nat) : Prop :=
  text[i]? = some (byte '[') ∧ ¬ text.HasPartner i

/-- Whether the bracket at an offset is the last that is never closed. -/
def IsLastOpen (text : Bytes) (i : Nat) : Prop :=
  text.IsOpen i ∧ ∀ k, i < k → ¬ text.IsOpen k

/-- A closing bracket behind a balanced text is one too many. -/
theorem IsBalanced.overclosesAt {before : Bytes} (h : before.IsBalanced) (behind : Bytes) :
    (before ++ byte ']' :: behind).OverclosesAt before.length := by
  refine ⟨by simp, ?_, fun n hn => ?_⟩
  · simp [List.take_append, List.take_of_length_le, h.surplus_eq]
  · rw [List.take_append_of_le_length hn]
    exact h.surplus_take n

/-- In a balanced text every bracket that is opened has its partner. -/
theorem IsBalanced.hasPartner (htext : text.IsBalanced) (hopen : text[i]? = some (byte '[')) :
    text.HasPartner i := by
  obtain ⟨hlt, hat⟩ := List.getElem?_eq_some_iff.mp hopen
  have hsplit : text = text.take i ++ byte '[' :: text.drop (i + 1) := by
    rw [← hat, List.getElem_cons_drop, List.take_append_drop]
  -- The text behind the bracket closes it, and so closes more than it opens.
  have hbehind : surplus (text.drop (i + 1)) < 0 := by
    have hwhole := htext.surplus_eq
    have hfront := htext.surplus_take i
    rw [hsplit, surplus_append, surplus_open] at hwhole
    omega
  obtain ⟨inner, behind, hrest, hinner⟩ := exists_overclosed hbehind
  exact ⟨text.take i, inner, behind, hrest ▸ hsplit, List.length_take_of_le (Nat.le_of_lt hlt),
    hinner⟩

/-- The innermost of the open brackets is the last one that is never closed. -/
theorem OpenAt.isLastOpen (h : OpenAt (i :: offsets) text) : text.IsLastOpen i := by
  cases h with
  | @behind _ before inner hbefore hinner =>
    refine ⟨⟨by simp, ?_⟩, fun k hk hopen => hopen.2 ?_⟩
    · rintro ⟨before', inner', behind, htext, hlength, hinner'⟩
      -- The partner would be a closing bracket too many of the balanced text behind.
      obtain ⟨-, hrest⟩ := List.append_inj htext hlength.symm
      obtain rfl := (List.cons.inj hrest).2
      have hclosed := (hinner'.overclosesAt behind).2.1
      exact absurd (hinner.surplus_take (inner'.length + 1)) (Int.not_le.mpr hclosed)
    · -- A bracket further behind is in that balanced text and has its partner there.
      obtain ⟨j, rfl⟩ : ∃ j, k = before.length + 1 + j := ⟨k - (before.length + 1), by omega⟩
      have hinside : inner[j]? = some (byte '[') := by
        have hat := hopen.1
        rw [List.getElem?_append_right (by omega)] at hat
        simpa [show before.length + 1 + j - before.length = j + 1 by omega] using hat
      obtain ⟨first, second, behind, rfl, rfl, hsecond⟩ := hinner.hasPartner hinside
      refine ⟨before ++ byte '[' :: first, second, behind, ?_, ?_, hsecond⟩
      · simp
      · simp only [List.length_append, List.length_cons]
        omega

end Bytes

namespace Program

variable {text : Bytes}

/-- A text with matching brackets is parsed by condensing it. -/
theorem parse_of_ofText {trees : List Source} (h : Source.ofText text = .ok trees) :
    parse text = .ok (Source.condense trees) := by
  rw [parse, h]
  rfl

/-- A text without matching brackets is not parsed. -/
theorem parse_of_fault {fault : ParseFault} (h : Source.ofText text = .error fault) :
    parse text = .error fault := by
  rw [parse, h]
  rfl

/-- A `text` can be parsed exactly if it `IsBalanced`, that is if no prefix closes more brackets
than it opens and the whole `text` closes as many. If some prefix closes more, the fault is the
first bracket `i` that `OverclosesAt`. If none does but some bracket is never closed, the fault is
the bracket `i` that `IsLastOpen`. -/
theorem exists_parse_iff_isBalanced (text : Bytes) :
    ((∃ program, parse text = .ok program) ↔ text.IsBalanced) ∧
    (text.IsBalanced ↔ (∀ n, 0 ≤ Bytes.surplus (text.take n)) ∧ text.surplus = 0) ∧
    ((∃ n, Bytes.surplus (text.take n) < 0) →
      ∃ i, text.OverclosesAt i ∧ parse text = .error (.unmatchedClose i) ∧
        (ParseFault.unmatchedClose i).message =
          utf8 "parse error @" ++ Bytes.ofNat i ++ utf8 ": unmatched ]") ∧
    ((∀ n, 0 ≤ Bytes.surplus (text.take n)) → (∃ i, text.IsOpen i) →
      ∃ i, text.IsLastOpen i ∧ parse text = .error (.unmatchedOpen i) ∧
        (ParseFault.unmatchedOpen i).message =
          utf8 "parse error @" ++ Bytes.ofNat i ++ utf8 ": unmatched [") := by
  refine ⟨?_, Bytes.isBalanced_iff, ?_⟩
  · rw [← Source.exists_ofText_iff]
    constructor
    · rintro ⟨program, hparse⟩
      cases hmatch : Source.ofText text with
      | ok trees => exact ⟨trees, rfl⟩
      | error fault => cases (parse_of_fault hmatch).symm.trans hparse
    · rintro ⟨trees, hmatch⟩
      exact ⟨_, parse_of_ofText hmatch⟩
  -- What the matching answers decides each of the two cases, as it is explained by the brackets.
  have hexplained := Source.ofText_isExplained text
  cases hmatch : Source.ofText text with
  | ok trees =>
    rw [hmatch] at hexplained
    refine ⟨?_, ?_⟩
    · rintro ⟨n, hn⟩
      exact absurd (hexplained.surplus_take n) (Int.not_le.mpr hn)
    · rintro - ⟨i, hopen, hpartner⟩
      exact absurd (hexplained.hasPartner hopen) hpartner
  | error fault =>
    rw [hmatch] at hexplained
    cases fault with
    | unmatchedClose i =>
      obtain ⟨before, behind, rfl, rfl, hbefore⟩ := hexplained
      have hover := hbefore.overclosesAt behind
      refine ⟨fun _ => ⟨_, hover, parse_of_fault hmatch, rfl⟩, fun hnonneg => ?_⟩
      exact absurd (hnonneg _) (Int.not_le.mpr hover.2.1)
    | unmatchedOpen i =>
      obtain ⟨offsets, hopen⟩ := hexplained
      refine ⟨?_, fun _ _ => ⟨i, hopen.isLastOpen, parse_of_fault hmatch, rfl⟩⟩
      rintro ⟨n, hn⟩
      exact absurd (hopen.surplus_take n) (Int.not_le.mpr hn)

/-- The first bracket is never closed, although those behind it are. Where a bracket is closed that
was never opened, it does not matter that another one is never closed. -/
theorem parse_eq_error_unbalanced :
    ((∀ n, 0 ≤ Bytes.surplus ((utf8 "[+[-][.]").take n)) ∧
      Bytes.IsLastOpen (utf8 "[+[-][.]") 0 ∧
      parse (utf8 "[+[-][.]") = .error (.unmatchedOpen 0)) ∧
    Bytes.surplus ((utf8 "[-]][").take 4) < 0 ∧ Bytes.OverclosesAt (utf8 "[-]][") 3 ∧
      parse (utf8 "[-]][") = .error (.unmatchedClose 3) := by
  refine ⟨?_, by decide, ?_⟩
  · have hopen : Bytes.OpenAt [0] (utf8 "[+[-][.]") :=
      @Bytes.OpenAt.behind [] [] (utf8 "+[-][.]") (.none Bytes.isBalanced_nil) (by decide)
    obtain ⟨i, hlast, hparse, -⟩ := (exists_parse_iff_isBalanced (utf8 "[+[-][.]")).2.2.2
      hopen.surplus_take ⟨0, hopen.isLastOpen.1⟩
    cases hparse.symm.trans (show parse (utf8 "[+[-][.]") = .error (.unmatchedOpen 0) from rfl)
    exact ⟨hopen.surplus_take, hlast, hparse⟩
  · obtain ⟨i, hover, hparse, -⟩ := (exists_parse_iff_isBalanced (utf8 "[-]][")).2.2.1
      ⟨4, by decide⟩
    cases hparse.symm.trans (show parse (utf8 "[-]][") = .error (.unmatchedClose 3) from rfl)
    exact ⟨hover, hparse⟩

end Program

end TapeMachine
