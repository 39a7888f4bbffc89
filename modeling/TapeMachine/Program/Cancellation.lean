import TapeMachine.Bytes

/-!
# Cancelling moves

A move to the left and one to the right that stand next to each other cancel. Removing such pairs
round by round, until none is left, is what is meant; keeping the symbols read so far on a stack
gives the same text in one pass.

The module introduces:

* `ProgramText.cancelRounds`: the removal of pairs, round by round;
* `ProgramText.cancelMoves`: the removal in one pass;
* `ProgramText.cancelMoves_eq_cancelRounds`: one pass gives what the rounds give.
-/

namespace TapeMachine.ProgramText

/-- Removes every `first` that is directly followed by `second`, together with it. Pairs that
arise from a removal stay. -/
def removePairs (first second : UInt8) : Bytes → Bytes
  | a :: b :: rest =>
    if a = first ∧ b = second then removePairs first second rest
    else a :: removePairs first second (b :: rest)
  | [a] => [a]
  | [] => []

/-- Removes the pairs `<>` and then the pairs `><`, once each. -/
def cancelRound (text : Bytes) : Bytes :=
  removePairs (byte '>') (byte '<') (removePairs (byte '<') (byte '>') text)

/-- Removes cancelling moves as long as that makes the text shorter. -/
def cancelRounds (text : Bytes) : Bytes :=
  let shorter := cancelRound text
  if shorter.length < text.length then cancelRounds shorter else shorter
termination_by text.length

/-- Whether two symbols are moves that cancel. -/
def cancels (a b : UInt8) : Bool :=
  (a == byte '<' && b == byte '>') || (a == byte '>' && b == byte '<')

/-- Puts a symbol on a stack, or takes the topmost one away if the two cancel. -/
def push (stack : Bytes) (b : UInt8) : Bytes :=
  match stack with
  | [] => [b]
  | a :: rest => if cancels a b then rest else b :: a :: rest

/-- Removes cancelling moves in one pass. -/
def cancelMoves (text : Bytes) : Bytes :=
  (text.foldl push []).reverse

/-- No two neighbours cancel. -/
def IsReduced : Bytes → Prop
  | a :: b :: rest => cancels a b = false ∧ IsReduced (b :: rest)
  | _ => True

theorem cancels_comm (a b : UInt8) : cancels a b = cancels b a := by
  unfold cancels
  rw [Bool.or_comm, Bool.and_comm, Bool.and_comm (a == byte '<')]

/-- Only one symbol cancels a given one. -/
theorem cancels_unique {a b c : UInt8} (hb : cancels a b = true) (hc : cancels a c = true) :
    b = c := by
  have hne : byte '<' ≠ byte '>' := by decide
  simp only [cancels, Bool.or_eq_true, Bool.and_eq_true, beq_iff_eq] at hb hc
  rcases hb with ⟨rfl, rfl⟩ | ⟨rfl, rfl⟩
  · rcases hc with ⟨_, rfl⟩ | ⟨h, _⟩
    · rfl
    · exact absurd h hne
  · rcases hc with ⟨h, _⟩ | ⟨_, rfl⟩
    · exact absurd h.symm hne
    · rfl

theorem IsReduced.tail {a : UInt8} {stack : Bytes} (h : IsReduced (a :: stack)) :
    IsReduced stack := by
  cases stack with
  | nil => trivial
  | cons b rest => exact h.2

theorem IsReduced.push {stack : Bytes} (h : IsReduced stack) (b : UInt8) :
    IsReduced (push stack b) := by
  unfold ProgramText.push
  split
  · trivial
  · split
    · exact h.tail
    · next hcancels => exact ⟨by rw [cancels_comm]; simpa using hcancels, h⟩

/-- Two symbols that cancel leave a reduced stack as it is. -/
theorem push_push {stack : Bytes} (h : IsReduced stack) {a b : UInt8} (hab : cancels a b = true) :
    push (push stack a) b = stack := by
  cases stack with
  | nil => simp [push, hab]
  | cons c rest =>
    by_cases hca : cancels c a = true
    · have hcb : c = b := cancels_unique (by rw [cancels_comm]; exact hca) hab
      subst hcb
      cases rest with
      | nil => simp [push, hca]
      | cons d rest =>
        have hdc : cancels d c = false := by rw [cancels_comm]; exact h.1
        simp [push, hca, hdc]
    · simp [push, hca, hab]

/-- Pairs make no difference to the stack. -/
theorem foldl_push_removePairs {first second : UInt8} (hpair : cancels first second = true)
    (text : Bytes) : ∀ {stack : Bytes}, IsReduced stack →
      (removePairs first second text).foldl push stack = text.foldl push stack := by
  fun_induction removePairs first second text with
  | case1 a b rest heq ih =>
    intro stack h
    rw [ih h]
    obtain ⟨rfl, rfl⟩ := heq
    simp [push_push h hpair]
  | case2 a b rest hne ih =>
    intro stack h
    exact ih (h.push a)
  | case3 => intros; rfl
  | case4 => intros; rfl

/-- A round makes no difference to the stack. -/
theorem foldl_push_cancelRound (text : Bytes) :
    (cancelRound text).foldl push [] = text.foldl push [] := by
  unfold cancelRound
  have hempty : IsReduced [] := trivial
  rw [foldl_push_removePairs (by decide) _ hempty, foldl_push_removePairs (by decide) _ hempty]

theorem length_removePairs_le (first second : UInt8) (text : Bytes) :
    (removePairs first second text).length ≤ text.length := by
  fun_induction removePairs first second text with
  | case1 a b rest heq ih => simp only [List.length_cons]; omega
  | case2 a b rest hne ih => simp only [List.length_cons] at ih ⊢; omega
  | case3 => exact Nat.le_refl _
  | case4 => exact Nat.le_refl _

/-- A text that keeps its length has no pairs and stays as it is. -/
theorem removePairs_of_length {first second : UInt8} {text : Bytes}
    (h : text.length ≤ (removePairs first second text).length) :
    removePairs first second text = text ∧
      ∀ before after : Bytes, text ≠ before ++ first :: second :: after := by
  fun_induction removePairs first second text with
  | case1 a b rest heq ih =>
    -- A pair that is removed makes the text shorter by two, which `h` rules out.
    have := length_removePairs_le first second rest
    simp only [List.length_cons] at h
    omega
  | case2 a b rest hne ih =>
    obtain ⟨heq, hnone⟩ := ih (by simpa using h)
    -- A pair would begin at `a`, which `hne` rules out, or further on.
    refine ⟨by rw [heq], ?_⟩
    intro before after htext
    cases before with
    | nil =>
      simp only [List.nil_append, List.cons.injEq] at htext
      exact hne ⟨htext.1, htext.2.1⟩
    | cons c before =>
      simp only [List.cons_append, List.cons.injEq] at htext
      exact hnone before after htext.2
  | case3 a =>
    refine ⟨rfl, ?_⟩
    intro before after htext
    have := congrArg List.length htext
    simp at this
    omega
  | case4 =>
    refine ⟨rfl, ?_⟩
    intro before after htext
    have := congrArg List.length htext
    simp at this

/-- A text without pairs is put on the stack symbol by symbol. -/
theorem foldl_push_of_none (text : Bytes) : ∀ {stack : Bytes},
    (∀ before after : Bytes, ∀ a b : UInt8, stack.reverse ++ text = before ++ a :: b :: after →
      cancels a b = false) →
    text.foldl push stack = text.reverse ++ stack := by
  induction text with
  | nil => intro stack _; simp
  | cons b rest ih =>
    intro stack h
    have hpush : push stack b = b :: stack := by
      cases stack with
      | nil => rfl
      | cons a stack =>
        have hab := h stack.reverse rest a b (by simp)
        simp [push, hab]
    rw [List.foldl_cons, hpush, ih (by simpa using h)]
    simp

/-- A round that does not make a text shorter finds no pair in it, and leaves it as it is. -/
theorem cancelRound_of_length {text : Bytes} (h : text.length ≤ (cancelRound text).length) :
    cancelRound text = text ∧ ∀ before after : Bytes, ∀ a b : UInt8,
      text = before ++ a :: b :: after → cancels a b = false := by
  have hfirst := length_removePairs_le (byte '<') (byte '>') text
  have hsecond := length_removePairs_le (byte '>') (byte '<')
    (removePairs (byte '<') (byte '>') text)
  have hround : (cancelRound text).length = (removePairs (byte '>') (byte '<')
    (removePairs (byte '<') (byte '>') text)).length := rfl
  obtain ⟨heq, hnone⟩ := @removePairs_of_length (byte '<') (byte '>') text (by omega)
  rw [heq] at hround hsecond
  obtain ⟨heq', hnone'⟩ := @removePairs_of_length (byte '>') (byte '<') text (by omega)
  refine ⟨by unfold cancelRound; rw [heq, heq'], fun before after a b htext => ?_⟩
  cases hab : cancels a b with
  | false => rfl
  | true =>
    simp only [cancels, Bool.or_eq_true, Bool.and_eq_true, beq_iff_eq] at hab
    rcases hab with ⟨rfl, rfl⟩ | ⟨rfl, rfl⟩
    · exact absurd htext (hnone before after)
    · exact absurd htext (hnone' before after)

/-- The rounds end with the text that one pass gives. -/
theorem cancelRounds_eq (text : Bytes) : cancelRounds text = (text.foldl push []).reverse := by
  fun_induction cancelRounds text with
  | case1 text shorter hlt ih => rw [ih, foldl_push_cancelRound]
  | case2 text shorter hle =>
    obtain ⟨hsame, hnone⟩ := cancelRound_of_length (Nat.le_of_not_lt hle)
    rw [foldl_push_of_none text (by simpa using hnone)]
    simpa using hsame

/-- One pass gives what the rounds give. -/
theorem cancelMoves_eq_cancelRounds (text : Bytes) : cancelMoves text = cancelRounds text :=
  (cancelRounds_eq text).symm

end TapeMachine.ProgramText
