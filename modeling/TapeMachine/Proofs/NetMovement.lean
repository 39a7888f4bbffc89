import Mathlib.Data.Bool.Basic
import Mathlib.Data.List.DropRight
import Mathlib.Data.List.SplitBy
import Mathlib.Logic.Function.Iterate
import TapeMachine.Proofs.Optimization

/-!
# The normal form of moves

Cancelling moves pair by pair leaves the same text in whatever order the pairs are found: each run
of moves shrinks to its net movement, and the symbols between the runs stay where they are. An
optimized text is this normal form without the idle symbols at its end, so there is nothing left to
optimize.

The module introduces:

* `ProgramText.settleMoves`: a text with each of its runs of moves replaced by its net movement;
* `ProgramText.exists_last_round`: the rounds of cancelling come to an end;
* `ProgramText.cancelMoves_eq_settleMoves`: what is left then are the net movements;
* `ProgramText.settleMoves_eq_optimize_append`: what optimizing leaves of a text.
-/

namespace TapeMachine.ProgramText

/-! ### Net movements -/

/-- Whether a symbol moves the cursor. -/
def isMove (b : UInt8) : Bool :=
  b == byte '<' || b == byte '>'

/-- How far to the right moves take the cursor. -/
def netMovement (moves : Bytes) : Int :=
  moves.count (byte '>') - moves.count (byte '<')

/-- The shortest text that moves the cursor by a distance to the right. -/
def movesBy (distance : Int) : Bytes :=
  List.replicate distance.natAbs (byte (if distance < 0 then '<' else '>'))

/-- A run of moves as its net movement; other symbols are kept. -/
def settleRun (run : Bytes) : Bytes :=
  if run.all isMove then movesBy (netMovement run) else run

/-- A text with each of its maximal runs of moves replaced by its net movement. -/
def settleMoves (text : Bytes) : Bytes :=
  (text.splitBy fun a b => isMove a == isMove b).flatMap settleRun

/-- There are two symbols that move. -/
theorem isMove_iff {b : UInt8} : isMove b = true ↔ b = byte '<' ∨ b = byte '>' := by
  simp [isMove]

/-- Symbols that cancel are moves. -/
theorem isMove_of_cancels {a b : UInt8} (hab : cancels a b = true) :
    isMove a = true ∧ isMove b = true := by
  simp only [isMove_iff]
  obtain ⟨rfl, rfl⟩ | ⟨rfl, rfl⟩ := cancels_iff.mp hab
  · exact ⟨Or.inl rfl, Or.inr rfl⟩
  · exact ⟨Or.inr rfl, Or.inl rfl⟩

/-- Each symbol adds to the net movement. -/
theorem netMovement_cons (b : UInt8) (moves : Bytes) :
    netMovement (b :: moves) = netMovement [b] + netMovement moves := by
  simp only [netMovement, List.count_cons, List.count_nil]
  push_cast
  omega

/-- A distance to the right is as many `>`. -/
theorem movesBy_natCast (n : Nat) : movesBy n = List.replicate n (byte '>') := by
  have hsign : ¬ (n : Int) < 0 := by omega
  rw [movesBy, if_neg hsign, Int.natAbs_natCast]

/-- A distance to the left is as many `<`. -/
theorem movesBy_neg (n : Nat) : movesBy (-n) = List.replicate n (byte '<') := by
  cases n with
  | zero => rfl
  | succ n =>
    have hsign : -((n + 1 : Nat) : Int) < 0 := by omega
    rw [movesBy, if_pos hsign, Int.natAbs_neg, Int.natAbs_natCast]

/-- All symbols of a distance are the same. -/
theorem movesBy_reverse (distance : Int) : (movesBy distance).reverse = movesBy distance :=
  List.reverse_replicate

/-! ### Runs on the stack -/

/-- A symbol is put on top of one that it does not cancel. -/
theorem push_of_not_cancels {stack : Bytes} {b : UInt8}
    (h : ∀ a ∈ stack.head?, cancels a b = false) : push stack b = b :: stack := by
  cases stack with
  | nil => rfl
  | cons a stack => simp [push, h a rfl]

section Stack

variable {stack : Bytes} (hstack : ∀ a ∈ stack.head?, isMove a = false)
include hstack

/-- A move changes the distance that the moves on top of the stack make up. -/
theorem push_movesBy {b : UInt8} (hb : isMove b = true) (distance : Int) :
    push (movesBy distance ++ stack) b = movesBy (distance + netMovement [b]) ++ stack := by
  -- Below the moves there is nothing that the symbol could cancel.
  have hbottom : push stack b = b :: stack := push_of_not_cancels fun a ha => by
    by_contra hab
    have hmove := (isMove_of_cancels (Bool.eq_true_of_not_eq_false hab)).1
    rw [hstack a ha] at hmove
    cases hmove
  -- A move away from the start is put on top, and a move back takes one off; at a distance of zero
  -- there is none to take off, and both are put on top.
  obtain ⟨n, rfl | rfl⟩ := Int.eq_nat_or_neg distance
  all_goals obtain rfl | rfl := isMove_iff.mp hb
  · have hnet : netMovement [byte '<'] = -1 := by decide
    cases n with
    | zero => exact hbottom
    | succ n =>
      have hless : ((n + 1 : Nat) : Int) + -1 = n := by omega
      rw [hnet, hless, movesBy_natCast, movesBy_natCast, List.replicate_succ]
      rfl
  · have hnet : netMovement [byte '>'] = 1 := by decide
    have hmore : (n : Int) + 1 = (n + 1 : Nat) := rfl
    rw [hnet, hmore, movesBy_natCast, movesBy_natCast]
    cases n with
    | zero => exact hbottom
    | succ n => rfl
  · have hnet : netMovement [byte '<'] = -1 := by decide
    have hmore : -(n : Int) + -1 = -(n + 1 : Nat) := by omega
    rw [hnet, hmore, movesBy_neg, movesBy_neg]
    cases n with
    | zero => exact hbottom
    | succ n => rfl
  · have hnet : netMovement [byte '>'] = 1 := by decide
    cases n with
    | zero => exact hbottom
    | succ n =>
      have hless : -((n + 1 : Nat) : Int) + 1 = -n := by omega
      rw [hnet, hless, movesBy_neg, movesBy_neg, List.replicate_succ]
      rfl

/-- Moves on top of a `distance` add their net movement to it. -/
theorem foldl_push_moves {run : Bytes} (hrun : ∀ b ∈ run, isMove b = true) (distance : Int) :
    run.foldl push (movesBy distance ++ stack) =
      movesBy (distance + netMovement run) ++ stack := by
  induction run generalizing distance with
  | nil => simp [netMovement]
  | cons b run ih =>
    rw [List.foldl_cons, push_movesBy hstack (hrun b List.mem_cons_self),
      ih fun c hc => hrun c (List.mem_cons_of_mem b hc), netMovement_cons b run, Int.add_assoc]

end Stack

/-- Symbols other than moves are all kept. -/
theorem foldl_push_others {run : Bytes} (hrun : ∀ b ∈ run, isMove b = false) (stack : Bytes) :
    run.foldl push stack = run.reverse ++ stack := by
  induction run generalizing stack with
  | nil => rfl
  | cons b run ih =>
    have hpush : push stack b = b :: stack := push_of_not_cancels fun a _ => by
      by_contra hab
      have hmove := (isMove_of_cancels (Bool.eq_true_of_not_eq_false hab)).2
      rw [hrun b List.mem_cons_self] at hmove
      cases hmove
    rw [List.foldl_cons, hpush, ih fun c hc => hrun c (List.mem_cons_of_mem b hc),
      List.reverse_cons, List.append_assoc, List.singleton_append]

/-- The symbols of a run are all moves, or none of them is. -/
theorem isMove_of_mem_run {a : UInt8} {run : Bytes}
    (h : (a :: run).IsChain fun a b => isMove a == isMove b) :
    ∀ b ∈ a :: run, isMove b = isMove a := by
  induction run generalizing a with
  | nil =>
    intro b hb
    rw [List.mem_singleton.mp hb]
  | cons c run ih =>
    obtain ⟨hac, hrest⟩ := List.isChain_cons_cons.mp h
    intro b hb
    obtain rfl | hb := List.mem_cons.mp hb
    · rfl
    · rw [ih hrest b hb, ← beq_iff_eq.mp hac]

/-- The runs of a text are settled on the stack one after another. -/
theorem foldl_push_runs {runs : List Bytes} (hne : [] ∉ runs)
    (hrun : ∀ run ∈ runs, run.IsChain fun a b => isMove a == isMove b)
    (hnext : runs.IsChain fun run next => ∃ hrun hnext,
      (isMove (run.getLast hrun) == isMove (next.head hnext)) = false)
    (stack : Bytes) (hstack : ∀ run ∈ runs.head?, run.all isMove = true →
      ∀ a ∈ stack.head?, isMove a = false) :
    runs.flatten.foldl push stack = (runs.flatMap settleRun).reverse ++ stack := by
  induction runs generalizing stack with
  | nil => rfl
  | cons run runs ih =>
    simp only [List.mem_cons, not_or, forall_eq_or_imp] at hne hrun
    obtain ⟨hnext, hchain⟩ := List.isChain_cons.mp hnext
    obtain ⟨a, rest, rfl⟩ := List.exists_cons_of_ne_nil (Ne.symm hne.1)
    have hkind := isMove_of_mem_run hrun.1
    -- What a run leaves on the stack is what it is settled to.
    have hsettled : (a :: rest).foldl push stack = (settleRun (a :: rest)).reverse ++ stack := by
      by_cases hmove : isMove a = true
      · have hall : (a :: rest).all isMove = true :=
          List.all_eq_true.mpr fun b hb => (hkind b hb).trans hmove
        have hpushed := foldl_push_moves (hstack _ rfl hall) (List.all_eq_true.mp hall) 0
        rw [settleRun, if_pos hall, movesBy_reverse, ← Int.zero_add (netMovement (a :: rest))]
        exact hpushed
      · have hall : ¬ (a :: rest).all isMove = true := fun h =>
          hmove (List.all_eq_true.mp h a List.mem_cons_self)
        have hother := Bool.eq_false_of_not_eq_true hmove
        rw [settleRun, if_neg hall]
        exact foldl_push_others (fun b hb => (hkind b hb).trans hother) stack
    rw [List.flatten_cons, List.foldl_append, hsettled, List.flatMap_cons, List.reverse_append,
      List.append_assoc]
    refine ih hne.2 hrun.2 hchain _ fun next hfirst hall b hb => ?_
    -- A run of moves does not follow another one, so the symbol on top ends a run of others.
    obtain ⟨hrun, hnext, hdiffer⟩ := hnext next hfirst
    have hhead : isMove (next.head hnext) = true :=
      List.all_eq_true.mp hall _ (List.head_mem hnext)
    have hlast : isMove ((a :: rest).getLast hrun) = false := by simpa [hhead] using hdiffer
    have hsame : isMove a = false := (hkind _ (List.getLast_mem hrun)).symm.trans hlast
    have hall' : ¬ (a :: rest).all isMove = true := fun h => by
      rw [List.all_eq_true.mp h a List.mem_cons_self] at hsame
      cases hsame
    rw [settleRun, if_neg hall', List.head?_append, List.head?_reverse,
      List.getLast?_eq_some_getLast hrun] at hb
    obtain rfl := Option.some.inj hb
    exact hlast

/-- Cancelling moves settles them. -/
theorem cancelMoves_eq_settleMoves (text : Bytes) : cancelMoves text = settleMoves text := by
  obtain ⟨htext, hne, hrun, hnext⟩ :=
    (List.splitBy_eq_iff (m := text) (r := fun a b => isMove a == isMove b)).mp rfl
  have hpushed := foldl_push_runs hne hrun hnext [] fun _ _ _ a ha => by cases ha
  rw [← htext, List.append_nil] at hpushed
  rw [cancelMoves, hpushed, List.reverse_reverse, settleMoves]

/-! ### Rounds -/

/-- Whether no two neighbours in a text are moves that cancel. -/
def IsSettled (text : Bytes) : Prop :=
  ∀ before after : Bytes, ∀ a b : UInt8, text = before ++ a :: b :: after → cancels a b = false

/-- Rounds make a text shorter until there is nothing left in it to cancel. -/
theorem exists_last_round (text : Bytes) : ∃ n,
    (∀ k < n, (cancelRound^[k + 1] text).length < (cancelRound^[k] text).length) ∧
      cancelRound^[n + 1] text = cancelRound^[n] text ∧ cancelMoves text = cancelRound^[n] text ∧
      IsSettled (cancelMoves text) := by
  rw [cancelMoves_eq_cancelRounds]
  -- The recursion makes one round more as long as the last one has made the text shorter.
  fun_induction cancelRounds text with
  | case1 text shorter hlt ih =>
    obtain ⟨n, hshorter, hlast⟩ := ih
    refine ⟨n + 1, fun k hk => ?_, hlast⟩
    cases k with
    | zero => exact hlt
    | succ k => exact hshorter k (by omega)
  | case2 text shorter hle =>
    obtain ⟨hsame, hsettled⟩ := cancelRound_of_length (Nat.le_of_not_lt hle)
    have hshorter : shorter = text := hsame
    rw [hshorter]
    exact ⟨0, fun k hk => absurd hk (Nat.not_lt_zero k), hsame, rfl, hsettled⟩

/-- There is nothing to cancel in a settled text. -/
theorem IsSettled.cancelMoves_eq {text : Bytes} (h : IsSettled text) : cancelMoves text = text := by
  rw [cancelMoves, foldl_push_of_none text (by simpa [IsSettled] using h), List.append_nil,
    List.reverse_reverse]

/-- The beginning of a text that is settled is settled. -/
theorem IsSettled.of_append {first second : Bytes} (h : IsSettled (first ++ second)) :
    IsSettled first := by
  intro before after a b hfirst
  exact h before (after ++ second) a b (by simp [hfirst])

/-- A text that is settled has no two symbols side by side that cancel. -/
theorem IsSettled.not_isInfix {text : Bytes} (h : IsSettled text) {a b : UInt8}
    (hab : cancels a b = true) : ¬ [a, b] <:+: text := by
  rintro ⟨before, after, htext⟩
  have hnone := h before after a b (by simp [← htext])
  rw [hab] at hnone
  cases hnone

/-! ### What optimizing leaves -/

/-- Cancelling moves makes a text no longer. -/
theorem length_cancelMoves_le (text : Bytes) : (cancelMoves text).length ≤ text.length :=
  cancelMoves_induction (P := fun left => left.length ≤ text.length)
    (fun before a b behind _ hle => by simp at hle ⊢; omega) (Nat.le_refl _)

/-- There is nothing to be trimmed a second time. -/
theorem trimIdle_trimIdle (text : Bytes) : trimIdle (trimIdle text) = trimIdle text :=
  List.rdropWhile_idempotent isIdleAtEnd text

/-- Which symbols are idle at the end of a text. -/
theorem isIdleAtEnd_iff_mem {b : UInt8} : isIdleAtEnd b = true ↔ b ∈ utf8 "-+<>," := by
  have hsymbols : utf8 "-+<>," = [byte '-', byte '+', byte '<', byte '>', byte ','] := by decide
  simp [isIdleAtEnd_iff, hsymbols]

/-- `optimize` runs `cancelRound` until the `text` gets no shorter, and then `trimIdle`. What it
leaves is `settleMoves text`, which has the other symbols of the `text` and the net movements of its
runs of moves, up to the last symbol that is not idle there. No two moves are left that cancel, and
nothing is left to be done a second time. -/
theorem settleMoves_eq_optimize_append (text : Bytes) :
    (∃ n, (∀ k < n, (cancelRound^[k + 1] text).length < (cancelRound^[k] text).length) ∧
      ¬ (cancelRound^[n + 1] text).length < (cancelRound^[n] text).length ∧
      optimize text = trimIdle (cancelRound^[n + 1] text)) ∧
    (∃ idle, settleMoves text = optimize text ++ idle ∧ (∀ b ∈ idle, b ∈ utf8 "-+<>,") ∧
      ∀ b, (optimize text).getLast? = some b → b ∉ utf8 "-+<>,") ∧
    ¬ utf8 "<>" <:+: optimize text ∧ ¬ utf8 "><" <:+: optimize text ∧
    (optimize text).length ≤ text.length ∧ optimize (optimize text) = optimize text := by
  obtain ⟨n, hshorter, hlast, hrounds, hsettled⟩ := exists_last_round text
  obtain ⟨idle, htrimmed, hidle, hend⟩ := exists_trimIdle_append (cancelMoves text)
  have hkept : IsSettled (optimize text) := (htrimmed ▸ hsettled).of_append
  refine ⟨⟨n, hshorter, ?_, ?_⟩, ⟨idle, ?_, ?_, ?_⟩, ?_, ?_, ?_, ?_⟩
  · rw [hlast]
    exact Nat.lt_irrefl _
  · rw [hlast, ← hrounds]
    rfl
  · rw [← cancelMoves_eq_settleMoves]
    exact htrimmed
  · exact fun b hb => isIdleAtEnd_iff_mem.mp (hidle b hb)
  · intro b hb hmem
    rw [← isIdleAtEnd_iff_mem, hend b hb] at hmem
    cases hmem
  · exact hkept.not_isInfix (by decide : cancels (byte '<') (byte '>') = true)
  · exact hkept.not_isInfix (by decide : cancels (byte '>') (byte '<') = true)
  · have hlength := congrArg List.length htrimmed
    rw [List.length_append] at hlength
    have hle := length_cancelMoves_le text
    rw [optimize]
    omega
  · -- Trimming cannot bring moves together, so a second time there is nothing to cancel or to trim.
    rw [optimize, hkept.cancelMoves_eq]
    exact trimIdle_trimIdle _

end TapeMachine.ProgramText
