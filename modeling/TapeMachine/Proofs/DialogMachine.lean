import TapeMachine.Dialog.Basic

/-!
# The dialog machine

A dialog is a talk between a program and the one who answers it. In each turn the action of the
current node is done: it says a text and goes on to the next node, or it asks a question and goes on
by the answer, which is the next `y` or `n` of the input. Node zero ends the talk, and a node
without an action leads to itself forever.

The module introduces:

* `Dialog.answer`: the first answer in an input, which comes behind bytes that are none
  (`Dialog.answer_append`);
* `Dialog.Talk`, `Dialog.Talk.turn`: the states and the steps of the machine;
* `Dialog.Talk.Closes`, `Dialog.Talk.Starves`: the ways in which a talk can end.
-/

namespace TapeMachine.Dialog

/-- The first answer in an input, and what follows it. -/
def answer : Bytes → Option (Bool × Bytes)
  | [] => none
  | b :: rest =>
    if b = byte 'y' then some (true, rest)
    else if b = byte 'n' then some (false, rest)
    else answer rest

/-- Whether a byte is an answer. -/
def IsAnswer (b : UInt8) : Prop :=
  b = byte 'y' ∨ b = byte 'n'

instance (b : UInt8) : Decidable (IsAnswer b) :=
  inferInstanceAs (Decidable (_ ∨ _))

/-- Bytes that are no answers are passed over. -/
theorem answer_append {before : Bytes} (hbefore : ∀ b ∈ before, ¬ IsAnswer b) (rest : Bytes) :
    answer (before ++ rest) = answer rest := by
  induction before with
  | nil => rfl
  | cons b before ih =>
    obtain ⟨hyes, hno⟩ := not_or.mp (hbefore b List.mem_cons_self)
    rw [List.cons_append, answer, if_neg hyes, if_neg hno]
    exact ih fun c hc => hbefore c (List.mem_cons_of_mem b hc)

theorem answer_cons {b : UInt8} (hb : IsAnswer b) (rest : Bytes) :
    answer (b :: rest) = some (decide (b = byte 'y'), rest) := by
  rw [answer]
  rcases hb with rfl | rfl <;> rfl

theorem answer_eq_none {input : Bytes} (h : ∀ b ∈ input, ¬ IsAnswer b) : answer input = none := by
  rw [← List.append_nil input, answer_append h]
  rfl

/-- A state of a dialog. -/
structure Talk where
  /-- The current node. -/
  node : Nat
  /-- The bytes still to be read. -/
  input : Bytes
  /-- The bytes written so far. -/
  output : Bytes

/-- The action of a node. A later entry replaces an earlier one for the same node. -/
def actionOf (entries : List (Int × Action)) (node : Nat) : Option Action :=
  entries.reverse.lookup (node : Int)

/-- What a turn leads to. -/
inductive Turn where
  /-- The talk goes on. -/
  | next (talk : Talk)
  /-- There is no answer left. -/
  | unanswered (output : Bytes)
  /-- The talk is closed. -/
  | closed

/-- The nodes to which an action leads. -/
def Action.targets : Action → List Nat
  | .say _ next => [next]
  | .ask _ no yes => [no, yes]

/-- What an action does. -/
def Action.perform (talk : Talk) : Action → Turn
  | .say text next =>
    .next { talk with node := next, output := talk.output ++ (text ++ [Bytes.newline]) }
  | .ask prompt no yes =>
    let output := talk.output ++ (prompt ++ utf8 " [y/n]\n> ")
    match answer talk.input with
    | none => .unanswered output
    | some (agreed, rest) => .next { node := if agreed then yes else no, input := rest, output }

namespace Talk

/-- What a talk leads to by an action; without one, it stays where it is. -/
def proceed (talk : Talk) : Option Action → Turn
  | none => .next talk
  | some action => action.perform talk

/-- A turn of a talk, given the actions of the nodes. -/
def turn (actions : Nat → Option Action) (talk : Talk) : Turn :=
  if talk.node = 0 then .closed else talk.proceed (actions talk.node)

/-- The last turn of a talk, with the state before it, if there is one within a number of turns. -/
def lastTurn (actions : Nat → Option Action) : Nat → Talk → Option (Talk × Turn)
  | 0, _ => none
  | turns + 1, talk =>
    match talk.turn actions with
    | .next talk => lastTurn actions turns talk
    | last => some (talk, last)

/-- Whether a talk gets to node zero, with an input left and an output. -/
def Closes (actions : Nat → Option Action) (talk : Talk) (input output : Bytes) : Prop :=
  ∃ turns, lastTurn actions turns talk = some (⟨0, input, output⟩, .closed)

/-- Whether a talk gets to a question without an answer, with an output. -/
def Starves (actions : Nat → Option Action) (talk : Talk) (output : Bytes) : Prop :=
  ∃ turns before, lastTurn actions turns talk = some (before, .unanswered output)

end Talk

end TapeMachine.Dialog
