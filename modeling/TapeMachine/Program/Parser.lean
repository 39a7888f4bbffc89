import TapeMachine.Program.Basic

/-!
# Reading program text

Reading goes through two forms. First the square brackets of the text are matched, which yields a
source tree with one leaf per byte and is the only step that can fail. Then the source tree is
condensed to an instruction tree:

- a run of `+` and `-` becomes one addition of its net amount and a run of `<` and `>` one move,
  and a run whose net amount is zero disappears;
- a loop around exactly one `-` clears the cell;
- a loop whose body condenses to nothing disappears;
- all other bytes are comments, and they end a run.
-/

namespace TapeMachine

/-- A source tree: a byte of program text, or a bracketed part of it. -/
inductive Source where
  /-- A byte other than a bracket. -/
  | symbol (b : UInt8)
  /-- The text between two matching brackets. -/
  | loop (body : List Source)

/-- Why a text is no program. -/
inductive ParseFault where
  /-- The bracket at this offset closes no loop. -/
  | unmatchedClose (offset : Nat)
  /-- The bracket at this offset is never closed. -/
  | unmatchedOpen (offset : Nat)
deriving DecidableEq, Repr

/-- The wording of a parse fault. -/
def ParseFault.message : ParseFault → Bytes
  | .unmatchedClose offset => utf8 "parse error @" ++ Bytes.ofNat offset ++ utf8 ": unmatched ]"
  | .unmatchedOpen offset => utf8 "parse error @" ++ Bytes.ofNat offset ++ utf8 ": unmatched ["

namespace Source

/-- A loop that has been opened and not closed yet. -/
structure Pending where
  /-- Where its opening bracket stands. -/
  offset : Nat
  /-- What stands before the bracket in the surrounding list, last first. -/
  before : List Source

/-- Matches brackets from `offset` on. `done` is what the innermost open loop holds so far, last
first, and `pending` are the open loops, innermost first. -/
def matchFrom (offset : Nat) (done : List Source) (pending : List Pending) :
    Bytes → Except ParseFault (List Source)
  | [] =>
    match pending with
    | [] => .ok done.reverse
    -- The innermost open loop is the one that was opened last.
    | inner :: _ => .error (.unmatchedOpen inner.offset)
  | b :: rest =>
    match Bytes.char b with
    | '[' => matchFrom (offset + 1) [] (⟨offset, done⟩ :: pending) rest
    | ']' =>
      match pending with
      | [] => .error (.unmatchedClose offset)
      | inner :: outer => matchFrom (offset + 1) (.loop done.reverse :: inner.before) outer rest
    | _ => matchFrom (offset + 1) (.symbol b :: done) pending rest

/-- The source tree of a text. -/
def ofText (text : Bytes) : Except ParseFault (List Source) :=
  matchFrom 0 [] [] text

end Source

/-- The run of symbols being read, with its net amount so far. -/
inductive Run where
  /-- No run. -/
  | none
  /-- A run of `+` and `-`. -/
  | adding (amount : Int64)
  /-- A run of `<` and `>`. -/
  | moving (amount : Int64)

/-- Puts the node of a finished run in front of `done`; a net amount of zero has no node. -/
def Run.finish (done : List Node) : Run → List Node
  | .none => done
  | .adding amount => if amount = 0 then done else { op := .add, amount } :: done
  | .moving amount => if amount = 0 then done else { op := .move, amount } :: done

/-- Adds `amount` to a run of additions, after finishing any other run. -/
def Run.add (amount : Int64) (done : List Node) : Run → List Node × Run
  | .adding sofar => (done, .adding (sofar + amount))
  | run => (run.finish done, .adding amount)

/-- Adds `amount` to a run of moves, after finishing any other run. -/
def Run.move (amount : Int64) (done : List Node) : Run → List Node × Run
  | .moving sofar => (done, .moving (sofar + amount))
  | run => (run.finish done, .moving amount)

/-- Reads one symbol, given the nodes before it, last first, and the run it may extend. -/
def Run.symbol (b : UInt8) (done : List Node) (run : Run) : List Node × Run :=
  match Bytes.char b with
  | '+' => run.add 1 done
  | '-' => run.add (-1) done
  | '>' => run.move 1 done
  | '<' => run.move (-1) done
  | '.' => ({ op := .write } :: run.finish done, .none)
  | ',' => ({ op := .read } :: run.finish done, .none)
  | '@' => ({ op := .dump } :: run.finish done, .none)
  -- Any other byte is a comment, but it ends the run before it.
  | _ => (run.finish done, .none)

namespace Source

/-- Whether the bracketed text is a single `-`. -/
def isSingleMinus : List Source → Bool
  | [.symbol b] => b == byte '-'
  | _ => false

mutual

/-- Condenses source trees behind the nodes `done`, last first, and the unfinished `run`. -/
def condenseFrom (done : List Node) (run : Run) : List Source → List Node
  | [] => (run.finish done).reverse
  | .symbol b :: rest =>
    let (done, run) := run.symbol b done
    condenseFrom done run rest
  | .loop body :: rest => condenseFrom (loopNodes body ++ run.finish done) .none rest
-- With a number as the measure, the trees of closed texts can be evaluated.
termination_by source => 2 * sizeOf source

/-- The node of a loop, if it has one. -/
def loopNodes (body : List Source) : List Node :=
  if isSingleMinus body then [{ op := .clear }]
  else match condenseFrom [] .none body with
    -- A loop whose body comes to nothing has no node, although it would not end once entered.
    | [] => []
    | nodes => [{ op := .loop, body := nodes }]
termination_by 2 * sizeOf body + 1

end

/-- The instruction tree of a source tree. -/
def condense (source : List Source) : Program :=
  condenseFrom [] .none source

end Source

/-- The instruction tree of a program text. -/
def Program.parse (text : Bytes) : Except ParseFault Program :=
  (Source.ofText text).map Source.condense

end TapeMachine
