import TapeMachine.Machine.Reading
import TapeMachine.Machine.Status

/-!
# Running programs

`exec` runs a list of nodes. Its fuel bounds how many nodes and loop passes it may follow one after
another, so that it always ends; a run that uses its fuel up is told apart from one that stops.
-/

namespace TapeMachine

/-- How running some nodes ended. -/
inductive Outcome where
  /-- The end of the nodes was reached. -/
  | finished (machine : Machine)
  /-- The run stopped before. -/
  | stopped (cause : Stop) (machine : Machine)
  /-- The fuel was used up. -/
  | unfinished (machine : Machine)

namespace Machine

/-- Carries out a node that is no loop. -/
def perform (m : Machine) (node : Node) : Progress Unit :=
  match node.op with
  | .write => m.write
  | .read => m.read
  | .move => m.move node.amount
  | .add => m.add node.amount
  | .clear => m.store 0
  | .dump => m.dumpStatus
  -- A loop is none of these; any other code has no meaning.
  | op => .stop (.unknownOp op) m

/-- Runs nodes one after another. A loop tests its cell, begins a pass, runs its body and starts
again. -/
def exec (patience : Patience) : Nat → List Node → Machine → Outcome
  -- Fuel bounds the depth of the recursion, which each node and each pass makes one deeper.
  | 0, _, m => .unfinished m
  | _ + 1, [], m => .finished m
  | fuel + 1, node :: rest, m =>
    if node.op = .loop then
      match m.load with
      | .stop cause m => .stopped cause m
      | .next value m =>
        if value = 0 then exec patience fuel rest m
        else match m.tick patience with
          | .stop cause m => .stopped cause m
          | .next _ m =>
            match exec patience fuel node.body m with
            -- The same node comes again, as the body may have left any value in the cell.
            | .finished m => exec patience fuel (node :: rest) m
            | outcome => outcome
    else match m.perform node with
      | .stop cause m => .stopped cause m
      | .next _ m => exec patience fuel rest m

end Machine

end TapeMachine
