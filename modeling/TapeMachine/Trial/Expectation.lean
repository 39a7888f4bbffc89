import TapeMachine.Machine.Runner
import TapeMachine.Register

/-!
# Expectations

After a run it can be checked what the cells hold.
-/

namespace TapeMachine

/-- A cell that holds something else than expected. -/
structure Mismatch where
  /-- The cell. -/
  pos : Int
  /-- What it holds. -/
  got : UInt8
  /-- What it was expected to hold. -/
  want : Int
deriving DecidableEq, Repr

/-- The wording of a mismatch. -/
def Mismatch.message (mismatch : Mismatch) : Bytes :=
  Register.role mismatch.pos ++
    utf8 s!" @{mismatch.pos} = {mismatch.got.toNat}, want {mismatch.want}"

/-- The wording of a register that is not clear. -/
def Mismatch.scratchMessage (mismatch : Mismatch) : Bytes :=
  utf8 "scratch not clear: " ++ mismatch.message

namespace Runner

/-- Checks that a cell holds a value. -/
def expectCell (r : Runner) (pos want : Int) : Except Mismatch Unit :=
  let got := r.cell pos
  if (got.toNat : Int) = want then .ok () else .error ⟨pos, got, want⟩

/-- Checks that some cells hold zero. -/
def expectClear (r : Runner) : List Int → Except Mismatch Unit
  | [] => .ok ()
  | pos :: rest =>
    match r.expectCell pos 0 with
    | .ok _ => r.expectClear rest
    | .error mismatch => .error mismatch

/-- Checks that all registers but the given ones hold zero. -/
def expectScratchClear (r : Runner) (except : List Int) : Except Mismatch Unit :=
  let registers := (List.range Register.variableBase.toNat).map Int.ofNat
  r.expectClear (registers.filter fun pos => !except.contains pos)

end Runner

end TapeMachine
