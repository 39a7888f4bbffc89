import TapeMachine.Generator.Code
import TapeMachine.Program.Text

/-!
# Rendering generated code

Generated code is shown as program text or, for those who want to know what it is for, as the trace
of its notes.
-/

namespace TapeMachine.Fragment

/-- A fragment as program text, or the trace of its notes. -/
def render (showsNotes : Bool) (fragment : Fragment) : Bytes :=
  if showsNotes then fragment.trace else Fragment.text fragment

/-- A fragment as optimized program text, or the trace of its notes. -/
def program (showsNotes : Bool) (fragment : Fragment) : Bytes :=
  if showsNotes then fragment.trace else ProgramText.optimize (Fragment.text fragment)

end TapeMachine.Fragment
