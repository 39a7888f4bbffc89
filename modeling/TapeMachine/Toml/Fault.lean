import TapeMachine.Text.Quoted
import TapeMachine.Toml.Value

/-!
# Faults in TOML documents

A fault says which keys were being read when it was found, and for a text with a wrong escape also
how far it could be read.
-/

namespace TapeMachine.Toml

/-- Why a text is no TOML document. -/
structure Fault where
  /-- The keys that were being read, outermost first. -/
  keys : Path := []
  /-- How far a text could be read. -/
  near : Bytes := []
deriving DecidableEq, Repr

namespace Fault

/-- A fault found while another key was being read too. -/
def alsoAt (fault : Fault) (key : Bytes) : Fault :=
  { fault with keys := fault.keys ++ [key] }

/-- A fault found inside the table at a path. -/
def inside (fault : Fault) (path : Path) : Fault :=
  { fault with keys := path ++ fault.keys }

/-- The wording of a fault. -/
def message (fault : Fault) : Bytes :=
  utf8 "not TOML" ++
    (if fault.keys.isEmpty then []
      else utf8 " at key " ++ Quoted.text (Bytes.joinWith (utf8 ".") fault.keys)) ++
    (if fault.near.isEmpty then [] else utf8 " near " ++ Quoted.text fault.near)

end Fault

end TapeMachine.Toml
