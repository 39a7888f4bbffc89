import TapeMachine.Program.Basic

/-!
# Program listings

A listing shows a program as pseudo code, one statement a line, with the bodies of loops indented.
-/

namespace TapeMachine

namespace Listing

/-- A line of a listing. -/
structure Line where
  /-- How many loops it stands in. -/
  depth : Nat
  /-- What it says. -/
  text : Bytes
deriving DecidableEq, Repr

/-- A line as it is written, behind an indentation that all lines share. -/
def Line.render (indent : Bytes) (line : Line) : Bytes :=
  indent ++ (List.replicate line.depth (utf8 "  ")).flatten ++ line.text ++ [Bytes.newline]

/-- A change of `target` by `amount`. Only a positive amount is written as an increase; the
magnitude of a decrease is a 64-bit negation, so the least amount keeps its sign. -/
def change (target : String) (amount : Int64) : Bytes :=
  if 0 < amount then utf8 target ++ utf8 " += " ++ Bytes.ofInt amount.toInt
  else utf8 target ++ utf8 " -= " ++ Bytes.ofInt (-amount).toInt

mutual

/-- The lines of one node that stands in `depth` loops. Operations without a meaning have none. -/
def ofNode (depth : Nat) : Node → List Line
  | ⟨op, amount, body⟩ =>
    match op with
    | .loop =>
      ⟨depth, utf8 "while (st[ix]) \x7b"⟩ :: ofNodes (depth + 1) body ++ [⟨depth, utf8 "\x7d"⟩]
    | .write => [⟨depth, utf8 "putchar(st[ix])"⟩]
    | .read => [⟨depth, utf8 "st[ix] = getchar()"⟩]
    | .move => [⟨depth, change "ix" amount⟩]
    | .add => [⟨depth, change "st[ix]" amount⟩]
    | .clear => [⟨depth, utf8 "st[ix] = 0"⟩]
    | .dump => [⟨depth, utf8 "dump()"⟩]
    -- Programs that have been checked have no such operation.
    | _ => []

/-- The lines of a list of nodes. -/
def ofNodes (depth : Nat) : List Node → List Line
  | [] => []
  | node :: rest => ofNode depth node ++ ofNodes depth rest

end

end Listing

/-- The listing of a program, every line starting with `indent`. -/
def Program.listing (program : Program) (indent : Bytes) : Bytes :=
  (Listing.ofNodes 0 program).flatMap (·.render indent)

end TapeMachine
