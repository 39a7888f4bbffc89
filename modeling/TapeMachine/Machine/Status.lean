import TapeMachine.Machine.Basic

/-!
# Status dumps

A status dump shows the cursor, the first cells in hexadecimal with a dash for those never accessed,
and every register and variable that is not zero, by its role.
-/

namespace TapeMachine.Machine

/-- How many cells a status dump shows. -/
def statusCells : Nat :=
  20

/-- One column per cell, with a gap in the middle. -/
def statusRow (column : Nat → Bytes) : Bytes :=
  utf8 " ::" ++ ((List.range statusCells).flatMap fun i =>
    (if i = 10 then utf8 " " else []) ++ utf8 " " ++ Bytes.padLeft (byte ' ') 2 (column i)) ++
    [Bytes.newline]

/-- The registers and variables that are not zero. -/
def statusRoles (tape : Tape) : Bytes :=
  let shown := tape.accessed.flatMap fun (i, value) =>
    let role := Register.role i
    if role.isEmpty ∨ value = 0 then []
    else utf8 " " ++ role ++ utf8 "=" ++ Bytes.ofNat value.toNat
  if shown.isEmpty then [] else utf8 " ::" ++ shown ++ [Bytes.newline]

/-- The status of a tape with a cursor. -/
def statusOf (tape : Tape) (cursor : Nat) : Bytes :=
  utf8 " :: ix = " ++ Bytes.ofNat cursor ++ [Bytes.newline] ++
    statusRow Bytes.ofNat ++
    statusRow (fun i => match tape.cell? i with
      | some value => Bytes.hex value.toNat
      | none => utf8 "-") ++
    statusRoles tape

/-- The status of a machine. -/
def status (m : Machine) : Bytes :=
  statusOf m.tape m.cursor

/-- Traces the status line by line, and writes it to the dump. -/
def dumpStatus (m : Machine) : Progress Unit :=
  let text := m.status
  let m :=
    if m.tracing then
      (Bytes.lines (Bytes.dropFinalNewline text)).foldl (fun m line => m.trace (.status line)) m
    else m
  let (written, dump, sinks) := m.dump.write text m.sinks
  let m := { m with dump, sinks }
  match written.fault with
  | some fault => .stop (.output fault) m
  | none => .next () m

end TapeMachine.Machine
