import Std.Data.TreeMap
import TapeMachine.Memory

/-!
# The tape

A tape of byte cells that all hold zero at first, growing to the right on demand. Cells are kept in
pages of equal size, and a page is set up when one of its cells is first accessed. A cell that was
never accessed is told apart from one that was and holds zero.

An access is a load or a store. A limit makes every access at or beyond it fail, and so does a lack
of memory. Peeking, which is no access, ignores both.
-/

namespace TapeMachine

/-- The kinds of access to a cell. -/
inductive Access where
  | load
  | store
deriving DecidableEq, Repr

/-- The name of an access in messages. -/
def Access.name : Access → Bytes
  | .load => utf8 "load"
  | .store => utf8 "stor"

/-- An access at or beyond the limit of a tape. -/
structure LimitFault where
  /-- The cell accessed. -/
  address : Nat
  /-- The limit in force. -/
  limit : Nat
  /-- What was tried. -/
  access : Access
deriving DecidableEq, Repr

/-- The wording of a limit fault. -/
def LimitFault.message (fault : LimitFault) : Bytes :=
  utf8 "tape limit " ++ Bytes.ofNat fault.limit ++ utf8 " exceeded by " ++ fault.access.name ++
    utf8 " @" ++ Bytes.ofNat fault.address

/-- Why a cell cannot be accessed. -/
inductive TapeFault where
  /-- The cell is at or beyond the limit. -/
  | limit (fault : LimitFault)
  /-- There is no memory for the cell. -/
  | memory (fault : MemoryFault)
deriving DecidableEq, Repr

/-- The wording of a tape fault. -/
def TapeFault.message : TapeFault → Bytes
  | .limit fault => fault.message
  | .memory fault => fault.message

/-- The cells of a page that have been accessed, by their places in it. -/
abbrev Page := Std.TreeMap Nat UInt8

/-- A tape. -/
structure Tape where
  /-- How many cells a page has. -/
  pageSize : Nat
  /-- A page has at least one cell. -/
  pageSize_pos : 0 < pageSize
  /-- The memory there is for it. -/
  memory : Memory
  /-- The first cell that may not be accessed; zero stands for no limit. -/
  limit : Nat
  /-- The pages that have been set up, by their indices. -/
  pages : Std.TreeMap Nat Page
  /-- How many places the list of pages has. -/
  places : Nat
  /-- One past the last cell ever accessed. -/
  length : Nat

namespace Tape

/-- The page size of a tape that asks for none. -/
def defaultPageSize : Nat :=
  256

/-- A fresh tape. A page size of zero asks for the default one. -/
def fresh (memory : Memory) (pageSize limit : Nat) : Tape :=
  if h : 0 < pageSize then ⟨pageSize, h, memory, limit, ∅, 0, 0⟩
  else ⟨defaultPageSize, by decide, memory, limit, ∅, 0, 0⟩

/-- The same tape with all its cells discarded. -/
def reset (tape : Tape) : Tape :=
  { tape with pages := ∅, places := 0, length := 0 }

/-- The value of a cell that has been accessed. -/
def cell? (tape : Tape) (address : Nat) : Option UInt8 :=
  match tape.pages[address / tape.pageSize]? with
  | some page => page[address % tape.pageSize]?
  | none => none

/-- The value of a cell, without an access to it. -/
def peek (tape : Tape) (address : Nat) : UInt8 :=
  (tape.cell? address).getD 0

/-- How many addresses there are; counting on from the last one starts again at zero. -/
def addressCount : Nat :=
  Word.count

/-- The values of `count` cells from `address` on, without an access to them. -/
def peekRange (tape : Tape) (address count : Nat) : Bytes :=
  (List.range count).map fun i => tape.peek ((address + i) % addressCount)

/-- Why an access fails, if so. The limit comes before the memory. -/
def fault? (tape : Tape) (access : Access) (address : Nat) : Option TapeFault :=
  if tape.limit ≠ 0 ∧ tape.limit ≤ address then some (.limit ⟨address, tape.limit, access⟩)
  else (tape.memory.fault? tape.pageSize tape.places (address / tape.pageSize)).map .memory

/-- Sets a cell and marks it as accessed, whatever the limit. -/
def record (tape : Tape) (address : Nat) (value : UInt8) : Tape :=
  { tape with
    pages := tape.pages.alter (address / tape.pageSize) fun page =>
      some ((page.getD ∅).insert (address % tape.pageSize) value)
    places := max tape.places (address / tape.pageSize + 1)
    length := max tape.length (address + 1) }

/-- Marks a cell as accessed, whatever the limit. -/
def touch (tape : Tape) (address : Nat) : Tape :=
  if (tape.cell? address).isSome then tape else tape.record address 0

/-- Reads a cell. -/
def load (tape : Tape) (address : Nat) : Except TapeFault (UInt8 × Tape) :=
  match tape.fault? .load address with
  | some fault => .error fault
  | none => .ok (tape.peek address, tape.touch address)

/-- Sets a cell. -/
def store (tape : Tape) (address : Nat) (value : UInt8) : Except TapeFault Tape :=
  match tape.fault? .store address with
  | some fault => .error fault
  | none => .ok (tape.record address value)

/-- The cells that have been accessed, with their values, in ascending order. -/
def accessed (tape : Tape) : List (Nat × UInt8) :=
  tape.pages.toList.flatMap fun (index, page) =>
    page.toList.map fun (offset, value) => (index * tape.pageSize + offset, value)

/-- Adds an address to ranges, latest first, that all end before it. -/
def extendRanges (done : List (Nat × Nat)) (address : Nat) : List (Nat × Nat) :=
  match done with
  | (first, last) :: more =>
    if last + 1 = address then (first, address) :: more else (address, address) :: done
  | [] => [(address, address)]

/-- The ranges that an ascending list of addresses falls into, both ends included. -/
def ranges (addresses : List Nat) : List (Nat × Nat) :=
  (addresses.foldl extendRanges []).reverse

end Tape

end TapeMachine
