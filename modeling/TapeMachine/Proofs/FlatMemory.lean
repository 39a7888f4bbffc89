import Mathlib.Data.Finset.Lattice.Fold
import Mathlib.Order.Lattice.Nat
import TapeMachine.Proofs.View

/-!
# The tape as a flat memory

Seen from outside, pages do not exist: a tape answers every sequence of requests like a memory that
maps each address to a byte and remembers which addresses have been accessed.

The module introduces:

* `Tape.Request`, `Tape.Reply`: what can be asked of a tape, and what it answers;
* `Tape.serve`, `Tape.replies`: how a tape answers one request and a sequence of them;
* `FlatMemory`: the memory without pages;
* `Tape.Implements`: a tape holds what a flat memory holds; kept by every request;
* `Tape.replies_eq_flatMemory`: a tape answers like the flat memory, whatever its page size.
-/

namespace TapeMachine

namespace Tape

/-- What can be asked of a tape. -/
inductive Request where
  /-- The value of a cell, which counts as accessed from then on. -/
  | load (address : Nat)
  /-- To set a cell, which counts as accessed from then on. -/
  | store (address : Nat) (value : UInt8)
  /-- The value of a cell, and whether it was accessed. -/
  | peek (address : Nat)
  /-- The values of some cells in a row. -/
  | peekRange (address count : Nat)
  /-- To replace the limit. -/
  | setLimit (limit : Nat)
  /-- To discard all cells. -/
  | reset
deriving DecidableEq, Repr

/-- What a tape answers. -/
inductive Reply where
  /-- The value loaded. -/
  | loaded (value : UInt8)
  /-- The request was carried out. -/
  | done
  /-- The value peeked at, and whether the cell was accessed. -/
  | peeked (value : UInt8) (seen : Bool)
  /-- The values peeked at. -/
  | peekedRange (values : Bytes)
  /-- The cell cannot be accessed. -/
  | refused (fault : TapeFault)
deriving DecidableEq, Repr

/-- Answers a request. A request that is refused changes nothing. -/
def serve (tape : Tape) : Request → Reply × Tape
  | .load address =>
    match tape.load address with
    | .ok (value, tape) => (.loaded value, tape)
    | .error fault => (.refused fault, tape)
  | .store address value =>
    match tape.store address value with
    | .ok tape => (.done, tape)
    | .error fault => (.refused fault, tape)
  | .peek address => (.peeked (tape.peek address) (tape.cell? address).isSome, tape)
  | .peekRange address count => (.peekedRange (tape.peekRange address count), tape)
  | .setLimit limit => (.done, { tape with limit })
  | .reset => (.done, tape.reset)

/-- The answers to requests one after another, each with the length of the tape after it. -/
def replies (tape : Tape) : List Request → List (Reply × Nat)
  | [] => []
  | request :: rest =>
    let (reply, tape) := tape.serve request
    (reply, tape.length) :: tape.replies rest

end Tape

/-- A memory without pages. -/
structure FlatMemory where
  /-- The value of every cell. -/
  cells : Nat → UInt8
  /-- The cells that have been accessed. -/
  accessed : Finset Nat
  /-- The first cell that may not be accessed; zero stands for no limit. -/
  limit : Nat

namespace FlatMemory

/-- A memory of cells that hold zero and were never accessed. -/
def fresh (limit : Nat) : FlatMemory :=
  ⟨fun _ => 0, ∅, limit⟩

/-- One past the last cell that has been accessed. -/
def length (flat : FlatMemory) : Nat :=
  flat.accessed.sup (· + 1)

/-- Sets a cell, which counts as accessed from then on. -/
def set (flat : FlatMemory) (address : Nat) (value : UInt8) : FlatMemory :=
  { flat with
    cells := Function.update flat.cells address value
    accessed := insert address flat.accessed }

/-- Gives the outcome of an access unless the limit forbids it. -/
def attempt (flat : FlatMemory) (access : Access) (address : Nat) (reply : Tape.Reply)
    (after : FlatMemory) : Tape.Reply × FlatMemory :=
  if flat.limit ≠ 0 ∧ flat.limit ≤ address then
    (.refused (.limit ⟨address, flat.limit, access⟩), flat)
  else (reply, after)

/-- Answers a request. -/
def serve (flat : FlatMemory) : Tape.Request → Tape.Reply × FlatMemory
  | .load address =>
    flat.attempt .load address (.loaded (flat.cells address))
      (flat.set address (flat.cells address))
  | .store address value => flat.attempt .store address .done (flat.set address value)
  | .peek address => (.peeked (flat.cells address) (decide (address ∈ flat.accessed)), flat)
  | .peekRange address count =>
    (.peekedRange ((List.range count).map fun i => flat.cells ((address + i) % Word.count)), flat)
  | .setLimit limit => (.done, { flat with limit })
  | .reset => (.done, fresh flat.limit)

/-- The answers to requests one after another, each with the length of the memory after it. -/
def replies (flat : FlatMemory) : List Tape.Request → List (Tape.Reply × Nat)
  | [] => []
  | request :: rest =>
    let (reply, flat) := flat.serve request
    (reply, flat.length) :: flat.replies rest

@[simp] theorem length_fresh (limit : Nat) : (fresh limit).length = 0 := rfl

/-- A store makes the memory reach its `address`. -/
@[simp] theorem length_set (flat : FlatMemory) (address : Nat) (value : UInt8) :
    (flat.set address value).length = max flat.length (address + 1) := by
  rw [length, set, Finset.sup_insert, length]
  exact max_comm _ _

end FlatMemory

namespace Tape

/-- A tape holds what a flat memory holds. -/
structure Implements (tape : Tape) (flat : FlatMemory) : Prop where
  /-- The pages hold the cells that have been accessed. -/
  cell? : ∀ a, tape.cell? a = if a ∈ flat.accessed then some (flat.cells a) else none
  /-- Every other cell holds zero. -/
  blank : ∀ a, a ∉ flat.accessed → flat.cells a = 0
  /-- The limits agree. -/
  limit : tape.limit = flat.limit
  /-- The lengths agree. -/
  length : tape.length = flat.length

variable {tape : Tape} {flat : FlatMemory}

/-- A fresh tape has the `limit` that it was given. -/
@[simp] theorem fresh_limit (memory : Memory) (pageSize limit : Nat) :
    (fresh memory pageSize limit).limit = limit := by
  rw [fresh]
  split <;> rfl

/-- A fresh tape has no pages. -/
@[simp] theorem fresh_length (memory : Memory) (pageSize limit : Nat) :
    (fresh memory pageSize limit).length = 0 := by
  rw [fresh]
  split <;> rfl

/-- No cell of a fresh tape is backed. -/
@[simp] theorem cell?_fresh (memory : Memory) (pageSize limit a : Nat) :
    (fresh memory pageSize limit).cell? a = none := by
  rw [fresh]
  split <;> simp [Tape.cell?]

/-- No cell of a tape that was reset is backed. -/
@[simp] theorem cell?_reset (tape : Tape) (a : Nat) : tape.reset.cell? a = none := by
  simp [Tape.cell?, reset]

/-- Gives the outcome of an access unless it fails. -/
def attempt (tape : Tape) (access : Access) (address : Nat) (reply : Reply) (after : Tape) :
    Reply × Tape :=
  match tape.fault? access address with
  | some fault => (.refused fault, tape)
  | none => (reply, after)

/-- A load answers with the cell and backs it, if it is allowed. -/
theorem serve_load (tape : Tape) (a : Nat) :
    tape.serve (.load a) = tape.attempt .load a (.loaded (tape.peek a)) (tape.touch a) := by
  rw [serve, load, attempt]
  cases tape.fault? .load a <;> rfl

/-- A store records the `value`, if it is allowed. -/
theorem serve_store (tape : Tape) (a : Nat) (value : UInt8) :
    tape.serve (.store a value) = tape.attempt .store a .done (tape.record a value) := by
  rw [serve, store, attempt]
  cases tape.fault? .store a <;> rfl

/-- An access is refused because of the limit exactly at the limit and beyond, whatever memory there
is, and then nothing changes. -/
theorem attempt_eq_limit_iff (tape : Tape) (access : Access) (a : Nat) {reply : Reply}
    {after : Tape} (hreply : ∀ fault, reply ≠ .refused fault) :
    tape.attempt access a reply after = (.refused (.limit ⟨a, tape.limit, access⟩), tape) ↔
      tape.limit ≠ 0 ∧ tape.limit ≤ a := by
  rw [attempt, fault?]
  by_cases hlimit : tape.limit ≠ 0 ∧ tape.limit ≤ a
  · simp [hlimit]
  · rw [if_neg hlimit]
    cases tape.memory.fault? tape.pageSize tape.places (a / tape.pageSize) with
    | none => simp [hlimit, hreply]
    | some fault => simp [hlimit]

/-- A fresh tape implements fresh memory. -/
theorem implements_fresh (memory : Memory) (pageSize limit : Nat) :
    (fresh memory pageSize limit).Implements (.fresh limit) where
  cell? a := by simp [FlatMemory.fresh]
  blank _ _ := rfl
  limit := fresh_limit memory pageSize limit
  length := by simp

namespace Implements

/-- The cells of a tape are those of the memory it implements. -/
theorem peek (h : tape.Implements flat) (a : Nat) : tape.peek a = flat.cells a := by
  rw [Tape.peek, h.cell?]
  split
  · rfl
  · next ha => exact (h.blank a ha).symm

/-- The cells that are backed are on pages that were accessed. -/
theorem isSome_cell? (h : tape.Implements flat) (a : Nat) :
    (tape.cell? a).isSome = decide (a ∈ flat.accessed) := by
  rw [h.cell?]
  split <;> simp [*]

/-- To record a `value` is to set it in the memory. -/
theorem record (h : tape.Implements flat) (a : Nat) (value : UInt8) :
    (tape.record a value).Implements (flat.set a value) where
  cell? b := by
    rw [cell?_record, h.cell?]
    by_cases hb : b = a
    · simp [FlatMemory.set, hb]
    · simp [FlatMemory.set, hb]
  blank b hb := by
    simp only [FlatMemory.set, Finset.mem_insert, not_or] at hb
    simpa [FlatMemory.set, hb.1] using h.blank b hb.2
  limit := h.limit
  length := by simp [Tape.record, h.length]

/-- Accessing a cell without setting it is setting it to the value it has. -/
theorem touch (h : tape.Implements flat) (a : Nat) :
    (tape.touch a).Implements (flat.set a (flat.cells a)) := by
  rw [Tape.touch, h.isSome_cell?]
  by_cases ha : a ∈ flat.accessed
  · -- The cell was accessed before, so its access changes neither the cells nor the length.
    have hset : flat.set a (flat.cells a) = flat := by
      simp [FlatMemory.set, ha]
    simpa [ha, hset] using h
  · rw [h.blank a ha]
    simpa [ha] using h.record a 0

/-- A tape carries out an access, or refuses it because of the limit, like the flat memory, unless
there is no memory for it. -/
theorem attempt (h : tape.Implements flat) {access : Access} {a : Nat} {reply : Reply}
    {after : Tape} {after' : FlatMemory} (hafter : after.Implements after')
    (hmemory : ∀ fault, (tape.attempt access a reply after).1 ≠ .refused (.memory fault)) :
    (tape.attempt access a reply after).1 = (flat.attempt access a reply after').1 ∧
      (tape.attempt access a reply after).2.Implements (flat.attempt access a reply after').2 := by
  simp only [Tape.attempt, FlatMemory.attempt, fault?, h.limit] at hmemory ⊢
  by_cases hlimit : flat.limit ≠ 0 ∧ flat.limit ≤ a
  · rw [if_pos hlimit, if_pos hlimit]
    exact ⟨rfl, h⟩
  · rw [if_neg hlimit] at hmemory
    rw [if_neg hlimit, if_neg hlimit]
    cases hfault : tape.memory.fault? tape.pageSize tape.places (a / tape.pageSize) with
    | none => exact ⟨rfl, hafter⟩
    | some fault => exact absurd (by rw [hfault]; rfl) (hmemory fault)

/-- A tape answers a request like the flat memory, and holds what it holds afterwards, unless there
is no memory for it. -/
theorem serve (h : tape.Implements flat) (request : Request)
    (hmemory : ∀ fault, (tape.serve request).1 ≠ .refused (.memory fault)) :
    (tape.serve request).1 = (flat.serve request).1 ∧
      (tape.serve request).2.Implements (flat.serve request).2 := by
  cases request with
  | load a =>
    rw [serve_load, h.peek] at hmemory ⊢
    exact h.attempt (h.touch a) hmemory
  | store a value =>
    rw [serve_store] at hmemory ⊢
    exact h.attempt (h.record a value) hmemory
  | peek a => exact ⟨by simp [Tape.serve, FlatMemory.serve, h.peek, h.isSome_cell?], h⟩
  | peekRange a count =>
    exact ⟨by simp [Tape.serve, FlatMemory.serve, peekRange, h.peek, addressCount], h⟩
  | setLimit limit => exact ⟨rfl, h.cell?, h.blank, rfl, h.length⟩
  | reset => exact ⟨rfl, by simp [Tape.serve, FlatMemory.serve, FlatMemory.fresh],
      fun _ _ => rfl, h.limit, rfl⟩

/-- A tape answers a sequence of requests like the flat memory, unless there is no memory for
one. -/
theorem replies (requests : List Request) : ∀ {tape : Tape} {flat : FlatMemory},
    tape.Implements flat →
      (∀ fault length, (.refused (.memory fault), length) ∉ tape.replies requests) →
        tape.replies requests = flat.replies requests := by
  induction requests with
  | nil =>
    intro tape flat _ _
    rfl
  | cons request rest ih =>
    intro tape flat h hmemory
    obtain ⟨hreply, hafter⟩ := h.serve request fun fault heq =>
      hmemory fault (tape.serve request).2.length (by simp [Tape.replies, heq])
    have hrest := ih hafter fun fault length hmem =>
      hmemory fault length (List.mem_cons_of_mem _ hmem)
    simp only [Tape.replies, FlatMemory.replies, hreply, hafter.length, hrest]

end Implements

/-- A tape answers all `requests` like a `FlatMemory`, unless by `hmemory` there is no memory for
one: so pages of any `pageSize` give the same replies. An access is refused because of the limit
exactly at the limit and beyond, and then nothing changes. -/
theorem replies_eq_flatMemory (memory : Memory) (pageSize limit : Nat) (requests : List Request)
    (hmemory : ∀ fault length, (.refused (.memory fault), length) ∉
      (fresh memory pageSize limit).replies requests) :
    (fresh memory pageSize limit).replies requests = (FlatMemory.fresh limit).replies requests ∧
      (∀ otherSize, (∀ fault length, (.refused (.memory fault), length) ∉
          (fresh memory otherSize limit).replies requests) →
        (fresh memory otherSize limit).replies requests =
          (fresh memory pageSize limit).replies requests) ∧
      ∀ (tape : Tape) (a : Nat),
        (tape.serve (.load a) = (.refused (.limit ⟨a, tape.limit, .load⟩), tape) ↔
          tape.limit ≠ 0 ∧ tape.limit ≤ a) ∧
        ∀ value, tape.serve (.store a value) = (.refused (.limit ⟨a, tape.limit, .store⟩), tape) ↔
          tape.limit ≠ 0 ∧ tape.limit ≤ a := by
  have hreplies := Implements.replies requests (implements_fresh memory pageSize limit) hmemory
  refine ⟨hreplies, fun otherSize hother => ?_, fun tape a => ⟨?_, fun value => ?_⟩⟩
  · rw [hreplies]
    exact Implements.replies requests (implements_fresh memory otherSize limit) hother
  · rw [serve_load]
    exact tape.attempt_eq_limit_iff .load a (by simp)
  · rw [serve_store]
    exact tape.attempt_eq_limit_iff .store a (by simp)

/-- Two cells in pages far apart, a limit below them, a range across the last address, and a reset.
-/
theorem replies_eq_flatMemory_across_pages :
    let requests : List Request := [.store 5 7, .load 3000, .setLimit 6, .store 6 1, .peek 3000,
      .peekRange (Word.count - 1) 7, .reset, .peek 5]
    let answers : List (Reply × Nat) := [(.done, 6), (.loaded 0, 3001), (.done, 3001),
      (.refused (.limit ⟨6, 6, .store⟩), 3001), (.peeked 0 true, 3001),
      (.peekedRange [0, 0, 0, 0, 0, 0, 7], 3001), (.done, 0), (.peeked 0 false, 0)]
    (fresh .addressable 2 0).replies requests = answers ∧
      (FlatMemory.fresh 0).replies requests = answers := by
  intro requests answers
  have hanswers : (fresh .addressable 2 0).replies requests = answers := by decide
  have hmemory : ∀ fault length, (.refused (.memory fault), length) ∉
      (fresh .addressable 2 0).replies requests := by
    simp [hanswers, answers]
  exact ⟨hanswers, (replies_eq_flatMemory .addressable 2 0 requests hmemory).1.symm.trans hanswers⟩

end Tape

end TapeMachine
