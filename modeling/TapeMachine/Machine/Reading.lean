import TapeMachine.Machine.Basic

/-!
# Reading input

The machine reads the next byte of input that is no control, after it has flushed its output, since
a read may wait for somebody who has to see the output first.
-/

namespace TapeMachine

namespace Input

/-- How many bytes some readers hold. -/
def held : List Reader → Nat
  | [] => 0
  | reader :: rest => reader.data.length + held rest

/-- How many bytes are left to be read. -/
def remaining (input : Input) : Nat :=
  held (input.current.toList ++ input.queue)

@[simp] theorem noteByte_current (input : Input) (b : UInt8) :
    (input.noteByte b).current = input.current := by
  unfold noteByte completeLine
  split <;> rfl

@[simp] theorem noteByte_queue (input : Input) (b : UInt8) :
    (input.noteByte b).queue = input.queue := by
  unfold noteByte completeLine
  split <;> rfl

/-- A byte taken from a reader is its first one, and the queue stays. -/
theorem take_ok {input input' : Input} {reader : Reader} {b : UInt8}
    (h : input.take reader = some (.ok b, input')) :
    ∃ data, reader.data = b :: data ∧ input'.current = some { reader with data } ∧
      input'.queue = input.queue := by
  unfold take at h
  split at h
  · next c data hdata =>
    simp only [Option.some.injEq, Prod.mk.injEq, Except.ok.injEq] at h
    obtain ⟨rfl, rfl⟩ := h
    exact ⟨data, hdata, by simp, by simp⟩
  · split at h <;> simp at h

/-- Reading from a queue leaves fewer bytes than the queue held. -/
theorem readFrom_remaining {b : UInt8} (queue : List Reader) : ∀ {input input' : Input},
    input.readFrom queue = (.ok b, input') →
      input'.remaining < held queue := by
  induction queue with
  | nil => intro input input' h; simp [readFrom] at h
  | cons reader queue ih =>
    intro input input' h
    unfold readFrom at h
    simp only at h
    split at h
    · next result inner htake =>
      simp only [Prod.mk.injEq] at h
      obtain ⟨rfl, rfl⟩ := h
      obtain ⟨data, hdata, hcurrent, _⟩ := take_ok htake
      simp [remaining, held, hcurrent, hdata]
    · exact Nat.lt_of_lt_of_le (ih h) (by simp [held])

/-- Every byte read leaves one less. -/
theorem readByte_remaining {input input' : Input} {b : UInt8}
    (h : input.readByte = (.ok b, input')) : input'.remaining < input.remaining := by
  unfold readByte at h
  split at h
  · next hcurrent =>
    have := readFrom_remaining _ h
    simpa [remaining, hcurrent] using this
  · next reader hcurrent =>
    split at h
    · next result htake =>
      subst h
      obtain ⟨data, hdata, hcurrent', hqueue⟩ := take_ok htake
      simp [remaining, held, hcurrent, hcurrent', hqueue, hdata]
    · have := readFrom_remaining _ h
      simp only [remaining, hcurrent, Option.toList_some, List.singleton_append, held] at this ⊢
      omega

end Input

namespace Machine

/-- Reads the next byte that is no control. -/
def readVisible (m : Machine) : Progress UInt8 :=
  match _h : m.input.readByte with
  | (.error fault, input) => .stop (.input fault) { m with input }
  | (.ok b, input) =>
    if b < 0x20 then ({ m with input }.trace (.skipped b)).readVisible
    else .next b ({ m with input }.trace (.read b))
termination_by m.input.remaining
decreasing_by
  have : ({ m with input }.trace (.skipped b)).input = input := by
    unfold trace; split <;> rfl
  rw [this]
  exact Input.readByte_remaining _h

/-- Reads a byte into the cell under the cursor. -/
def read (m : Machine) : Progress Unit :=
  let (fault, output, sinks) := m.output.flush m.sinks
  let m := { m with output, sinks }
  match fault with
  | some fault => .stop (.output fault) m
  | none =>
    match m.readVisible with
    | .stop cause m => .stop cause m
    | .next b m => m.store b

end Machine

end TapeMachine
