import Mathlib.Logic.Function.Basic
import TapeMachine.Bytes
import TapeMachine.Register

/-!
# Effects of programs

What a piece of program does is described by its effect: a relation between the snapshot of a
machine from which the piece starts and the ways in which it ends. A piece that runs forever has no
ending. Effects are put together by `Effect.seq` and `Effect.loop`, so that the effect of a program
follows its structure, whatever form the program is given in.

The module introduces:

* `Snapshot`: the cursor, the cells, the bytes still to be read and the bytes written;
* `Ending`: the end of the program, the end of the input, or a cursor that left the tape;
* `Effect.IsFunctional`: an effect has at most one ending; kept by `seq` and `loop`;
* `Effect.Stays`: the cursor is on the tape behind an effect if it was there before; kept by `seq`
  and `loop`;
* `Effect.Refines`: every ending of one effect on the tape is an ending of another one; kept by
  `seq` and `loop`;
* `Effect.loop_countdown`: a loop that counts its cell down ends at zero;
* `Effect.loop_iff_times`: how often the body of such a loop is run.
-/

namespace TapeMachine

/-! ### Integers as bytes -/

/-- Bytes are integers modulo 256. -/
theorem ofInt_emod (n : Int) : UInt8.ofInt (n % 256) = UInt8.ofInt n := by
  simp [UInt8.ofInt]

/-- Wrapping to a word does not change the byte, as 256 divides the number of words. -/
theorem ofInt_wrap (n : Int) : UInt8.ofInt (Word.wrap n) = UInt8.ofInt n := by
  have hmod : Word.wrap n % 256 = n % 256 := by
    have hword : n.bmod 0x10000000000000000 % 0x10000000000000000 = n % 0x10000000000000000 :=
      Int.bmod_emod
    unfold Word.wrap Word.count
    omega
  rw [← ofInt_emod, hmod, ofInt_emod]

/-- The byte of `n` is the remainder of `n`. -/
theorem toNat_ofInt (n : Int) : ((UInt8.ofInt n).toNat : Int) = n % 256 := by
  rw [UInt8.ofInt, UInt8.toNat_ofNat']
  omega

/-- A byte is zero if 256 divides the integer. -/
theorem ofInt_eq_zero_iff {n : Int} : UInt8.ofInt n = 0 ↔ n % 256 = 0 := by
  rw [← UInt8.toNat_inj, ← toNat_ofInt, UInt8.toNat_zero]
  omega

/-- A byte is the byte of its own number. -/
theorem ofInt_toNat (b : UInt8) : UInt8.ofInt b.toNat = b := by
  have hbyte : ((b.toNat : Int) % 2 ^ 8).toNat = b.toNat := by
    have := b.toNat_lt
    omega
  rw [UInt8.ofInt, hbyte, UInt8.ofNat_toNat]

/-- Adding the byte of minus one is subtracting one. -/
theorem add_ofInt_neg_one (v : UInt8) : v + UInt8.ofInt (-1) = v - 1 := by
  have hminus : UInt8.ofInt (-1) = -1 := by decide
  rw [hminus, UInt8.sub_eq_add_neg]

/-- The byte of a difference is the difference of the bytes. -/
theorem ofInt_sub (m n : Int) : UInt8.ofInt (m - n) = UInt8.ofInt m - UInt8.ofInt n := by
  rw [Int.sub_eq_add_neg, UInt8.ofInt_add, UInt8.ofInt_neg, UInt8.sub_eq_add_neg]

/-! ### Snapshots -/

/-- Whether a position is one that the cursor can take. Positions are signed words, so the step to
the right of the last one leads below zero. -/
def OnTape (pos : Int) : Prop :=
  0 ≤ pos ∧ pos ≤ Register.lastPosition

instance (pos : Int) : Decidable (OnTape pos) :=
  inferInstanceAs (Decidable (_ ∧ _))

/-- The first cell is on the tape. -/
theorem onTape_zero : OnTape 0 := by
  decide

/-- What a program can see and change of a machine. -/
@[ext]
structure Snapshot where
  /-- The cell under the cursor. -/
  cursor : Int
  /-- The values of the cells. -/
  cells : Int → UInt8
  /-- The bytes still to be read. -/
  input : Bytes
  /-- The bytes written so far. -/
  output : Bytes

/-- How a piece of program ends. -/
inductive Ending where
  /-- Its end was reached. -/
  | done (s : Snapshot)
  /-- There was nothing left to be read, which ends the whole program. -/
  | outOfInput (s : Snapshot)
  /-- The cursor left the tape. -/
  | offTape

/-- Whether a piece of program ends before its end is reached. -/
def Ending.IsStop : Ending → Prop
  | .done _ => False
  | _ => True

/-- Reaching the end is no stop. -/
@[simp] theorem Ending.not_isStop_done (s : Snapshot) : ¬ (Ending.done s).IsStop := id

/-- Running out of input is a stop. -/
@[simp] theorem Ending.isStop_outOfInput (s : Snapshot) : (Ending.outOfInput s).IsStop := trivial

/-- Leaving the tape is a stop. -/
@[simp] theorem Ending.isStop_offTape : Ending.offTape.IsStop := trivial

/-- Goes on from an ending that is no stop. -/
def Ending.andThen (f : Snapshot → Ending) : Ending → Ending
  | .done s => f s
  | e => e

/-- Behind `done s`, `f` goes on from `s`. -/
@[simp] theorem Ending.andThen_done (f : Snapshot → Ending) (s : Snapshot) :
    (Ending.done s).andThen f = f s := rfl

/-- Going on with nothing changes no ending. -/
@[simp] theorem Ending.andThen_end (e : Ending) : e.andThen .done = e := by
  cases e <;> rfl

/-- What goes on from `e` reaches its end only if `e` is no stop. -/
theorem Ending.andThen_eq_done_iff {f : Snapshot → Ending} {e : Ending} {t : Snapshot} :
    e.andThen f = .done t ↔ ∃ s, e = .done s ∧ f s = .done t := by
  cases e <;> simp [Ending.andThen]

/-- Going on twice is going on once with both. -/
theorem Ending.andThen_andThen (f g : Snapshot → Ending) (e : Ending) :
    (e.andThen f).andThen g = e.andThen fun s => (f s).andThen g := by
  cases e <;> rfl

/-- The next byte of an input that is no control, and what follows it. -/
def nextVisible : Bytes → Option (UInt8 × Bytes)
  | [] => none
  | b :: rest => if b < 0x20 then nextVisible rest else some (b, rest)

namespace Snapshot

/-- The start of a run: a blank tape with the cursor on its first cell. -/
def fresh (input : Bytes) : Snapshot :=
  ⟨0, fun _ => 0, input, []⟩

/-- The value of the cell under the cursor. -/
def here (s : Snapshot) : UInt8 :=
  s.cells s.cursor

/-- Sets a cell. -/
def set (s : Snapshot) (pos : Int) (value : UInt8) : Snapshot :=
  { s with cells := Function.update s.cells pos value }

/-- Sets the cell under the cursor. -/
def put (s : Snapshot) (value : UInt8) : Snapshot :=
  s.set s.cursor value

/-- Takes the cursor to a cell. -/
def goTo (s : Snapshot) (pos : Int) : Snapshot :=
  { s with cursor := pos }

/-- Appends bytes to the output. -/
def emit (s : Snapshot) (bytes : Bytes) : Snapshot :=
  { s with output := s.output ++ bytes }

/-- Moves the cursor. -/
def move (amount : Int) (s : Snapshot) : Ending :=
  if OnTape (s.cursor + amount) then .done (s.goTo (s.cursor + amount)) else .offTape

/-- Adds to the cell under the cursor, modulo 256. -/
def add (amount : Int) (s : Snapshot) : Ending :=
  .done (s.put (s.here + UInt8.ofInt amount))

/-- Writes the cell under the cursor. -/
def write (s : Snapshot) : Ending :=
  .done (s.emit [s.here])

/-- Reads a byte into the cell under the cursor. Controls are skipped. -/
def read (s : Snapshot) : Ending :=
  match nextVisible s.input with
  | none => .outOfInput { s with input := [] }
  | some (b, rest) => .done ({ s with input := rest }.put b)

section Fields

variable (s : Snapshot) (pos : Int) (value : UInt8) (bytes : Bytes)

@[simp] theorem fresh_cells (input : Bytes) : (fresh input).cells pos = 0 := rfl
@[simp] theorem fresh_cursor (input : Bytes) : (fresh input).cursor = 0 := rfl
@[simp] theorem set_cursor : (s.set pos value).cursor = s.cursor := rfl
@[simp] theorem set_input : (s.set pos value).input = s.input := rfl
@[simp] theorem set_output : (s.set pos value).output = s.output := rfl
@[simp] theorem set_cells : (s.set pos value).cells = Function.update s.cells pos value := rfl
@[simp] theorem goTo_cursor : (s.goTo pos).cursor = pos := rfl
@[simp] theorem goTo_cells : (s.goTo pos).cells = s.cells := rfl
@[simp] theorem goTo_input : (s.goTo pos).input = s.input := rfl
@[simp] theorem goTo_output : (s.goTo pos).output = s.output := rfl
@[simp] theorem emit_cursor : (s.emit bytes).cursor = s.cursor := rfl
@[simp] theorem emit_cells : (s.emit bytes).cells = s.cells := rfl
@[simp] theorem emit_input : (s.emit bytes).input = s.input := rfl
@[simp] theorem emit_output : (s.emit bytes).output = s.output ++ bytes := rfl
@[simp] theorem put_cursor : (s.put value).cursor = s.cursor := rfl

/-- A move that stays on the tape takes the cursor there. -/
theorem move_eq {amount : Int} (h : OnTape (s.cursor + amount)) :
    s.move amount = .done (s.goTo (s.cursor + amount)) :=
  if_pos h

/-- What was put is under the cursor. -/
@[simp] theorem here_put : (s.put value).here = value := by
  simp [put, here]

/-- Only the last of two bytes that are put counts. -/
@[simp] theorem put_put (v w : UInt8) : (s.put v).put w = s.put w := by
  simp [put, set]

/-- Putting the byte that is there changes nothing. -/
@[simp] theorem put_here : s.put s.here = s := by
  simp [put, set, here]

/-- A cell holds what it was set to. -/
@[simp] theorem cells_set_self : (s.set pos value).cells pos = value := by
  simp

/-- Only the last of two values of a cell counts. -/
@[simp] theorem set_set (v w : UInt8) : (s.set pos v).set pos w = s.set pos w := by
  simp [set]

/-- Setting a cell to what it holds changes nothing. -/
@[simp] theorem set_cells_self : s.set pos (s.cells pos) = s := by
  simp [set]

/-- Setting the cell under the cursor to what it holds changes nothing. -/
@[simp] theorem set_here_self : s.set s.cursor s.here = s :=
  set_cells_self s s.cursor

@[simp] theorem here_goTo : (s.goTo pos).here = s.cells pos := rfl
@[simp] theorem put_goTo : (s.goTo pos).put value = (s.set pos value).goTo pos := rfl
@[simp] theorem set_goTo (other : Int) :
    (s.goTo pos).set other value = (s.set other value).goTo pos := rfl
@[simp] theorem goTo_goTo (other : Int) : (s.goTo pos).goTo other = s.goTo other := rfl
@[simp] theorem goTo_self : s.goTo s.cursor = s := rfl
@[simp] theorem goTo_emit : (s.emit bytes).goTo pos = (s.goTo pos).emit bytes := rfl

end Fields

variable {s : Snapshot} {pos other : Int} {value : UInt8}

/-- A cell keeps its value when another one is set. -/
theorem cells_set_of_ne (h : other ≠ pos) : (s.set pos value).cells other = s.cells other := by
  simp [h]

/-- Different cells can be set in either order. -/
theorem set_comm (h : pos ≠ other) (v w : UInt8) :
    (s.set pos v).set other w = (s.set other w).set pos v := by
  simp [set, Function.update_comm h]

/-- Setting a cell changes nothing if it has that `value`. -/
theorem set_eq_self (h : s.cells pos = value) : s.set pos value = s := by
  subst h
  exact set_cells_self s pos

end Snapshot

/-- What a piece of program does: the endings it has from a snapshot. -/
abbrev Effect := Snapshot → Ending → Prop

namespace Effect

/-- The effect with one given ending. -/
def of (f : Snapshot → Ending) : Effect :=
  fun s e => f s = e

/-- The effect of no program at all. -/
def skip : Effect :=
  of .done

/-- One effect and then another, unless the first one stops. -/
def seq (a b : Effect) : Effect :=
  fun s e => (∃ t, a s (.done t) ∧ b t e) ∨ (a s e ∧ e.IsStop)

/-- An effect repeated as long as the cell under the cursor is not zero. -/
inductive loop (body : Effect) : Effect
  | exit {s : Snapshot} (hzero : s.here = 0) : loop body s (.done s)
  | pass {s t : Snapshot} {e : Ending} (hcell : s.here ≠ 0) (hbody : body s (.done t))
      (hrest : loop body t e) : loop body s e
  | stop {s : Snapshot} {e : Ending} (hcell : s.here ≠ 0) (hbody : body s e) (hstop : e.IsStop) :
      loop body s e

variable {a b c body : Effect} {s t : Snapshot} {e : Ending}

/-- `of f` has the one ending that `f` tells. -/
@[simp] theorem of_iff {f : Snapshot → Ending} : of f s e ↔ f s = e := Iff.rfl

/-- `skip` ends where it begins. -/
@[simp] theorem skip_iff : skip s e ↔ e = .done s := eq_comm

/-- Two effects one after another, if the first one reaches its end. -/
theorem seq_of_done (ha : a s (.done t)) (hb : b t e) : (a.seq b) s e :=
  Or.inl ⟨t, ha, hb⟩

/-- An effect that stops leaves nothing to the one behind it. -/
theorem seq_of_stop (ha : a s e) (he : e.IsStop) : (a.seq b) s e :=
  Or.inr ⟨ha, he⟩

/-- `skip` can be left out in front of an effect. -/
@[simp] theorem skip_seq : skip.seq a = a := by
  funext s e
  refine propext ⟨?_, fun h => seq_of_done rfl h⟩
  rintro (⟨t, ht, h⟩ | ⟨h, he⟩)
  · cases ht
    exact h
  · cases h
    exact he.elim

/-- `skip` can be left out behind an effect. -/
@[simp] theorem seq_skip : a.seq skip = a := by
  funext s e
  refine propext ⟨?_, fun h => ?_⟩
  · rintro (⟨t, ht, h⟩ | ⟨h, -⟩)
    · cases h
      exact ht
    · exact h
  · cases e with
    | done t => exact seq_of_done h rfl
    | outOfInput t => exact seq_of_stop h trivial
    | offTape => exact seq_of_stop h trivial

/-- It does not matter how effects in a row are grouped. -/
theorem seq_assoc : (a.seq b).seq c = a.seq (b.seq c) := by
  funext s e
  refine propext ⟨?_, ?_⟩
  · rintro (⟨u, ⟨t, ha, hb⟩ | ⟨-, hu⟩, hc⟩ | ⟨⟨t, ha, hb⟩ | ⟨ha, -⟩, he⟩)
    · exact seq_of_done ha (seq_of_done hb hc)
    · exact hu.elim
    · exact seq_of_done ha (seq_of_stop hb he)
    · exact seq_of_stop ha he
  · rintro (⟨t, ha, ⟨u, hb, hc⟩ | ⟨hb, he⟩⟩ | ⟨ha, he⟩)
    · exact seq_of_done (seq_of_done ha hb) hc
    · exact seq_of_stop (seq_of_done ha hb) he
    · exact seq_of_stop (seq_of_stop ha he) he

/-- Two effects one after another reach the end through a snapshot between them. -/
theorem seq_done_iff : (a.seq b) s (.done t) ↔ ∃ u, a s (.done u) ∧ b u (.done t) := by
  simp [seq]

/-! ### Loops -/

/-- A loop on a zero does nothing, and any other one begins with a pass. -/
theorem loop_iff : loop body s e ↔
    (s.here = 0 ∧ e = .done s) ∨ (s.here ≠ 0 ∧ (body.seq (loop body)) s e) := by
  constructor
  · rintro (⟨hzero⟩ | ⟨hcell, hbody, hrest⟩ | ⟨hcell, hbody, hstop⟩)
    · exact Or.inl ⟨hzero, rfl⟩
    · exact Or.inr ⟨hcell, seq_of_done hbody hrest⟩
    · exact Or.inr ⟨hcell, seq_of_stop hbody hstop⟩
  · rintro (⟨hzero, rfl⟩ | ⟨hcell, ⟨t, hbody, hrest⟩ | ⟨hbody, hstop⟩⟩)
    · exact .exit hzero
    · exact .pass hcell hbody hrest
    · exact .stop hcell hbody hstop

/-- A loop on a zero does nothing. -/
theorem loop_of_zero (hzero : s.here = 0) : loop body s e ↔ e = .done s := by
  simp [loop_iff, hzero]

/-- A loop on any other value begins with a pass. -/
theorem loop_of_ne_zero (hcell : s.here ≠ 0) : loop body s e ↔ (body.seq (loop body)) s e := by
  simp [loop_iff (s := s), hcell]

/-- What holds before a loop and is kept by its passes holds behind it, with a zero under the
cursor. -/
theorem loop_invariant (inv : Snapshot → Prop)
    (hpass : ∀ s t, inv s → s.here ≠ 0 → body s (.done t) → inv t)
    (h : loop body s (.done t)) (hs : inv s) : inv t ∧ t.here = 0 := by
  generalize hend : Ending.done t = e at h
  induction h with
  | exit hzero =>
    cases hend
    exact ⟨hs, hzero⟩
  | pass hcell hbody _ ih => exact ih (hpass _ _ hs hcell hbody) hend
  | stop _ _ hstop =>
    subst hend
    exact hstop.elim

/-- A loop whose passes count the cell under the cursor down by one ends when it is zero. -/
theorem loop_countdown_from (f : UInt8 → Snapshot) (hhere : ∀ v, (f v).here = v) {top v : UInt8}
    (hpass : ∀ v, v ≠ 0 → v ≤ top → body (f v) (.done (f (v - 1)))) (hle : v ≤ top) :
    loop body (f v) (.done (f 0)) := by
  -- By induction on the counter as a number, since bytes wrap around.
  generalize hn : v.toNat = n
  induction n generalizing v with
  | zero =>
    obtain rfl : v = 0 := UInt8.toNat_inj.mp hn
    exact .exit (hhere 0)
  | succ n ih =>
    have hv : v ≠ 0 := by
      rintro rfl
      cases hn
    have hnext : (v - 1).toNat = n := by
      rw [UInt8.toNat_sub]
      have hlt := v.toNat_lt
      simp
      omega
    have hle' : v - 1 ≤ top := by
      rw [UInt8.le_iff_toNat_le] at hle ⊢
      omega
    exact .pass (by rwa [hhere]) (hpass v hv hle) (ih hle' hnext)

/-- `loop_countdown_from` for passes that go down from any value. -/
theorem loop_countdown (f : UInt8 → Snapshot) (hhere : ∀ v, (f v).here = v)
    (hpass : ∀ v, v ≠ 0 → body (f v) (.done (f (v - 1)))) (v : UInt8) :
    loop body (f v) (.done (f 0)) :=
  loop_countdown_from f hhere (fun v hv _ => hpass v hv) UInt8.le_rfl

/-! ### Effects with at most one ending -/

/-- An effect with at most one ending from each snapshot. -/
def IsFunctional (a : Effect) : Prop :=
  ∀ ⦃s e e'⦄, a s e → a s e' → e = e'

/-- `of f` has one ending. -/
theorem isFunctional_of (f : Snapshot → Ending) : (of f).IsFunctional :=
  fun _ _ _ h h' => h.symm.trans h'

/-- Behind an effect that reached its end, only the next one matters. -/
theorem IsFunctional.seq_of_done_iff (ha : a.IsFunctional) (h : a s (.done t)) :
    (a.seq b) s e ↔ b t e := by
  refine ⟨?_, seq_of_done h⟩
  rintro (⟨t', ht', he⟩ | ⟨he, hstop⟩)
  · cases ha h ht'
    exact he
  · cases ha h he
    exact hstop.elim

/-- An effect that stops decides how it ends, whatever follows. -/
theorem IsFunctional.seq_of_stop_iff {e' : Ending} (ha : a.IsFunctional) (h : a s e')
    (hstop : e'.IsStop) : (a.seq b) s e ↔ e = e' := by
  constructor
  · rintro (⟨t, ht, -⟩ | ⟨he, -⟩)
    · cases ha h ht
      exact hstop.elim
    · exact ha he h
  · rintro rfl
    exact seq_of_stop h hstop

/-- What has one ending is passed over. -/
theorem of_seq_iff {f : Snapshot → Ending} (h : f s = .done t) : ((of f).seq b) s e ↔ b t e :=
  (isFunctional_of f).seq_of_done_iff h

/-- A move to `pos` on the tape is passed over. -/
theorem move_seq_iff {amount pos : Int} (hpos : s.cursor + amount = pos) (h : OnTape pos) :
    ((of (Snapshot.move amount)).seq b) s e ↔ b (s.goTo pos) e :=
  of_seq_iff (hpos ▸ Snapshot.move_eq s (hpos.symm ▸ h))

/-- An addition is passed over. -/
theorem add_seq_iff {amount : Int} :
    ((of (Snapshot.add amount)).seq b) s e ↔ b (s.put (s.here + UInt8.ofInt amount)) e :=
  of_seq_iff rfl

/-- Two functions one after another. -/
theorem seq_andThen {f g : Snapshot → Ending} (ha : a s (f s))
    (hb : ∀ t, f s = .done t → b t (g t)) : (a.seq b) s ((f s).andThen g) := by
  cases hf : f s with
  | done t =>
    rw [hf] at ha
    exact seq_of_done ha (hb t hf)
  | outOfInput t =>
    rw [hf] at ha
    exact seq_of_stop ha trivial
  | offTape =>
    rw [hf] at ha
    exact seq_of_stop ha trivial

/-- Two effects with at most one ending each have at most one together. -/
theorem IsFunctional.seq (ha : a.IsFunctional) (hb : b.IsFunctional) : (a.seq b).IsFunctional := by
  rintro s e e' (⟨t, hs, ht⟩ | ⟨hs, he⟩) (⟨t', hs', ht'⟩ | ⟨hs', he'⟩)
  · cases ha hs hs'
    exact hb ht ht'
  · cases ha hs hs'
    exact he'.elim
  · cases ha hs hs'
    exact he.elim
  · exact ha hs hs'

/-- A loop has at most one ending if its `body` has. -/
theorem IsFunctional.loop (hbody : body.IsFunctional) : (loop body).IsFunctional := by
  intro s e e' h h'
  induction h with
  | exit hzero => exact ((loop_of_zero hzero).mp h').symm
  | pass hcell hpass _ ih =>
    rcases (loop_of_ne_zero hcell).mp h' with ⟨t', hpass', hrest'⟩ | ⟨hpass', hstop⟩
    · cases hbody hpass hpass'
      exact ih hrest'
    · cases hbody hpass hpass'
      exact hstop.elim
  | stop hcell hpass hstop =>
    rcases (loop_of_ne_zero hcell).mp h' with ⟨t', hpass', -⟩ | ⟨hpass', -⟩
    · cases hbody hpass hpass'
      exact hstop.elim
    · exact hbody hpass hpass'

/-! ### Effects that stay on the tape -/

/-- An effect that ends with the cursor on the tape if it starts with it there. -/
def Stays (a : Effect) : Prop :=
  ∀ ⦃s t⦄, OnTape s.cursor → a s (.done t) → OnTape t.cursor

/-- `skip` stays on the tape. -/
theorem stays_skip : skip.Stays := by
  intro s t hs h
  cases h
  exact hs

/-- Two effects that stay on the tape stay there together. -/
theorem Stays.seq (ha : a.Stays) (hb : b.Stays) : (a.seq b).Stays := by
  intro s t hs h
  obtain ⟨u, hu, ht⟩ := seq_done_iff.mp h
  exact hb (ha hs hu) ht

/-- A loop stays on the tape if its `body` does. -/
theorem Stays.loop (hbody : body.Stays) : (loop body).Stays :=
  fun _ _ hs h => (loop_invariant (fun s => OnTape s.cursor) (fun _ _ hs _ => hbody hs) h hs).1

/-! ### Refinement -/

/-- Whatever ending the first effect has from a cursor on the tape, the second one has too, unless
the cursor leaves the tape. -/
def Refines (a b : Effect) : Prop :=
  ∀ ⦃s e⦄, OnTape s.cursor → e ≠ .offTape → a s e → b s e

/-- Every effect refines itself. -/
theorem Refines.refl (a : Effect) : a.Refines a :=
  fun _ _ _ _ h => h

/-- Refinement is transitive. -/
theorem Refines.trans (hab : a.Refines b) (hbc : b.Refines c) : a.Refines c :=
  fun _ _ hs hne h => hbc hs hne (hab hs hne h)

/-- Both of two effects in a row can be refined, where the first one stays on the tape. -/
theorem Refines.seq {a' b' : Effect} (hstay : a.Stays) (ha : a.Refines a') (hb : b.Refines b') :
    (a.seq b).Refines (a'.seq b') := by
  rintro s e hs hne (⟨t, ht, he⟩ | ⟨he, hstop⟩)
  · exact seq_of_done (ha hs (by simp) ht) (hb (hstay hs ht) hne he)
  · exact seq_of_stop (ha hs hne he) hstop

/-- The `body` of a loop can be refined, where it stays on the tape. -/
theorem Refines.loop {body' : Effect} (hstay : body.Stays) (hbody : body.Refines body') :
    (loop body).Refines (loop body') := by
  intro s e hs hne h
  induction h with
  | exit hzero => exact .exit hzero
  | pass hcell hpass _ ih => exact .pass hcell (hbody hs (by simp) hpass) (ih (hstay hs hpass) hne)
  | stop hcell hpass hstop => exact .stop hcell (hbody hs hne hpass) hstop

/-- Effects one after the other that cannot be told apart where they are run. -/
theorem seq_congr {a' b' : Effect} (ha : ∀ e, a s e ↔ a' s e)
    (hb : ∀ t, a s (.done t) → (b t e ↔ b' t e)) : (a.seq b) s e ↔ (a'.seq b') s e := by
  constructor
  · rintro (⟨t, hfirst, hsecond⟩ | ⟨hfirst, hstop⟩)
    · exact seq_of_done ((ha _).mp hfirst) ((hb t hfirst).mp hsecond)
    · exact seq_of_stop ((ha _).mp hfirst) hstop
  · rintro (⟨t, hfirst, hsecond⟩ | ⟨hfirst, hstop⟩)
    · have hfirst := (ha _).mpr hfirst
      exact seq_of_done hfirst ((hb t hfirst).mpr hsecond)
    · exact seq_of_stop ((ha _).mpr hfirst) hstop

/-- Loops on effects that cannot be told apart while an invariant holds. -/
theorem loop_congr {body' : Effect} (inv : Snapshot → Prop)
    (hbody : ∀ s e, inv s → s.here ≠ 0 → (body s e ↔ body' s e))
    (hinv : ∀ s t, inv s → s.here ≠ 0 → body s (.done t) → inv t) (hs : inv s) :
    loop body s e ↔ loop body' s e := by
  constructor
  · intro h
    induction h with
    | exit hzero => exact .exit hzero
    | pass hcell hpass _ ih =>
      exact .pass hcell ((hbody _ _ hs hcell).mp hpass) (ih (hinv _ _ hs hcell hpass))
    | stop hcell hpass hstop => exact .stop hcell ((hbody _ _ hs hcell).mp hpass) hstop
  · intro h
    induction h with
    | exit hzero => exact .exit hzero
    | pass hcell hpass _ ih =>
      -- The invariant is about the first body, so the pass is carried over before it is used.
      have hpass := (hbody _ _ hs hcell).mpr hpass
      exact .pass hcell hpass (ih (hinv _ _ hs hcell hpass))
    | stop hcell hpass hstop => exact .stop hcell ((hbody _ _ hs hcell).mpr hpass) hstop

/-! ### Passes of loops -/

/-- An effect a number of times. -/
def times (a : Effect) : Nat → Effect
  | 0 => skip
  | n + 1 => a.seq (a.times n)

/-- A number of passes, each of which leads to the next of some snapshots. -/
theorem times_of_done (states : Nat → Snapshot)
    (hpass : ∀ n, a (states (n + 1)) (.done (states n))) (n : Nat) :
    a.times n (states n) (.done (states 0)) := by
  induction n with
  | zero => rfl
  | succ n ih => exact seq_of_done (hpass n) ih

/-- What always reaches its end is passed over. -/
theorem of_done_seq (f : Snapshot → Snapshot) (a : Effect) :
    (of fun s => .done (f s)).seq a = fun s => a (f s) := by
  funext s e
  exact propext (of_seq_iff rfl)

/-- A loop whose first pass leaves a zero makes no other one. -/
theorem loop_iff_of_zero_behind (hcell : s.here ≠ 0) (hzero : ∀ t, a s (.done t) → t.here = 0) :
    loop a s e ↔ a s e := by
  have hexit : (a.seq (loop a)) s e ↔ (a.seq skip) s e :=
    seq_congr (fun _ => Iff.rfl) fun t ht => by rw [loop_of_zero (hzero t ht), skip_iff]
  rw [loop_of_ne_zero hcell, hexit, seq_skip]

/-- A loop whose passes count its cell down makes as many of them as the cell says. -/
theorem loop_iff_times (inv : Snapshot → Prop)
    (hpass : ∀ s t, inv s → a s (.done t) → inv t ∧ t.here = s.here - 1) (hs : inv s) :
    loop a s e ↔ a.times s.here.toNat s e := by
  generalize hn : s.here.toNat = n
  induction n generalizing s with
  | zero =>
    have hzero : s.here = 0 := UInt8.toNat_inj.mp hn
    rw [loop_of_zero hzero, times, skip_iff]
  | succ n ih =>
    have hcell : s.here ≠ 0 := by
      intro hzero
      rw [hzero] at hn
      cases hn
    rw [loop_of_ne_zero hcell, times]
    refine seq_congr (fun _ => Iff.rfl) fun t ht => ?_
    obtain ⟨ht', hcount⟩ := hpass s t hs ht
    refine ih ht' ?_
    -- The cell is not zero, so that counting it down does not wrap around.
    have hone : (1 : UInt8).toNat = 1 := rfl
    have hle : 1 ≤ s.here := UInt8.le_iff_toNat_le.mpr (by omega)
    rw [hcount, UInt8.toNat_sub_of_le _ _ hle]
    omega

end Effect

end TapeMachine
