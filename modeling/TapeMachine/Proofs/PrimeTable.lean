import Mathlib.Data.Nat.Prime.Basic
import Mathlib.Tactic.IntervalCases
import TapeMachine.Demo
import TapeMachine.Generator.Render
import TapeMachine.Proofs.DecimalOutput

/-!
# The table of primes

A number is examined by trying all divisors from its half downwards, and it is printed if none of
them divides it. Two loops are nested in this. The inner one, over the divisors, is ended by a flag
that is cleared inside a condition; the outer one counts the numbers that are left. As everything is
done with the same registers, each part is described by the cells that it may change and by what it
leaves in those that matter to the other parts.

No number may be zero as a byte. Its half would be zero, by which no division ends.

The module introduces:

* `Generator.PrimeTable.tried_cells`: what trying a divisor leaves;
* `Generator.PrimeTable.loop_searched`: the search for a divisor ends;
  `Generator.PrimeTable.searched_prime_ne_zero_iff`: what it finds;
* `Generator.PrimeTable.examined_prime_ne_zero_iff`: exactly the primes have no divisor up to their
  half;
* `Generator.PrimeTable.passed_output`, `Generator.PrimeTable.iterate_passed`: what is printed for a
  number, and for some numbers in a row;
* `Generator.PrimeTable.exec_primes`: the primes are printed, and no other numbers.
-/

namespace TapeMachine.Generator.PrimeTable

/-! ### Cells -/

/-- The number that is examined. -/
abbrev number : Int := 56
/-- The remainder of the number modulo the divisor. -/
abbrev remainder : Int := 54
/-- The divisor that is tried. -/
abbrev divisor : Int := 36
/-- Whether another divisor is to be tried. -/
abbrev goOn : Int := 52
/-- Whether no divisor has been found. -/
abbrev prime : Int := 60
/-- How many numbers are left. -/
abbrev count : Int := 34

variable {T : Trust} {s t : Snapshot}

private theorem usable_number : Register.Usable number := by decide
private theorem usable_remainder : Register.Usable remainder := by decide
private theorem usable_divisor : Register.Usable divisor := by decide
private theorem usable_goOn : Register.Usable goOn := by decide
private theorem usable_prime : Register.Usable prime := by decide
private theorem usable_count : Register.Usable count := by decide
private theorem testable_remainder : Testable remainder := by decide
private theorem testable_divisor : Testable divisor := by decide
private theorem testable_goOn : Testable goOn := by decide
private theorem testable_prime : Testable prime := by decide

/-! ### Trying a divisor -/

/-- The search is ended if only one is left as a divisor. -/
def bounded (s : Snapshot) : Snapshot :=
  (tested (if s.cells divisor = 1 then s.set goOn 0 else s) 0).goTo divisor

/-- A copy of the number has been divided by the divisor. -/
def reduced (s : Snapshot) : Snapshot :=
  let s := (s.set remainder (s.cells number)).set Register.copy 0
  ((divided remainder divisor (s.goTo remainder)).set remainder
    (s.cells remainder % s.cells divisor)).goTo remainder

/-- The search is ended without a prime if the division leaves nothing. -/
def judged (s : Snapshot) : Snapshot :=
  (tested (if s.cells remainder = 0 then (s.set prime 0).set goOn 0 else s) 0).goTo remainder

/-- The divisor has been checked. -/
def checked (s : Snapshot) : Snapshot :=
  judged (reduced s)

/-- A divisor has been tried. -/
def tried (s : Snapshot) : Snapshot :=
  let s := guarded goOn divisor checked (bounded s)
  (s.set divisor (s.cells divisor - 1)).goTo goOn

/-- The cells that are changed when the number is divided. -/
abbrev divisionCells : List Int :=
  [remainder, Register.divQuotient, Register.divRemainder, Register.divLoop, Register.addSub,
    Register.copy, Register.zeroTest, Register.flag, Register.borrow]

/-- The cells that are changed when a divisor is tried. -/
abbrev searchCells : List Int :=
  divisor :: goOn :: prime :: divisionCells

/-- The registers of tests are among the cells that the search uses. -/
private theorem tests_subset_searchCells :
    [Register.zeroTest, Register.copy, Register.flag] ⊆ searchCells := by
  decide

/-- The search does not go on with a divisor of one. -/
theorem bounded_goOn (s : Snapshot) :
    (bounded s).cells goOn = if s.cells divisor = 1 then 0 else s.cells goOn := by
  rw [bounded, Snapshot.goTo_cells, tested_cells testable_goOn]
  split
  · rw [Snapshot.cells_set_self]
  · rfl

/-- Looking at the divisor uses `goOn` and the registers of a test. -/
theorem writes_bounded (s : Snapshot) : Writes [goOn, Register.copy, Register.zeroTest,
    Register.flag] [] s (bounded s) := by
  unfold bounded
  split
  · exact (((Writes.refl _ s).set (by decide) 0).tested (by decide) 0).goTo _
  · exact ((Writes.refl _ s).tested (by decide) 0).goTo _

/-- Taking the remainder uses the cells of a division. -/
theorem writes_reduced (s : Snapshot) : Writes divisionCells [] s (reduced s) := by
  have hcopied := ((Writes.refl divisionCells s).set (show remainder ∈ _ by decide)
    (s.cells number)).set (show Register.copy ∈ _ by decide) 0
  have hdivided : Divides remainder divisor (· % ·) _ (reduced s) :=
    divides_divided (by decide) rfl (UInt8.toNat_mod ..)
  exact (hcopied.goTo remainder).trans hdivided.spares.writes

/-- The remainder is that of the number by the divisor. -/
theorem reduced_remainder (s : Snapshot) :
    (reduced s).cells remainder = s.cells number % s.cells divisor := by
  simp (disch := decide) only [reduced, Snapshot.goTo_cells, Snapshot.cells_set_self,
    Snapshot.cells_set_of_ne]

/-- Looking at the remainder uses `prime`, `goOn` and the registers of a test. -/
theorem writes_judged (s : Snapshot) : Writes [prime, goOn, Register.copy, Register.zeroTest,
    Register.flag] [] s (judged s) := by
  unfold judged
  split
  · exact ((((Writes.refl _ s).set (by decide) 0).set (by decide) 0).tested (by decide) 0).goTo _
  · exact ((Writes.refl _ s).tested (by decide) 0).goTo _

/-- If the remainder is zero, the number is no prime and the search ends. -/
theorem judged_cells (s : Snapshot) :
    (judged s).cells goOn = (if s.cells remainder = 0 then 0 else s.cells goOn) ∧
    (judged s).cells prime = (if s.cells remainder = 0 then 0 else s.cells prime) := by
  rw [judged, Snapshot.goTo_cells, tested_cells testable_goOn, tested_cells testable_prime]
  split
  · rw [Snapshot.cells_set_self, Snapshot.cells_set_of_ne (by decide), Snapshot.cells_set_self]
    exact ⟨rfl, rfl⟩
  · exact ⟨rfl, rfl⟩

/-- Checking a divisor uses what its parts use. -/
theorem writes_checked (s : Snapshot) :
    Writes (goOn :: prime :: divisionCells) [] s (checked s) :=
  ((writes_reduced s).mono (by decide)).trans ((writes_judged _).mono (by decide))

/-- If the divisor divides the number, the number is no prime and the search ends. -/
theorem checked_cells (s : Snapshot) :
    (checked s).cells goOn =
      (if s.cells number % s.cells divisor = 0 then 0 else s.cells goOn) ∧
    (checked s).cells prime =
      (if s.cells number % s.cells divisor = 0 then 0 else s.cells prime) := by
  obtain ⟨hgoOn, hprime⟩ := judged_cells (reduced s)
  rw [reduced_remainder, (writes_reduced s).cells_eq _ (by decide)] at hgoOn hprime
  exact ⟨hgoOn, hprime⟩

/-- The steps that look at the divisor. -/
private theorem realizes_bounded (pos : Int) : Realizes T pos (sequence [decAt divisor,
    ifZero divisor (clearAt goOn), incAt divisor]) divisor fun s => .done (bounded s) := by
  have hclear := Realizes.ifZero_done usable_divisor.onTape (usable_divisor.isOpen T)
    testable_divisor (Realizes.clearAt _ (usable_goOn.isOpen T)) (fun s => s.set goOn 0) fun s => by
      simp only [Snapshot.set_goTo, Snapshot.goTo_goTo, tested_set testable_goOn, tested_set_flag]
  refine ((Realizes.decAt pos (usable_divisor.isOpen T)).cons (hclear.cons ((Realizes.incAt _
    (usable_divisor.isOpen T)).cons (.nil _)))).congr fun s _ => ?_
  have hone : s.cells divisor - 1 = 0 ↔ s.cells divisor = 1 := by
    rw [UInt8.sub_eq_iff_eq_add, UInt8.zero_add]
  have hne : divisor ≠ goOn := by decide
  -- The divisor has been counted down for the test only.
  simp only [Ending.andThen_done, Snapshot.set_goTo, Snapshot.goTo_cells, Snapshot.cells_set_self,
    hone, Snapshot.goTo_goTo, bounded]
  split
  · simp only [tested_goTo, tested_cells testable_divisor, tested_set testable_divisor,
      Snapshot.cells_set_of_ne hne, Snapshot.cells_set_self, Snapshot.set_comm hne.symm,
      Snapshot.set_set, UInt8.sub_add_cancel, Snapshot.set_cells_self]
  · simp only [tested_goTo, tested_cells testable_divisor, tested_set testable_divisor,
      Snapshot.cells_set_self, Snapshot.set_set, UInt8.sub_add_cancel, Snapshot.set_cells_self]

/-- The division ends as the divisor is not zero. -/
private theorem realizes_judged : RealizesOn T (fun s => s.cells divisor ≠ 0) Register.flag
    (sequence [copy remainder number, moveTo remainder, modCell divisor,
      ifZero remainder (sequence [clearAt prime, clearAt goOn])]) remainder
    fun s => .done (checked s) := by
  -- From the inside out: what a divisor does, the test of the remainder, the remainder.
  have hclear : Realizes T Register.flag (sequence [clearAt prime, clearAt goOn]) goOn
      fun s => .done (((s.set prime 0).set goOn 0).goTo goOn) :=
    (Realizes.clearAt _ (usable_prime.isOpen T)).cons ((Realizes.clearAt _
      (usable_goOn.isOpen T)).cons (.nil _))
  have hjudge := Realizes.ifZero_done usable_remainder.onTape (usable_remainder.isOpen T)
    testable_remainder hclear (fun s => (s.set prime 0).set goOn 0) fun s => by
      simp only [Snapshot.set_goTo, Snapshot.goTo_goTo, tested_set testable_goOn,
        tested_set testable_prime, tested_set_flag]
  have hreduce := RealizesOn.cons_on (p := fun s => s.cells divisor ≠ 0)
    (Realizes.moveTo Register.flag usable_remainder.onTape) ((RealizesOn.modCell
      (usable_remainder.isOpen T) (by decide) (usable_divisor.isOpen T) (by decide)).cons
        (hjudge.cons (.nil _))) (by
          rintro s _ hk ⟨⟩
          exact hk)
  refine (RealizesOn.cons_on (p := fun s => s.cells divisor ≠ 0) (Realizes.copy (by decide)
    (usable_remainder.isOpen T) (usable_number.isOpen T) (by decide) (by decide) (by decide))
      hreduce ?_).congr fun s _ hk => ⟨hk, ?_⟩
  · rintro s _ hk ⟨⟩
    rwa [Snapshot.cells_set_of_ne (by decide), Snapshot.cells_set_of_ne (by decide)]
  · rfl

/-- A pass of the search tries a divisor. -/
private theorem realizes_tried : RealizesOn T (fun s => s.cells divisor ≠ 0) goOn
    (sequence [sequence [
      decAt divisor,
      ifZero divisor (clearAt goOn),
      incAt divisor,
      ifNonzero goOn (sequence [
        copy remainder number,
        moveTo remainder,
        modCell divisor,
        ifZero remainder (sequence [clearAt prime, clearAt goOn])]),
      decAt divisor], moveTo goOn]) goOn fun s => .done (tried s) := by
  have hjudge := RealizesOn.ifNonzero_guarded usable_divisor.onTape (usable_goOn.isOpen T)
    testable_goOn (realizes_judged (T := T))
  have hsteps := RealizesOn.sequence_append ((realizes_bounded goOn).on fun s =>
    s.cells divisor ≠ 0) (hjudge.cons ((Realizes.decAt _ (usable_divisor.isOpen T)).cons
      (.nil _))) (by
        rintro s _ hk ⟨⟩ -
        -- The divisor is the same again after it was tested for being one.
        rwa [tested_cells testable_divisor, (writes_bounded s).cells_eq _ (by decide)])
  exact hsteps.cons ((Realizes.moveTo _ usable_goOn.onTape).cons (.nil _))

/-- What trying a divisor changes. -/
theorem writes_tried (s : Snapshot) : Writes searchCells [] s (tried s) := by
  have hguarded := writes_guarded goOn divisor checked tests_subset_searchCells
    ((writes_checked (tested (bounded s) 1)).mono (by decide))
  rw [ite_self] at hguarded
  exact ((((writes_bounded s).mono (by decide)).trans hguarded).set (by decide) _).goTo _

/-- Another divisor is tried behind one that does not divide the number, down to two. -/
theorem tried_cells (hgoOn : s.cells goOn ≠ 0) :
    (tried s).cells divisor = s.cells divisor - 1 ∧
    (tried s).cells goOn = (if s.cells divisor = 1 then 0 else
      if s.cells number % s.cells divisor = 0 then 0 else s.cells goOn) ∧
    (tried s).cells prime = (if s.cells divisor = 1 then s.cells prime else
      if s.cells number % s.cells divisor = 0 then 0 else s.cells prime) := by
  have hkept {cell : Int} (hcell : cell ∉ [goOn, Register.copy, Register.zeroTest,
      Register.flag]) (htest : Testable cell) (v : UInt8) :
      (tested (bounded s) v).cells cell = s.cells cell := by
    rw [tested_cells htest, (writes_bounded s).cells_eq cell hcell]
  have hbounded := bounded_goOn s
  by_cases hone : s.cells divisor = 1
  · -- The search has been ended before the division.
    rw [if_pos hone] at hbounded
    have htried : tried s =
        ((tested (bounded s) 0).set divisor (s.cells divisor - 1)).goTo goOn := by
      simp only [tried, guarded, hbounded, if_true, Snapshot.goTo_cells, Snapshot.set_goTo,
        Snapshot.goTo_goTo, hkept (show divisor ∉ _ by decide) testable_divisor]
    simp (disch := decide) only [htried, hone, if_true, Snapshot.goTo_cells,
      Snapshot.cells_set_self, Snapshot.cells_set_of_ne, tested_cells testable_goOn, hbounded,
      hkept (show prime ∉ _ by decide) testable_prime, true_and]
  · -- The check is made behind the test of the flag, which changes none of these cells.
    rw [if_neg hone] at hbounded
    obtain ⟨hgoOn', hprime⟩ := checked_cells (tested (bounded s) 1)
    have hdivisor := (writes_checked (tested (bounded s) 1)).cells_eq divisor (by decide)
    simp only [hkept (show number ∉ _ by decide) (by decide),
      hkept (show divisor ∉ _ by decide) testable_divisor,
      hkept (show prime ∉ _ by decide) testable_prime, tested_cells testable_goOn, hbounded]
      at hgoOn' hprime hdivisor
    have htried : tried s = (((checked (tested (bounded s) 1)).set Register.flag 0).set divisor
        (s.cells divisor - 1)).goTo goOn := by
      simp (disch := decide) only [tried, guarded, hbounded, hgoOn, if_false, Snapshot.goTo_cells,
        Snapshot.set_goTo, Snapshot.goTo_goTo, Snapshot.cells_set_of_ne, hdivisor]
    simp (disch := decide) only [htried, hone, if_false, Snapshot.goTo_cells,
      Snapshot.cells_set_self, Snapshot.cells_set_of_ne, hgoOn', hprime, true_and]

/-! ### The search for a divisor -/

/-- The search has been made, with so many divisors to be tried at most. -/
def searched : Nat → Snapshot → Snapshot
  | 0, s => s
  | v + 1, s => if s.cells goOn = 0 then s else searched v (tried s)

/-- A search that has ended does nothing. -/
theorem searched_of_ended (v : Nat) (h : s.cells goOn = 0) : searched v s = s := by
  cases v with
  | zero => rfl
  | succ v => rw [searched, if_pos h]

/-- A search uses the same cells in all its passes. -/
theorem writes_searched (v : Nat) : ∀ s : Snapshot, Writes searchCells [] s (searched v s) := by
  induction v with
  | zero => exact fun s => Writes.refl _ s
  | succ v ih =>
    intro s
    rw [searched]
    split
    · exact Writes.refl _ s
    · exact (writes_tried s).trans (ih (tried s))

/-- A byte that is not zero can be decremented as a number. -/
private theorem toNat_sub_one {v : UInt8} (hv : v ≠ 0) : (v - 1).toNat = v.toNat - 1 := by
  have hone : (1 : UInt8) ≤ v := by
    rw [UInt8.le_iff_toNat_le]
    exact Nat.pos_of_ne_zero fun h => hv (UInt8.toNat_inj.mp h)
  exact UInt8.toNat_sub_of_le v 1 hone

/-- The divisor that is tried next, if any, is one less, and not zero. -/
theorem tried_divisor (hgoOn : s.cells goOn ≠ 0) (hdivisor : s.cells divisor ≠ 0) :
    ((tried s).cells divisor).toNat = (s.cells divisor).toNat - 1 ∧
      ((tried s).cells goOn ≠ 0 → (tried s).cells divisor ≠ 0) := by
  obtain ⟨hnext, hmore, -⟩ := tried_cells hgoOn
  refine ⟨hnext ▸ toNat_sub_one hdivisor, fun hsome hzero => hsome ?_⟩
  rw [hnext, UInt8.sub_eq_iff_eq_add, UInt8.zero_add] at hzero
  rw [hmore, if_pos hzero]

/-- The loop of the search ends, as there is no divisor below one. -/
theorem loop_searched (v : Nat) : ∀ {s : Snapshot}, s.cursor = goOn →
    (s.cells divisor).toNat = v → (s.cells goOn ≠ 0 → s.cells divisor ≠ 0) →
      Effect.loop (Effect.of fun s => .done (tried s)) s (.done (searched v s)) := by
  induction v with
  | zero =>
    intro s hcursor hv hsome
    have hzero : s.cells goOn = 0 := by
      by_contra hgoOn
      exact hsome hgoOn (UInt8.toNat_inj.mp hv)
    exact .exit (by rw [Snapshot.here, hcursor, hzero])
  | succ v ih =>
    intro s hcursor hv hsome
    rw [searched]
    split
    · next hzero => exact .exit (by rw [Snapshot.here, hcursor, hzero])
    · next hgoOn =>
      -- The divisor goes down by one, so the induction is on its value.
      obtain ⟨hnext, hsome'⟩ := tried_divisor hgoOn (hsome hgoOn)
      refine .pass (by rwa [Snapshot.here, hcursor]) rfl (ih rfl ?_ hsome')
      omega

/-- The steps that try all divisors leave `searched`, where the first divisor is not zero. -/
private theorem realizes_tryDivisors (pos : Int) : RealizesOn T (fun s => s.cells divisor ≠ 0) pos
    (Demo.tryDivisors number remainder divisor goOn prime) goOn
    fun s => .done (searched (s.cells divisor).toNat (s.goTo goOn)) := by
  have hhere {s : Snapshot} (hs : s.cursor = goOn) : s.here = s.cells goOn := by
    rw [Snapshot.here, hs]
  refine RealizesOn.loopOn_of_kept (p := fun s => s.cells divisor ≠ 0)
    (q := fun s => s.cells goOn ≠ 0 ∧ s.cells divisor ≠ 0) pos usable_goOn.onTape
    (realizes_tried.congr fun s _ hs => ⟨hs.2, rfl⟩)
    (g := fun s => .done (searched (s.cells divisor).toNat s)) ?_ fun s hs hp =>
      ⟨fun hmore => ⟨hhere hs.cursor ▸ hmore, hp⟩, loop_searched _ hs.cursor rfl fun _ => hp⟩
  -- If another pass is made, the divisor before was not one.
  rintro s _ - ⟨hgoOn, hdivisor⟩ ⟨⟩ hmore
  rw [hhere rfl] at hmore
  exact ⟨hmore, (tried_divisor hgoOn hdivisor).2 hmore⟩

/-- A number is taken for a prime exactly if nothing from two to the first divisor divides it. -/
theorem searched_prime_ne_zero_iff (v : Nat) : ∀ {s : Snapshot}, s.cells goOn ≠ 0 →
    s.cells prime ≠ 0 → (s.cells divisor).toNat = v → ((searched v s).cells prime ≠ 0 ↔
      ∀ k, 2 ≤ k → k ≤ v → ¬ k ∣ (s.cells number).toNat) := by
  induction v with
  | zero =>
    intro s _ hprime _
    exact iff_of_true hprime fun k hk hle => by omega
  | succ v ih =>
    intro s hgoOn hprime hv
    have hdvd : s.cells number % s.cells divisor = 0 ↔ v + 1 ∣ (s.cells number).toNat := by
      rw [← UInt8.toNat_inj, UInt8.toNat_mod, hv]
      exact Nat.dvd_iff_mod_eq_zero.symm
    have hone : s.cells divisor = 1 ↔ v = 0 := by
      rw [← UInt8.toNat_inj, hv]
      exact Nat.add_eq_right
    obtain ⟨-, hmore, hstill⟩ := tried_cells hgoOn
    rw [searched, if_neg hgoOn]
    by_cases hzero : v = 0
    · -- One is not tried.
      rw [if_pos (hone.mpr hzero)] at hmore hstill
      rw [searched_of_ended v hmore, hstill]
      exact iff_of_true hprime fun k hk hle => by omega
    rw [if_neg (mt hone.mp hzero)] at hmore hstill
    by_cases hdivides : v + 1 ∣ (s.cells number).toNat
    · -- A divisor has been found, which ends the search.
      rw [if_pos (hdvd.mpr hdivides)] at hmore hstill
      rw [searched_of_ended v hmore, hstill]
      exact iff_of_false (fun h => h rfl) fun h => h (v + 1) (by omega) le_rfl hdivides
    · -- The search goes on, and the divisor that has been tried is none of the number.
      rw [if_neg (mt hdvd.mp hdivides)] at hmore hstill
      have hnext := (tried_divisor hgoOn fun h => by simp [h] at hv).1
      rw [ih (hmore ▸ hgoOn) (hstill ▸ hprime) (by omega), (writes_tried s).cells_eq _ (by decide)]
      constructor
      · intro h k hk hle
        obtain rfl | hlt := hle.eq_or_lt
        · exact hdivides
        · exact h k hk (by omega)
      · exact fun h k hk hle => h k hk (by omega)

/-! ### Examining a number -/

/-- Half the number is the first divisor. -/
def halved (s : Snapshot) : Snapshot :=
  let s := ((s.set divisor (s.cells number)).set Register.copy 0).goTo divisor
  ((divided divisor Register.divDivisor (s.set Register.divDivisor 2)).set divisor
    (s.cells divisor / 2)).goTo divisor

/-- The search can begin. -/
def begun (s : Snapshot) : Snapshot :=
  (((halved s).set prime 1).set goOn 1).goTo goOn

/-- The number has been examined. -/
def examined (s : Snapshot) : Snapshot :=
  searched ((begun s).cells divisor).toNat (begun s)

/-- The cells that are changed when a number is examined. -/
abbrev examinedCells : List Int :=
  Register.divDivisor :: searchCells

/-- Halving the number uses the cells of the examination. -/
theorem writes_halved (s : Snapshot) : Writes examinedCells [] s (halved s) := by
  have hcopied := (((Writes.refl examinedCells s).set (show divisor ∈ _ by decide)
    (s.cells number)).set (show Register.copy ∈ _ by decide) 0).goTo divisor
  have hdivided : Divides divisor Register.divDivisor (· / ·) _ (halved s) :=
    divides_divided (by decide) rfl (UInt8.toNat_div ..)
  exact (hcopied.set (by decide) 2).trans (hdivided.spares.writes.mono (by decide))

/-- Beginning the examination uses its cells. -/
theorem writes_begun (s : Snapshot) : Writes examinedCells [] s (begun s) :=
  (((writes_halved s).set (by decide) 1).set (by decide) 1).goTo _

/-- The examination begins with half the number as the divisor, and with the number as a prime. -/
theorem begun_cells (s : Snapshot) : (begun s).cells divisor = s.cells number / 2 ∧
    (begun s).cells prime = 1 ∧ (begun s).cells goOn = 1 := by
  simp (disch := decide) only [begun, halved, Snapshot.goTo_cells, Snapshot.cells_set_self,
    Snapshot.cells_set_of_ne, and_self]

/-- The steps that begin the examination. -/
private theorem realizes_begun (pos : Int) (htape : OnTape pos) : Realizes T pos (sequence [
    copy divisor number, moveTo divisor, div 2, setAt prime 1, setAt goOn 1]) goOn
    fun s => .done (begun s) := by
  have hcopy : Realizes T pos (copy divisor number) pos _ :=
    Realizes.copy htape (usable_divisor.isOpen T) (usable_number.isOpen T) (by decide) (by decide)
      (by decide)
  have hmove : Realizes T pos (moveTo divisor) divisor _ :=
    Realizes.moveTo pos usable_divisor.onTape
  have hhalve : Realizes T divisor (div 2) divisor _ :=
    Realizes.div (usable_divisor.isOpen T) (by decide) (by decide) (T.adds_of_small _ (by decide))
      (by decide)
  have hprime : Realizes T divisor (setAt prime 1) prime _ :=
    Realizes.setAt divisor (usable_prime.isOpen T) (T.adds_one prime)
  have hgoOn : Realizes T prime (setAt goOn 1) goOn _ :=
    Realizes.setAt prime (usable_goOn.isOpen T) (T.adds_one goOn)
  exact hcopy.cons (hmove.cons (hhalve.cons (hprime.cons (hgoOn.cons (.nil goOn)))))

/-- An examination uses its cells and writes nothing. -/
theorem writes_examined (s : Snapshot) : Writes examinedCells [] s (examined s) :=
  (writes_begun s).trans ((writes_searched _ _).mono (by decide))

/-- A number from two on is a prime exactly if nothing from two to its half divides it. -/
theorem prime_iff_forall_not_dvd {n : Nat} (hn : 2 ≤ n) :
    n.Prime ↔ ∀ k, 2 ≤ k → k ≤ n / 2 → ¬ k ∣ n := by
  rw [Nat.prime_def_lt']
  refine ⟨fun h k hk hle => h.2 k hk (by omega), fun h => ⟨hn, fun k hk hlt hdvd => ?_⟩⟩
  obtain ⟨m, rfl⟩ := hdvd
  -- The number is more than the divisor, so it is twice the divisor at least.
  have hm : 2 ≤ m := by
    by_contra hm
    interval_cases m <;> omega
  have hle : k ≤ k * m / 2 := by
    rw [Nat.le_div_iff_mul_le (by decide)]
    exact Nat.mul_le_mul_left k hm
  exact h k hk hle (Dvd.intro m rfl)

/-- Exactly the primes are found to be primes. -/
theorem examined_prime_ne_zero_iff (hnumber : 2 ≤ (s.cells number).toNat) :
    (examined s).cells prime ≠ 0 ↔ (s.cells number).toNat.Prime := by
  obtain ⟨hhalf, hprime, hgoOn⟩ := begun_cells s
  have hkept := (writes_begun s).cells_eq number (by decide)
  rw [examined, searched_prime_ne_zero_iff _ (by rw [hgoOn]; decide) (by rw [hprime]; decide) rfl,
    hhalf, hkept, UInt8.toNat_div, prime_iff_forall_not_dvd hnumber]
  rfl

/-! ### Printing the primes -/

/-- A number on a line of its own. -/
def line (n : Nat) : Bytes :=
  Bytes.ofNat n ++ [Bytes.newline]

/-- The number has been printed. -/
def printedLine (s : Snapshot) : Snapshot :=
  (((printedDecimal number s).goTo Register.flag).set Register.put Bytes.newline).emit
    [Bytes.newline]

/-- The number has been examined, and printed if it is a prime. -/
def printed (s : Snapshot) : Snapshot :=
  guarded prime goOn printedLine (examined s)

/-- It is the turn of the next number. -/
def passed (s : Snapshot) : Snapshot :=
  let s := (printed s).set number ((printed s).cells number + 1)
  (s.set count (s.cells count - 1)).goTo count

/-- The cells that are changed when a number is examined and printed. -/
abbrev passCells : List Int :=
  examinedCells ++ decimalCells

/-- A number is written if it was found to be a prime. -/
theorem writes_printed (s : Snapshot) : Writes passCells
    (if (examined s).cells prime = 0 then [] else line (s.cells number).toNat) s (printed s) := by
  have hline : Writes passCells (line (s.cells number).toNat) (tested (examined s) 1)
      (printedLine (tested (examined s) 1)) := by
    have hdecimal := writes_printedDecimal number (tested (examined s) 1)
    rw [tested_cells (by decide), (writes_examined s).cells_eq _ (by decide)] at hdecimal
    exact (((hdecimal.mono (by decide)).goTo _).set (by decide) _).emit _
  exact ((writes_examined s).mono (by decide)).trans (writes_guarded prime goOn printedLine
    (by decide) hline)

/-- A pass ends on the count. -/
theorem passed_cursor (s : Snapshot) : (passed s).cursor = count :=
  rfl

/-- A pass takes one from the count. -/
theorem passed_count (s : Snapshot) : (passed s).cells count = s.cells count - 1 := by
  simp (disch := decide) only [passed, Snapshot.goTo_cells, Snapshot.cells_set_self,
    Snapshot.cells_set_of_ne, (writes_printed s).cells_eq]

/-- A pass goes on to the next number. -/
theorem passed_number (s : Snapshot) : (passed s).cells number = s.cells number + 1 := by
  simp (disch := decide) only [passed, Snapshot.goTo_cells, Snapshot.cells_set_self,
    Snapshot.cells_set_of_ne, (writes_printed s).cells_eq]

/-- In its turn a number is printed exactly if it is a prime. -/
theorem passed_output (hnumber : 2 ≤ (s.cells number).toNat) : (passed s).output =
    s.output ++ if (s.cells number).toNat.Prime then line (s.cells number).toNat else [] := by
  have houtput := (writes_printed s).output_eq
  simp only [← examined_prime_ne_zero_iff hnumber, ite_not]
  exact houtput

/-- After some turns, the primes among the numbers so far have been printed. -/
theorem iterate_passed {first : Nat} (hfirst : 2 ≤ first) (hs : (s.cells number).toNat = first)
    {k : Nat} (hk : first + k ≤ 256) :
    ((passed^[k] s).cells number).toNat = (first + k) % 256 ∧ (passed^[k] s).output =
      s.output ++ ((List.range' first k).filter Nat.Prime).flatMap line := by
  induction k with
  | zero =>
    have hlt := (s.cells number).toNat_lt
    refine ⟨?_, (List.append_nil _).symm⟩
    rw [Function.iterate_zero_apply]
    omega
  | succ k ih =>
    obtain ⟨hnumber, houtput⟩ := ih (by omega)
    -- The number wraps around only behind the last pass.
    rw [Nat.mod_eq_of_lt (by omega)] at hnumber
    rw [Function.iterate_succ_apply', passed_number, passed_output (by omega), hnumber, houtput]
    refine ⟨by rw [UInt8.toNat_add, hnumber]; rfl, ?_⟩
    rw [List.append_assoc, List.range'_1_concat, List.filter_append, List.flatMap_append]
    by_cases hprime : (first + k).Prime
    · simp [hprime]
    · simp [hprime]

/-! ### The whole table -/

/-- Whether the numbers that are left are bytes from two on. -/
def NumbersLeft (s : Snapshot) : Prop :=
  2 ≤ (s.cells number).toNat ∧ (s.cells number).toNat + (s.cells count).toNat ≤ 256

/-- As long as there are numbers left, the next one is a byte. -/
theorem NumbersLeft.passed (h : NumbersLeft s) (hcount : s.cells count ≠ 0)
    (hmore : (passed s).cells count ≠ 0) : NumbersLeft (passed s) := by
  obtain ⟨hnumber, hle⟩ := h
  have hleft : 0 < (s.cells count - 1).toNat := by
    rw [passed_count] at hmore
    exact Nat.pos_of_ne_zero fun h => hmore (UInt8.toNat_inj.mp h)
  have hnext : (s.cells number + 1).toNat = ((s.cells number).toNat + 1) % 256 :=
    UInt8.toNat_add ..
  rw [NumbersLeft, passed_number, passed_count, hnext]
  rw [toNat_sub_one hcount] at hleft ⊢
  omega

/-- What is done with each number. -/
abbrev turn : Gen Fragment :=
  sequence [
    copy divisor number,
    moveTo divisor,
    div 2,
    setAt prime 1,
    setAt goOn 1,
    Demo.tryDivisors number remainder divisor goOn prime,
    ifNonzero prime (sequence [writeDecimal number, writeChar Bytes.newline]),
    incAt number]

section Realized

variable (hput : T.Relied Register.putPad) (hadds : T.Adds Register.digitWork 48)
include hput hadds

/-- The steps that print a prime. -/
private theorem realizes_printedLine : Realizes T Register.flag
    (sequence [writeDecimal number, writeChar Bytes.newline]) Register.flag
    fun s => .done (printedLine s) := by
  have hflag : OnTape Register.flag := by decide
  have hdecimal := RealizesOn.writeDecimal (T := T) hflag (usable_number.isOpen T) (by decide)
    (by decide) hadds
  have hnewline : Realizes T Register.flag (writeChar Bytes.newline) Register.flag fun s =>
      .done ((s.set Register.put Bytes.newline).emit [Bytes.newline]) :=
    (RealizesOn.writeChar hflag Bytes.newline).congr fun s hs _ => ⟨hs.pad hput, rfl⟩
  exact (hdecimal.cons (hnewline.cons (.nil _))).congr fun s hs _ => ⟨hs.pad hput, rfl⟩

/-- A pass of the loop examines a number that is at least two. -/
private theorem realizes_passed : RealizesOn T (fun s => 2 ≤ (s.cells number).toNat) count
    (sequence [sequence [turn, decAt count], moveTo count]) count fun s => .done (passed s) := by
  have hprint := Realizes.ifNonzero_guarded usable_goOn.onTape (usable_prime.isOpen T)
    testable_prime (realizes_printedLine hput hadds)
  have hturn := RealizesOn.sequence_append ((realizes_begun (T := T) count
    usable_count.onTape).on fun s => 2 ≤ (s.cells number).toNat) ((realizes_tryDivisors goOn).cons
      (hprint.cons ((Realizes.incAt _ (usable_number.isOpen T)).cons (.nil _)))) (by
        -- Half of a number that is at least two is not zero.
        rintro s _ hnumber ⟨⟩ hzero
        rw [(begun_cells s).1, ← UInt8.toNat_inj, UInt8.toNat_div] at hzero
        change (s.cells number).toNat / 2 = 0 at hzero
        omega)
  exact ((hturn.cons ((Realizes.decAt _ (usable_count.isOpen T)).cons (.nil _))).cons
    ((Realizes.moveTo _ usable_count.onTape).cons (.nil _))).congr fun s _ hs => ⟨hs, rfl⟩

/-- The loop examines as many numbers as are left. -/
private theorem realizes_turns (pos : Int) : RealizesOn T NumbersLeft pos (repeatBy count turn)
    count fun s => .done (passed^[(s.cells count).toNat] (s.goTo count)) := by
  have hhere {s : Snapshot} (hs : s.cursor = count) : s.here = s.cells count := by
    rw [Snapshot.here, hs]
  refine RealizesOn.loopOn_of_kept (p := NumbersLeft)
    (q := fun s => s.cells count ≠ 0 ∧ NumbersLeft s) pos usable_count.onTape
    ((realizes_passed hput hadds).congr fun s _ hs => ⟨hs.2.1, rfl⟩)
    (g := fun s => .done (passed^[(s.cells count).toNat] s)) ?_ fun s hs hp =>
      ⟨fun hmore => ⟨hhere hs.cursor ▸ hmore, hp⟩,
        Effect.loop_iterate passed_cursor passed_count hs.cursor⟩
  -- If another pass is made, there is a number left for it.
  rintro s _ - ⟨hcount, hleft⟩ ⟨⟩ hmore
  rw [hhere (passed_cursor s)] at hmore
  exact ⟨hmore, hleft.passed hcount hmore⟩

end Realized

/-- The table has been printed. -/
def tabulated (limit : Int) (s : Snapshot) : Snapshot :=
  passed^[(UInt8.ofInt (limit - 1)).toNat]
    (((s.set number 2).set count (UInt8.ofInt (limit - 1))).goTo count)

/-- The table ends on the count. -/
theorem tabulated_cursor (limit : Int) (s : Snapshot) : (tabulated limit s).cursor = count := by
  rw [tabulated]
  cases (UInt8.ofInt (limit - 1)).toNat with
  | zero => rfl
  | succ k => rw [Function.iterate_succ_apply', passed_cursor]

/-- The lines of the table of the primes up to a number. -/
def table (top : Nat) : Bytes :=
  ((List.range (top + 1)).filter Nat.Prime).flatMap line

/-- The table up to a number has lines for the primes from two on. -/
theorem table_eq (k : Nat) :
    table (k + 1) = ((List.range' 2 k).filter Nat.Prime).flatMap line := by
  rw [table, List.range_eq_range', List.range'_succ, List.range'_succ,
    List.filter_cons_of_neg (by simp [Nat.not_prime_zero]),
    List.filter_cons_of_neg (by simp [Nat.not_prime_one])]

section Limit

variable {limit : Int} (hbyte : limit % 256 ≠ 0)
include hbyte

/-- There are numbers left at the start, unless the `limit` is zero as a byte. -/
private theorem numbersLeft_at_start (s : Snapshot) : NumbersLeft
    (((s.set number 2).set count (UInt8.ofInt (limit - 1))).goTo count) := by
  have hcount := toNat_ofInt (limit - 1)
  rw [NumbersLeft, Snapshot.goTo_cells, Snapshot.cells_set_self,
    Snapshot.cells_set_of_ne (by decide), Snapshot.cells_set_self]
  change 2 ≤ 2 ∧ 2 + (UInt8.ofInt (limit - 1)).toNat ≤ 256
  omega

/-- What the table writes are the primes up to the `limit`, as a byte. -/
theorem tabulated_output (s : Snapshot) :
    (tabulated limit s).output = s.output ++ table ((limit - 1) % 256 + 1).toNat := by
  have hcount := toNat_ofInt (limit - 1)
  have htop : ((limit - 1) % 256 + 1).toNat = (UInt8.ofInt (limit - 1)).toNat + 1 := by omega
  rw [htop, table_eq]
  refine (iterate_passed le_rfl ?_ ?_).2
  · rw [Snapshot.goTo_cells, Snapshot.cells_set_of_ne (by decide), Snapshot.cells_set_self]
    rfl
  · omega

/-- The pads that are relied on. -/
abbrev tablePads : List Int :=
  [Register.putPad, Register.digitPad, count + 1]

/-- The steps of the demonstration leave `tabulated limit`. -/
private theorem realizes_primes (hlimit : 2 ≤ limit) :
    Realizes (.inPads (· ∈ tablePads)) 0 (Demo.primes limit) count
      fun s => .done (tabulated limit s) := by
  have hnumber : Realizes (.inPads (· ∈ tablePads)) 0 (setAt number 2) number _ :=
    Realizes.setAt 0 (usable_number.isOpen _) (Trust.adds_of_small _ _ (by decide))
  have hcount : Realizes (.inPads (· ∈ tablePads)) number (setAt count (limit - 1)) count _ :=
    Realizes.setAt number (usable_count.isOpen _) (Trust.adds_inPads (by decide) (by decide) _)
  have hputPad : (Trust.inPads (· ∈ tablePads)).Relied Register.putPad :=
    show Register.putPad ∈ tablePads by decide
  have hturns := realizes_turns hputPad (Trust.adds_inPads (by decide) (by decide) 48) count
  have hsteps := RealizesOn.sequence_append (hnumber.cons (hcount.cons (.nil count)))
    (hturns.cons (.nil count)) (by
      rintro s _ - ⟨⟩
      exact numbersLeft_at_start hbyte s)
  have hprimes : Demo.primes limit =
      sequence [setAt number 2, setAt count (limit - 1), repeatBy count turn] :=
    if_neg (by omega)
  rw [hprimes]
  exact Realizes.congr hsteps fun s _ => rfl

end Limit

/-- In a new session, `Demo.primes` can be emitted for every `limit` from two on that is not zero as
a byte. Its `program` ends, and it prints the `table` of the primes up to the number of the same
byte, which are those up to the `limit` if the `limit` is a byte itself. -/
theorem exec_primes {limit : Int} (hlimit : 2 ≤ limit) (hbyte : ¬ 256 ∣ limit)
    (wraps : Bool) :
    ∃ code σ program, Session.perform { wraps } (Demo.primes limit) = (.ok code, σ) ∧
      Program.parse (Fragment.render false code) = .ok program ∧
      ∀ {m : Machine} {sink : Nat} {input : Bytes}, m.Ready sink .endless input →
        ∃ fuel m', m.exec .endless fuel program = .finished m' ∧
          (m'.view sink).output = table ((limit - 1) % 256 + 1).toNat ∧
          (limit ≤ 255 → (m'.view sink).output = table limit.toNat) := by
  rw [Int.dvd_iff_emod_eq_zero] at hbyte
  -- The pads that are relied on are clean in a new session.
  have hclean : ∀ pad ∈ tablePads, ({ wraps } : Session).knowledge.isCleanPad pad = true :=
    show ∀ pad ∈ tablePads, ({} : Knowledge).isCleanPad pad = true by decide
  obtain ⟨code, σ, program, hperform, hparse, hrun⟩ := RealizesOn.runs_inPads (σ := { wraps })
    (q := fun s t => t.output = s.output ++ table ((limit - 1) % 256 + 1).toNat) hclean onTape_zero
    (realizes_primes hbyte hlimit) fun s _ _ =>
      ⟨trivial, tabulated_cursor limit s, tabulated_output hbyte s⟩
  refine ⟨code, σ, program, hperform, hparse, fun {m sink input} hm => ?_⟩
  have hcursor : (m.view sink).cursor = 0 := by rw [hm.view_eq, Snapshot.fresh_cursor]
  have hblank : (m.view sink).output = [] := by rw [hm.view_eq]; rfl
  obtain ⟨fuel, ⟨hmemory, -⟩ | ⟨m', hexec, -, houtput⟩⟩ :=
    hrun hm.unhindered hcursor (Session.agreesOnZeros_of_ready hm)
  · cases hmemory
  rw [hblank, List.nil_append] at houtput
  refine ⟨fuel, m', hexec, houtput, fun hle => ?_⟩
  rw [houtput]
  congr 1
  omega

/-- The table up to twenty. As a byte, 276 is twenty, too. -/
theorem exec_primes_twenty : ∃ (m₁ m₂ : Machine) (code₁ code₂ : Fragment) (σ₁ σ₂ : Session)
    (program₁ program₂ : Program) (fuel₁ fuel₂ : Nat),
      (Session.perform { wraps := true } (Demo.primes 20) = (.ok code₁, σ₁) ∧
        Program.parse (Fragment.render false code₁) = .ok program₁ ∧
        (Machine.forInput .endless []).exec .endless fuel₁ program₁ = .finished m₁ ∧
        (m₁.view 0).output = utf8 "2\n3\n5\n7\n11\n13\n17\n19\n") ∧
      Session.perform { wraps := false } (Demo.primes 276) = (.ok code₂, σ₂) ∧
        Program.parse (Fragment.render false code₂) = .ok program₂ ∧
        (Machine.forInput .endless []).exec .endless fuel₂ program₂ = .finished m₂ ∧
        (m₂.view 0).output = utf8 "2\n3\n5\n7\n11\n13\n17\n19\n" := by
  have hm := Machine.ready_forInput .endless []
  have htable : table 20 = utf8 "2\n3\n5\n7\n11\n13\n17\n19\n" := by decide +kernel
  obtain ⟨code₁, σ₁, program₁, hperform₁, hparse₁, hrun₁⟩ :=
    @exec_primes 20 (by decide) (by decide) true
  obtain ⟨code₂, σ₂, program₂, hperform₂, hparse₂, hrun₂⟩ :=
    @exec_primes 276 (by decide) (by decide) false
  obtain ⟨fuel₁, m₁, hexec₁, -, houtput₁⟩ := hrun₁ hm
  obtain ⟨fuel₂, m₂, hexec₂, houtput₂, -⟩ := hrun₂ hm
  exact ⟨m₁, m₂, code₁, code₂, σ₁, σ₂, program₁, program₂, fuel₁, fuel₂,
    ⟨hperform₁, hparse₁, hexec₁, (houtput₁ (by decide)).trans htable⟩,
    hperform₂, hparse₂, hexec₂, houtput₂.trans htable⟩

end TapeMachine.Generator.PrimeTable
