import TapeMachine.Proofs.CellArithmetic

/-!
# How constants are encoded

A constant is written as a plain run of symbols, or as a product and a rest: the counter is the
square root of the constant, and the step is the quotient by it, rounded to the nearest, so that the
rest may be negative. The sign of the constant is that of the step and the rest, never that of the
counter. Both ways add the constant modulo 256. That is so for factors beyond 255, too, where the
counter wraps around when it is loaded and the loop is run less often than the counter says. The
root is rounded, which makes no difference below `2 ^ 52`.

The module introduces:

* `Generator.Factors.IsNearest`: the root of a number and the rounded quotient by it, which are what
  `Generator.Factors.of` gives;
* `Generator.Session.Encodes`: which of the two ways a session takes, and how long the text gets;
* `Generator.Session.runs_add_encodes`: constants are encoded so, and what is run adds
  them.
-/

namespace TapeMachine.Generator

/-! ### Factors -/

namespace Factors

variable {factors : Factors} {n : Nat} {sign : Int}

/-- Whether factors are the root of a number and the quotient by it, rounded to the nearest; half a
counter is rounded down. -/
structure IsNearest (factors : Factors) (n : Nat) : Prop where
  counter_eq : factors.counter = Nat.sqrt n
  sum_eq : factors.counter * factors.step + factors.rest = n
  lt_rest : -factors.counter < 2 * factors.rest
  rest_le : 2 * factors.rest ≤ factors.counter

/-- The factors of a number are nearest as long as its root is exact. -/
theorem isNearest_of (hn : n ≠ 0) (hsize : n < 2 ^ 52) : (Factors.of n).IsNearest n := by
  have hroot := Rounding.squareRoot_eq_sqrt hsize
  -- A remainder below the root is at most half a root away from zero, or less from the root.
  have hrest : n % Rounding.squareRoot n < Rounding.squareRoot n :=
    Nat.mod_lt n (Rounding.squareRoot_pos hn)
  refine ⟨?_, sum_of n, ?_, ?_⟩ <;> simp only [Factors.of] <;> split <;> dsimp only
  · rw [hroot]
  · rw [hroot]
  all_goals omega

/-- Neither of the factors is zero, and none of the parts is much larger than the number. -/
theorem IsNearest.bounds (h : factors.IsNearest n) (hn : n ≠ 0) :
    (0 < factors.counter ∧ factors.counter ≤ n) ∧ (0 < factors.step ∧ factors.step ≤ 2 * n) ∧
      factors.rest.natAbs ≤ n := by
  obtain ⟨hcounter, hsum, hlow, hhigh⟩ := h
  have hroot : 0 < Nat.sqrt n := Nat.sqrt_pos.mpr (Nat.pos_of_ne_zero hn)
  have hpos : 0 < factors.counter := by omega
  have hsquare : factors.counter * factors.counter ≤ n := by
    rw [hcounter]
    exact_mod_cast Nat.sqrt_le n
  have hle : factors.counter ≤ factors.counter * factors.counter :=
    le_mul_of_one_le_left (by omega) hpos
  -- Without a step the rest would be the whole number, which is no less than the counter.
  have hstep : 0 < factors.step := by
    by_contra hnone
    have hproduct : factors.counter * factors.step ≤ 0 :=
      Int.mul_nonpos_of_nonneg_of_nonpos (by omega) (by omega)
    omega
  -- The step is at most the product, and that differs from the number by the rest.
  have hproduct : factors.step ≤ factors.counter * factors.step :=
    le_mul_of_one_le_left (by omega) hpos
  exact ⟨⟨hpos, by omega⟩, ⟨hstep, by omega⟩, by omega⟩

/-- The tokens of a loop that counts down on the next cell, and of the rest behind it. -/
def tokens (factors : Factors) (sign : Int) : List Token :=
  .move 1 :: .add factors.counter ::
    .loopStart :: .move (-1) :: .add (sign * factors.step) :: .move 1 :: .add (-1) :: .loopEnd ::
    .move (-1) :: if factors.rest = 0 then [] else [.add (sign * factors.rest)]

theorem tokens_code (hcounter : factors.counter ≠ 0) (hstep : factors.step ≠ 0) (hsign : sign ≠ 0) :
    Fragment.tokens (factors.code sign) = factors.tokens sign := by
  -- An addition of zero has no token, which matters for the rest only.
  by_cases hrest : factors.rest = 0 <;>
    simp [code, tokens, Fragment.moving, Fragment.adding, Fragment.tokens, Code.tokens, hcounter,
      hstep, hsign, hrest]

end Factors

/-! ### The shorter of two ways -/

variable {σ : Session} {d : Int}

/-- Whether a session may add a constant by factors, as the next cell is known to be zero, and this
takes fewer symbols than a plain run. -/
def Session.PrefersFactors (σ : Session) (d : Int) : Prop :=
  σ.known (σ.cursor + 1) = some 0 ∧ (Factors.of d.natAbs).counter + (Factors.of d.natAbs).step +
    (Factors.of d.natAbs).rest.natAbs + 7 < d.natAbs

instance (σ : Session) (d : Int) : Decidable (σ.PrefersFactors d) :=
  inferInstanceAs (Decidable (_ ∧ _))

/-- Whether code adds a constant by factors exactly if that is allowed and shorter, and by a plain
run otherwise, and has a text of the length that this takes. -/
structure Session.Encodes (σ : Session) (d : Int) (code : Fragment) : Prop where
  factored_iff : Fragment.tokens code = (Factors.of d.natAbs).tokens d.sign ↔ σ.PrefersFactors d
  plain_iff : Fragment.tokens code = [.add d] ↔ ¬ σ.PrefersFactors d
  length_factored : σ.PrefersFactors d → ((Fragment.text code).length : Int) =
    (Factors.of d.natAbs).counter + (Factors.of d.natAbs).step +
      (Factors.of d.natAbs).rest.natAbs + 7
  length_plain : ¬ σ.PrefersFactors d → (Fragment.text code).length = d.natAbs

/-- The code of a constant is that of its factors if the session prefers them. -/
theorem addingCode_eq_ite (hd : d ≠ 0) (hleast : d ≠ Word.least) :
    addingCode d ((σ.bump d).knowledge.isZero (σ.cursor + 1)) =
      if σ.PrefersFactors d then (Factors.of d.natAbs).code d.sign else Fragment.adding d := by
  have hne : σ.cursor + 1 ≠ σ.cursor := by omega
  have hsign : (if d < 0 then -1 else 1) = d.sign := by
    split
    · next hneg => exact (Int.sign_eq_neg_one_of_neg hneg).symm
    · exact (Int.sign_eq_one_of_pos (by omega)).symm
  -- The session takes account of the constant before it looks at the next cell, but that changes
  -- what it knows of the cell under the cursor only.
  have hknown : (σ.bump d).knowledge.known (σ.cursor + 1) = σ.known (σ.cursor + 1) :=
    (Session.sameAt_bump hne d).known_eq
  have hprefers : (d ≠ Word.least ∧ (Factors.of d.natAbs).cost < d.natAbs ∧
      (σ.bump d).knowledge.isZero (σ.cursor + 1) = true) ↔ σ.PrefersFactors d := by
    rw [Knowledge.isZero, hknown, beq_iff_eq, Session.PrefersFactors, Factors.cost]
    exact ⟨fun h => ⟨h.2.2, h.2.1⟩, fun h => ⟨hleast, h.2, h.1⟩⟩
  simp only [addingCode, hprefers, hsign]

/-- Two ways that start with different tokens cannot be mistaken for one another. -/
theorem Factors.tokens_ne_plain (factors : Factors) (sign amount : Int) :
    factors.tokens sign ≠ [.add amount] := by
  intro h
  cases (List.cons.inj h).1

section Size

variable (hd : d ≠ 0) (hsize : d.natAbs < 0x4000000000000)
include hd hsize

theorem Session.encodes_factored (hprefers : σ.PrefersFactors d) :
    σ.Encodes d [.constant d ((Factors.of d.natAbs).code d.sign)] := by
  have hn : d.natAbs ≠ 0 := by omega
  have hsign : d.sign.natAbs = 1 := Int.natAbs_sign_of_ne_zero hd
  obtain ⟨⟨hcounter, hcounter'⟩, ⟨hstep, hstep'⟩, hrest⟩ :=
    (Factors.isNearest_of hn (by omega)).bounds hn
  have htokens : Fragment.tokens [.constant d ((Factors.of d.natAbs).code d.sign)] =
      (Factors.of d.natAbs).tokens d.sign :=
    (List.append_nil _).trans (Factors.tokens_code hcounter.ne' hstep.ne' (by omega))
  -- None of the parts is the least word, which would have no symbols.
  have hleast : ∀ part : Int, part.natAbs ≤ 2 * d.natAbs → part ≠ Word.least := by
    rintro _ hpart rfl
    unfold Word.least at hpart
    omega
  have hsigned : ∀ part : Int, (d.sign * part).natAbs = part.natAbs := fun part => by
    rw [Int.natAbs_mul, hsign, Nat.one_mul]
  have hcounterText := Fragment.length_text_adding (hleast (Factors.of d.natAbs).counter (by omega))
  have hstepText := Fragment.length_text_adding
    (hleast (d.sign * (Factors.of d.natAbs).step) (by rw [hsigned]; omega))
  have hrestText := Fragment.length_text_adding
    (hleast (d.sign * (Factors.of d.natAbs).rest) (by rw [hsigned]; omega))
  rw [hsigned] at hstepText hrestText
  exact
    { factored_iff := ⟨fun _ => hprefers, fun _ => htokens⟩
      plain_iff := by
        rw [htokens]
        exact iff_of_false (Factors.tokens_ne_plain _ _ d) (not_not_intro hprefers)
      length_factored := fun _ => by
        rw [Fragment.text_constant, Factors.length_text_code]
        omega
      length_plain := fun h => absurd hprefers h }

theorem Session.encodes_plain (hprefers : ¬ σ.PrefersFactors d) :
    σ.Encodes d [.constant d (Fragment.adding d)] := by
  have hleast : d ≠ Word.least := by
    unfold Word.least
    omega
  have htokens : Fragment.tokens [.constant d (Fragment.adding d)] = [.add d] := by
    simp [Fragment.adding, Fragment.tokens, Code.tokens, hd]
  exact
    { factored_iff := by
        rw [htokens]
        exact iff_of_false (Factors.tokens_ne_plain _ _ d).symm hprefers
      plain_iff := ⟨fun _ => hprefers, fun _ => htokens⟩
      length_factored := fun h => absurd h hprefers
      length_plain := fun _ => by
        rw [Fragment.text_constant, Fragment.length_text_adding hleast] }

end Size

/-! ### Running the code -/

/-- Whether there is a next cell, and it holds zero. -/
def NextIsZero (s : Snapshot) : Prop :=
  OnTape (s.cursor + 1) ∧ s.cells (s.cursor + 1) = 0

/-- Whether a constant has been added to the cell under the cursor, and nothing else has changed. -/
structure Raises (d : Int) (s t : Snapshot) : Prop where
  here_eq : (t.here.toNat : Int) = (s.here.toNat + d) % 256
  spares : Spares [s.cursor] s t

theorem raises_put (d : Int) (s : Snapshot) : Raises d s (s.put (s.here + UInt8.ofInt d)) where
  here_eq := by
    have hd := toNat_ofInt d
    rw [Snapshot.here_put, UInt8.toNat_add]
    omega
  spares := ⟨fun p hp => Snapshot.cells_set_of_ne (List.ne_of_not_mem_cons hp), rfl, rfl, rfl⟩

/-- What is counted on the next cell needs a zero there, and a plain run needs nothing. -/
theorem effect_addingCode_of_next {s : Snapshot} (hd : d ≠ 0) (hleast : d ≠ Word.least)
    (htape : OnTape s.cursor) (hnext : σ.PrefersFactors d → NextIsZero s) :
    Fragment.effect (addingCode d ((σ.bump d).knowledge.isZero (σ.cursor + 1))) s
      (.done (s.put (s.here + UInt8.ofInt d))) := by
  by_cases hprefers : σ.PrefersFactors d
  · obtain ⟨hnext, hzero⟩ := hnext hprefers
    exact effect_addingCode d htape hnext fun _ => hzero
  · rw [addingCode_eq_ite hd hleast, if_neg hprefers, Fragment.effect_adding]
    rfl

/-- A constant `d` below `2 ^ 50` is the sum of a rest and the product of its root and the rounded
quotient by it, which are `Factors.of d.natAbs`. It is added by these if the next cell is known to
be zero and this is shorter, and by a plain run otherwise, as `Encodes` says. Where the session
`PrefersFactors`, the code needs the next cell to be zero, and the plain run needs nothing. -/
theorem Session.runs_add_encodes (hd : d ≠ 0) (hsize : d.natAbs < 0x4000000000000)
    (htape : OnTape σ.cursor) :
    (Factors.of d.natAbs).IsNearest d.natAbs ∧
      (∃ code σ', σ.perform (add d) = (.ok code, σ') ∧ σ.Encodes d code) ∧
      σ.Runs (add d) (fun s => σ.PrefersFactors d → NextIsZero s) (Raises d) := by
  -- Below `2 ^ 50` nothing is lost by taking `d` for a word.
  have hword : Word.wrap d = d := by
    unfold Word.wrap
    refine Int.bmod_eq_of_le ?_ ?_ <;> unfold Word.count <;> omega
  have hleast : d ≠ Word.least := by
    unfold Word.least
    omega
  have hemits : Emits σ (add d)
      [.constant d (addingCode d ((σ.bump d).knowledge.isZero (σ.cursor + 1)))] (σ.bump d) := by
    rw [emits_add_iff, hword]
    exact Or.inr ⟨hd, rfl, rfl⟩
  refine ⟨Factors.isNearest_of (by omega) (by omega), ⟨_, _, hemits, ?_⟩,
    Session.runs_of_effect (f := fun s => s.put (s.here + UInt8.ofInt d)) htape hemits
      fun s hs hnext => ⟨?_, hs.trans (σ.bump_cursor d).symm, raises_put d s⟩⟩
  · rw [addingCode_eq_ite hd hleast]
    split
    · next hprefers => exact Session.encodes_factored hd hsize hprefers
    · next hprefers => exact Session.encodes_plain hd hsize hprefers
  · rw [Fragment.effect_constant]
    exact effect_addingCode_of_next hd hleast (hs ▸ htape) hnext

/-- The root of 70000 is 264, which is 8 as a byte. So the loop is run eight times, and eight steps
of 265 are as much as 264 of them, modulo 256. -/
theorem Session.runs_add_encodes_seventyThousand : ∃ (m m' : Machine) (code : Fragment)
    (σ σ' : Session) (program : Program) (fuel : Nat),
      m.Unhindered 0 .endless ∧ (m.view 0).cells 30 = 7 ∧
      NextIsZero (m.view 0) ∧ σ.cursor = 30 ∧ σ.PrefersFactors (-70000) ∧
      σ.perform (add (-70000)) = (.ok code, σ') ∧ (Fragment.text code).length = 576 ∧
      Fragment.tokens code = [.move 1, .add 264, .loopStart, .move (-1), .add (-265), .move 1,
        .add (-1), .loopEnd, .move (-1), .add (-40)] ∧
      Program.parse (Fragment.text code) = .ok program ∧
      m.exec .endless fuel program = .finished m' ∧ (m'.view 0).cells 30 = 151 ∧
      (m'.view 0).cells 31 = 0 ∧ (m'.view 0).cursor = 30 := by
  obtain ⟨m, hm, hview⟩ := exists_numbers
  let σ : Session :=
    { wraps := true, cursor := 30, knowledge := { base := [(30, none), (32, none)] } }
  obtain ⟨hnearest, ⟨code, σ', hemit, hencodes⟩, code', σ'', program, hemit', hparse, hrun⟩ :=
    @Session.runs_add_encodes σ (-70000) (by decide) (by decide) (by decide)
  cases hemit.symm.trans hemit'
  have hcell : (m.view 0).cells 30 = 7 := by rw [hview]; rfl
  have hcursor : (m.view 0).cursor = 30 := by rw [hview]; rfl
  have hnext : NextIsZero (m.view 0) := by
    rw [hview]
    exact ⟨by decide, rfl⟩
  have hroot : 264 = Nat.sqrt (Int.natAbs (-70000)) := Nat.eq_sqrt.mpr (by decide)
  obtain ⟨hcounter, hsum, hlow, hhigh⟩ := hnearest
  rw [← hroot] at hcounter
  rw [hcounter] at hsum hlow hhigh
  have hstep : (Factors.of (Int.natAbs (-70000))).step = 265 := by omega
  have hrest : (Factors.of (Int.natAbs (-70000))).rest = 40 := by omega
  have hprefers : σ.PrefersFactors (-70000) := by
    refine ⟨rfl, ?_⟩
    rw [hcounter, hstep, hrest]
    decide
  have htokens := hencodes.factored_iff.mpr hprefers
  have hlength := hencodes.length_factored hprefers
  rw [Factors.tokens, hcounter, hstep, hrest] at htokens
  rw [hcounter, hstep, hrest] at hlength
  obtain ⟨fuel, ⟨hmemory, -⟩ | ⟨m', hexec, -, hraises⟩⟩ := hrun hm hcursor fun _ => hnext
  · cases hmemory
  have hback : (m'.view 0).cursor = 30 := hraises.spares.cursor_eq.trans hcursor
  refine ⟨m, m', code, σ, σ', program, fuel, hm, hcell, hnext, rfl, hprefers, hemit,
    by omega, htokens, hparse, hexec, UInt8.toNat_inj.mp ?_, ?_, hback⟩
  · have hhere := hraises.here_eq
    rw [Snapshot.here, Snapshot.here, hback, hcursor, hcell] at hhere
    exact Int.ofNat.inj hhere
  · rw [hraises.spares.cells_eq 31 (by rw [hcursor]; decide), hview]
    rfl

end TapeMachine.Generator
