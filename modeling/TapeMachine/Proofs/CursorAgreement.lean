import TapeMachine.Proofs.Derivation
import TapeMachine.Proofs.Walk

/-!
# Where generated code takes the cursor

A session tracks where the cursor is. The text of the code that it generates has a walk to that
position: no symbol takes the cursor off the tape, and every loop comes back to where it began. So a
machine that runs the code agrees with the session about the cursor, whatever its cells hold.

The module introduces:

* `Fragment.Leads`: code with a walk from one position to another;
* `Generator.Derives.leads`: code that follows the rules leads to where the session says;
* `Generator.Derives.natAbs_cursor_sub_le`: a text is as long as the way it takes the cursor;
* `Generator.Derives.treads`: it does so on the whole tape, unless it falls off at the end;
* `Token.areNested`: tokens in which all brackets have partners;
* `Generator.exec_emitAll_cursor`: the code of a session is well formed, never leaves the tape and
  ends where the session says.
-/

namespace TapeMachine

/-! ### Walks of fragments -/

/-- A run of one symbol that does not move. -/
private theorem Source.walk_replicate_still {b : UInt8} (hb : ∀ pos, stepFrom pos b = some pos)
    (n : Nat) (pos : Int) : walk pos ((List.replicate n b).map .symbol) = some pos := by
  induction n with
  | zero => exact walk_nil
  | succ n ih =>
    rw [List.replicate_succ, List.map_cons]
    exact walk_cons_iff.mpr ⟨pos, hb pos, ih⟩

/-- A run of one symbol that moves. -/
private theorem Source.walk_replicate_move {b : UInt8} {amount : Int}
    (hb : ∀ pos, stepFrom pos b = checked (pos + amount)) (n : Nat) {pos : Int} (hpos : OnTape pos)
    (hlast : OnTape (pos + n * amount)) :
    walk pos ((List.replicate n b).map .symbol) = some (pos + n * amount) := by
  induction n generalizing pos with
  | zero => simp
  | succ n ih =>
    have hsum : pos + amount + n * amount = pos + (n + 1 : Nat) * amount := by
      rw [Int.natCast_add, Int.add_mul, Int.natCast_one, Int.one_mul]
      omega
    have hnext : OnTape (pos + amount) := hpos.first_step hlast
    rw [List.replicate_succ, List.map_cons]
    refine walk_cons_iff.mpr ⟨pos + amount, ?_, ?_⟩
    · rw [walkTree_symbol, hb, checked, if_pos hnext]
    · rw [← hsum] at hlast ⊢
      exact ih hnext hlast

namespace Fragment

/-- Whether code has a walk from one position to another. -/
def Leads (code : Fragment) (pos next : Int) : Prop :=
  Source.walk pos (sources code) = some next

section Leads

variable {first second body : Fragment} {pos mid next : Int}

/-- No code leads nowhere else. -/
theorem leads_nil : Leads [] pos pos :=
  Source.walk_nil

/-- Code in a row leads from one cell to the next. -/
theorem Leads.append (hfirst : first.Leads pos mid) (hsecond : second.Leads mid next) :
    Leads (first ++ second) pos next := by
  rw [Leads, sources_append]
  exact Source.walk_append_iff.mpr ⟨mid, hfirst, hsecond⟩

/-- A loop leads nowhere else if its `body` comes back. -/
theorem Leads.loop (hbody : body.Leads pos pos) : Leads [.loop body] pos pos := by
  rw [Leads, sources_loop]
  exact Source.walk_cons_iff.mpr ⟨pos, Source.walkTree_loop_iff.mpr ⟨hbody, rfl⟩, Source.walk_nil⟩

/-- A note leads where its `body` does. -/
theorem Leads.noted (note : Bytes) (hbody : body.Leads pos next) :
    Leads [.noted note body] pos next := by
  rw [Leads, sources_noted]
  exact hbody

/-- A constant leads where its `body` does. -/
theorem Leads.constant (amount : Int) (hbody : body.Leads pos next) :
    Leads [.constant amount body] pos next := by
  rw [Leads, sources_constant]
  exact hbody

/-- A write stays where it is. -/
theorem leads_write : Leads [.write] pos pos := rfl

/-- A read stays where it is. -/
theorem leads_read : Leads [.read] pos pos := rfl

/-- A dump stays where it is. -/
theorem leads_dump : Leads [.dump] pos pos := rfl

/-- An addition stays where it is. -/
theorem leads_adding (amount : Int) : (adding amount).Leads pos pos := by
  unfold adding
  split
  · exact leads_nil
  · rw [Leads, sources_cons, Code.sources, sources_nil, List.append_nil, Code.symbols]
    split
    · exact Source.walk_nil
    · split
      · exact Source.walk_replicate_still (fun _ => rfl) _ _
      · exact Source.walk_replicate_still (fun _ => rfl) _ _

/-- Clearing a cell stays where it is. -/
theorem leads_clear : Leads [.loop [.add (-1)]] pos pos := by
  have hcode : adding (-1) = [.add (-1)] := if_neg (by decide)
  have hminus : Leads [.add (-1)] pos pos := by
    rw [← hcode]
    exact leads_adding (-1)
  exact hminus.loop

/-- A move between cells of the tape takes a symbol for each cell that it passes. -/
theorem leads_moving {amount : Int} (hpos : OnTape pos) (hnext : OnTape (pos + amount)) :
    (moving amount).Leads pos (pos + amount) ∧ (text (moving amount)).length = amount.natAbs := by
  unfold moving
  split
  · next hzero =>
    subst hzero
    exact ⟨(Int.add_zero pos).symm ▸ leads_nil, rfl⟩
  · -- The least word is written without symbols, but no move on the tape is that long.
    have hleast : amount ≠ Word.least := by
      unfold OnTape Register.lastPosition at hpos hnext
      unfold Word.least
      omega
    rw [Leads, sources_cons, Code.sources, sources_nil, List.append_nil, text_cons, Code.text,
      text_nil, List.append_nil, Code.symbols, if_neg hleast, List.length_replicate]
    refine ⟨?_, rfl⟩
    split
    · next hneg =>
      have hamount : (amount.natAbs : Int) * -1 = amount := by omega
      rw [← hamount] at hnext
      have hwalk := Source.walk_replicate_move (b := byte '<') (fun _ => rfl) amount.natAbs
        hpos hnext
      rwa [hamount] at hwalk
    · next hpos' =>
      have hamount : (amount.natAbs : Int) * 1 = amount := by omega
      rw [← hamount] at hnext
      have hwalk := Source.walk_replicate_move (b := byte '>') (fun _ => rfl) amount.natAbs
        hpos hnext
      rwa [hamount] at hwalk

end Leads

end Fragment

/-! ### The code of a session -/

namespace Generator

/-- Adding by factors goes to the next cell and comes back. -/
theorem Factors.leads_code (factors : Factors) (sign : Int) {pos : Int} (hpos : OnTape pos)
    (hnext : OnTape (pos + 1)) : (factors.code sign).Leads pos pos := by
  have hright : (Fragment.moving 1).Leads pos (pos + 1) := (Fragment.leads_moving hpos hnext).1
  have hleft : (Fragment.moving (-1)).Leads (pos + 1) pos := by
    have hsum : pos + 1 + -1 = pos := Int.add_neg_cancel_right pos 1
    have hback := (Fragment.leads_moving hnext (hsum.symm ▸ hpos)).1
    rwa [hsum] at hback
  have hpass := ((hleft.append (Fragment.leads_adding (sign * factors.step))).append hright).append
    (Fragment.leads_adding (-1))
  exact (((hright.append (Fragment.leads_adding _)).append hpass.loop).append hleft).append
    (Fragment.leads_adding _)

/-- Adding a constant comes back to its cell. Only adding by factors leaves it, and that takes a
symbol to go to the next cell. -/
theorem leads_addingCode (amount : Int) (nextIsZero : Bool) {pos : Int} (hpos : OnTape pos)
    (hlength : pos + (Fragment.text (addingCode amount nextIsZero)).length ≤
      Register.lastPosition) :
    (addingCode amount nextIsZero).Leads pos pos := by
  obtain hcode | ⟨-, hcode⟩ := addingCode_cases amount nextIsZero
  · rw [hcode]
    exact Fragment.leads_adding amount
  · rw [hcode] at hlength ⊢
    exact Factors.leads_code _ _ hpos (Factors.onTape_next hpos hlength)

/-- Setting up blanks comes back to the pad. -/
theorem leads_blanksCode : blanksCode.Leads Register.putPad Register.putPad := by
  have hmove : ∀ {pos next : Int}, OnTape pos → OnTape next →
      (Fragment.moving (next - pos)).Leads pos next := by
    intro pos next hpos hnext
    have hsum : pos + (next - pos) = next := by omega
    have hleads := (Fragment.leads_moving hpos (hsum.symm ▸ hnext)).1
    rwa [hsum] at hleads
  have hput : OnTape Register.put := by decide
  have hspace : OnTape Register.putSpace := by decide
  have hpad : OnTape Register.putPad := by decide
  have hpass := (((((hmove hpad hput).append (Fragment.leads_adding 4)).append
    (hmove hput hspace)).append (Fragment.leads_adding 4)).append (hmove hspace hpad)).append
      (Fragment.leads_adding (-1))
  exact (Fragment.leads_adding 8).append hpass.loop

/-- Code that follows the rules has a symbol for each cell between those where it begins and ends.
-/
theorem Derives.natAbs_cursor_sub_le {σ σ' : Session} {code : Fragment} (h : Derives σ code σ')
    (htape : OnTape σ.cursor) : (σ'.cursor - σ.cursor).natAbs ≤ (Fragment.text code).length := by
  induction h with
  | record _ hcursor _ => simp [hcursor]
  | append hfirst _ ih₁ ih₂ =>
    have hle₁ := ih₁ htape
    have hle₂ := ih₂ (hfirst.onTape htape)
    rw [Fragment.text_append, List.length_append]
    omega
  | noted note _ ih =>
    rw [Fragment.text_noted]
    exact ih htape
  | @move σ pos hpos =>
    have hsum : σ.cursor + (pos - σ.cursor) = pos := by omega
    exact Nat.le_of_eq (Fragment.leads_moving htape (hsum.symm ▸ hpos)).2.symm
  -- A loop comes back, whatever its length is.
  | loop _ hcursor _ _ =>
    simp only [hcursor, Int.sub_self]
    exact Nat.zero_le _
  | _ => simp

/-- Code that follows the rules leads to where the session says, if its text is not so long that it
could get to the last position. -/
theorem Derives.leads {σ σ' : Session} {code : Fragment} (h : Derives σ code σ')
    (htape : OnTape σ.cursor)
    (hlength : σ.cursor + (Fragment.text code).length ≤ Register.lastPosition) :
    code.Leads σ.cursor σ'.cursor := by
  induction h with
  | record _ hcursor _ => exact hcursor ▸ Fragment.leads_nil
  | append hfirst _ ih₁ ih₂ =>
    rw [Fragment.text_append, List.length_append] at hlength
    -- The first part uses up a symbol for each cell that it goes to the right.
    have hbound := hfirst.natAbs_cursor_sub_le htape
    exact (ih₁ htape (by omega)).append (ih₂ (hfirst.onTape htape) (by omega))
  | noted note _ ih =>
    rw [Fragment.text_noted] at hlength
    exact (ih htape hlength).noted note
  | @move σ pos hpos =>
    have hsum : σ.cursor + (pos - σ.cursor) = pos := by omega
    obtain ⟨hleads, -⟩ := Fragment.leads_moving htape (hsum.symm ▸ hpos)
    rwa [hsum] at hleads
  | write => exact Fragment.leads_write
  | dump => exact Fragment.leads_dump
  | read => exact Fragment.leads_read
  | clear => exact Fragment.leads_clear
  | bump σ amount => exact σ.bump_cursor amount ▸ Fragment.leads_adding amount
  | constant σ amount =>
    rw [Fragment.text_constant] at hlength
    rw [Session.bump_cursor]
    exact (leads_addingCode amount _ htape hlength).constant amount
  | blanks hcursor =>
    simp only [Session.learn_cursor, hcursor]
    exact leads_blanksCode
  | @loop σ σ₁ knowledge body _ hcursor _ ih =>
    -- A body that comes back to its cell can be walked once for all its passes.
    rw [Fragment.length_text_loop] at hlength
    have hleads := ih htape (by simp only; omega)
    rw [hcursor] at hleads ⊢
    exact hleads.loop

/-! ### At the end of the tape -/

/-- Without a next cell, adding by factors steps off the tape, and its counter comes next. -/
private theorem Factors.treads_code {factors : Factors} (hcounter : 0 < factors.counter)
    (sign : Int) {pos : Int} (hoff : ¬ OnTape (pos + 1)) (last : Int) :
    Source.Treads pos (Fragment.sources (factors.code sign)) last := by
  have hright : Fragment.sources (Fragment.moving 1) = [.symbol (byte '>')] := rfl
  obtain ⟨n, hn⟩ : ∃ n, factors.counter.natAbs = n + 1 := Nat.exists_eq_succ_of_ne_zero (by omega)
  have hplus : Fragment.sources (Fragment.adding factors.counter) =
      .symbol (byte '+') :: (List.replicate n (byte '+')).map .symbol := by
    have hleast : factors.counter ≠ Word.least := by
      unfold Word.least
      omega
    rw [Fragment.adding, if_neg (by omega), Fragment.sources_cons, Fragment.sources_nil,
      List.append_nil, Code.sources, Code.symbols, if_neg hleast, if_neg (by omega), hn]
    rfl
  simp only [Factors.code, Fragment.sources_append, hright, hplus, List.cons_append,
    List.nil_append]
  exact .fall hoff _ last

/-- The code of a constant comes back to its cell, unless it falls off the tape. -/
private theorem treads_addingCode (amount : Int) (nextIsZero : Bool) {pos : Int}
    (hpos : OnTape pos) :
    Source.Treads pos (Fragment.sources (addingCode amount nextIsZero)) pos := by
  obtain hcode | ⟨-, hcode⟩ := addingCode_cases amount nextIsZero
  · rw [hcode]
    exact .of_walk _ (Fragment.leads_adding amount)
  · by_cases hnext : OnTape (pos + 1)
    · rw [hcode]
      exact .of_walk _ (Factors.leads_code _ _ hpos hnext)
    -- The pad is off the tape. A counter that is not zero then falls off there at once.
    · by_cases hzero : amount = 0
      · have hnothing : addingCode amount nextIsZero = Fragment.adding 0 := by
          have hcost : ¬ (Rounding.squareRoot 0 + 7 : Int) < 0 := by omega
          subst hzero
          simp [addingCode, Factors.of, Factors.cost, hcost]
        rw [hnothing]
        exact .of_walk _ (Fragment.leads_adding 0)
      · have hcounter : (Factors.of amount.natAbs).counter =
            Rounding.squareRoot amount.natAbs := by
          unfold Factors.of
          simp only
          split <;> rfl
        have hroot := Rounding.squareRoot_pos (n := amount.natAbs) (by omega)
        rw [hcode]
        exact Factors.treads_code (by omega) _ hnext pos

/-- Code that follows the rules leads to where the session says, unless it falls off the tape. -/
theorem Derives.treads {σ σ' : Session} {code : Fragment} (h : Derives σ code σ')
    (htape : OnTape σ.cursor) :
    Source.Treads σ.cursor (Fragment.sources code) σ'.cursor := by
  have hwalk : ∀ {code : Fragment} {pos next : Int}, code.Leads pos next →
      Source.Treads pos (Fragment.sources code) next := fun hleads => .of_walk _ hleads
  induction h with
  | record _ hcursor _ => exact hcursor ▸ .nil _
  | append hfirst _ ih₁ ih₂ =>
    rw [Fragment.sources_append]
    exact (ih₁ htape).append (ih₂ (hfirst.onTape htape))
  | noted note _ ih =>
    rw [Fragment.sources_noted]
    exact ih htape
  | @move σ pos hpos =>
    have hsum : σ.cursor + (pos - σ.cursor) = pos := by omega
    obtain ⟨hleads, -⟩ := Fragment.leads_moving htape (hsum.symm ▸ hpos)
    rw [hsum] at hleads
    exact hwalk hleads
  | write => exact hwalk Fragment.leads_write
  | dump => exact hwalk Fragment.leads_dump
  | read => exact hwalk Fragment.leads_read
  | clear => exact hwalk Fragment.leads_clear
  | bump σ amount => exact hwalk (σ.bump_cursor amount ▸ Fragment.leads_adding amount)
  -- The one step that may leave the tape: its pad may be behind the last cell.
  | constant σ amount =>
    rw [Session.bump_cursor, Fragment.sources_constant]
    exact treads_addingCode amount _ htape
  | blanks hcursor =>
    simp only [Session.learn_cursor, hcursor]
    exact hwalk leads_blanksCode
  | @loop σ σ₁ knowledge body _ hcursor _ ih =>
    have hbody := ih htape
    rw [hcursor] at hbody
    rw [Fragment.sources_loop, hcursor]
    exact .loop hbody (.nil _)

end Generator

/-! ### Nesting -/

/-- What a token opens that another one has to close. -/
inductive Token.Opener where
  | loop
  | note
deriving DecidableEq, Repr

/-- Whether all that is open, innermost first, and all that tokens open is closed in the right
order, and nothing else is closed. -/
def Token.nestedFrom : List Token.Opener → List Token → Bool
  | stack, [] => stack.isEmpty
  | stack, .loopStart :: rest => nestedFrom (.loop :: stack) rest
  | stack, .note _ :: rest => nestedFrom (.note :: stack) rest
  | .loop :: stack, .loopEnd :: rest => nestedFrom stack rest
  | .note :: stack, .noteEnd :: rest => nestedFrom stack rest
  | _, .loopEnd :: _ => false
  | _, .noteEnd :: _ => false
  | stack, _ :: rest => nestedFrom stack rest

/-- Whether loops and notes are opened and closed in pairs. -/
def Token.areNested (tokens : List Token) : Bool :=
  nestedFrom [] tokens

mutual

/-- The tokens of code close all that they open. -/
private theorem Code.nestedFrom_tokens : (code : Code) → (stack : List Token.Opener) →
    (rest : List Token) → Token.nestedFrom stack (code.tokens ++ rest) = Token.nestedFrom stack rest
  | .move _, stack, rest => by cases stack <;> rfl
  | .add _, stack, rest => by cases stack <;> rfl
  | .write, stack, rest => by cases stack <;> rfl
  | .read, stack, rest => by cases stack <;> rfl
  | .dump, stack, rest => by cases stack <;> rfl
  | .loop body, stack, rest => by
    rw [Code.tokens, List.cons_append, List.append_assoc, Token.nestedFrom,
      Fragment.nestedFrom_tokens body]
    rfl
  | .noted note body, stack, rest => by
    rw [Code.tokens, List.cons_append, List.append_assoc, Token.nestedFrom,
      Fragment.nestedFrom_tokens body]
    rfl
  | .constant _ body, stack, rest => Fragment.nestedFrom_tokens body stack rest

/-- The tokens of a fragment close all that they open. -/
private theorem Fragment.nestedFrom_tokens : (code : List Code) → (stack : List Token.Opener) →
    (rest : List Token) →
      Token.nestedFrom stack (Fragment.tokens code ++ rest) = Token.nestedFrom stack rest
  | [], _, _ => rfl
  | code :: others, stack, rest => by
    rw [Fragment.tokens, List.append_assoc, Code.nestedFrom_tokens code,
      Fragment.nestedFrom_tokens others]

end

/-- The tokens of a fragment are nested as its code is. -/
theorem Fragment.areNested_tokens (code : Fragment) :
    Token.areNested (Fragment.tokens code) = true := by
  have hnested := Fragment.nestedFrom_tokens code [] []
  rwa [List.append_nil] at hnested

/-! ### Agreement of the machine with the session -/

namespace Generator

/-- The `code` of any `directives` has well nested tokens and a text that can be parsed; by
`hlength` the text is no longer than the tape, as any string of bytes. Running the `program` never
takes the cursor off the tape, and if it reaches its end, the cursor is where the session `σ` says.
-/
theorem exec_emitAll_cursor {directives : List Directive} {wraps : Bool} {code : Fragment}
    {σ : Session} (hemit : Session.perform { wraps } (emitAll directives) = (.ok code, σ))
    (hlength : (Fragment.text code).length ≤ Register.lastPosition) :
    Token.areNested (Fragment.tokens code) = true ∧
      ∃ program, Program.parse (Fragment.text code) = .ok program ∧
        ∀ {m : Machine} {sink : Nat} {memory : Memory} {input : Bytes}, m.Ready sink memory input →
          ∀ fuel, (∀ cursor amount m',
              m.exec .endless fuel program ≠ .stopped (.underflow cursor amount) m') ∧
            (∀ m', m.exec .endless fuel program = .finished m' → (m'.cursor : Int) = σ.cursor) := by
  refine ⟨Fragment.areNested_tokens code, _, Fragment.parse_text code, ?_⟩
  intro m sink memory input hm fuel
  have hderives : Derives { wraps } code σ := derivable_emitAll directives hemit
  have hleads := hderives.leads onTape_zero (by simpa using hlength)
  -- Every ending of the program is one of the pruned text, where the walk tells the cursor.
  have htracks := Source.tracks_of_walk _ (Source.walk_prune _ hleads)
  have hending : ∀ {e}, (m.exec .endless fuel (Source.condense (Fragment.sources code))).ending
      sink = some e → Source.effects (Source.prune (Fragment.sources code)) (.fresh input) e := by
    intro e he
    have heffect := Machine.effect_of_exec hm.unhindered he
    rw [hm.view_eq] at heffect
    exact Source.effects_of_condense hleads rfl onTape_zero heffect
  refine ⟨fun cursor amount m' hexec => ?_, fun m' hexec => ?_⟩
  · have hoff := hending (Outcome.ending_eq_offTape_iff.mpr ⟨cursor, amount, m', hexec⟩)
    exact (htracks rfl hoff).1 rfl
  · have hdone := hending (Outcome.ending_eq_done_iff.mpr ⟨m', hexec, rfl⟩)
    exact (htracks rfl hdone).2 _ rfl

/-- A session that counts one cell down into another and goes on to the right. -/
theorem exec_emitAll_cursor_countdown : ∃ code σ,
    Session.perform { wraps := true }
        (emitAll [.incAt (.cell 3), .repeatBy (.cell 3) [.incAt (.cell 5)], .move 4]) =
          (.ok code, σ) ∧
      Fragment.text code = utf8 ">>>+[>>+<<-]>>>>" ∧ σ.cursor = 7 ∧
      Token.areNested (Fragment.tokens code) = true ∧
      ∃ program, Program.parse (Fragment.text code) = .ok program ∧
        ∀ fuel, (∀ cursor amount m', (Machine.forInput .endless []).exec .endless fuel program ≠
            .stopped (.underflow cursor amount) m') ∧
          (∀ m', (Machine.forInput .endless []).exec .endless fuel program = .finished m' →
            (m'.cursor : Int) = σ.cursor) := by
  have hemit : Session.perform { wraps := true } (emitAll [.incAt (.cell 3),
    .repeatBy (.cell 3) [.incAt (.cell 5)], .move 4]) = (.ok _, _) := rfl
  obtain ⟨hnested, program, hparse, hrun⟩ := exec_emitAll_cursor hemit (by decide)
  exact ⟨_, _, hemit, by decide, rfl, hnested, program, hparse,
    hrun (Machine.ready_forInput .endless [])⟩

end Generator

end TapeMachine
