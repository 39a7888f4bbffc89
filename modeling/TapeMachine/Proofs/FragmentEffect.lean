import TapeMachine.Generator.Code
import TapeMachine.Proofs.Condensation
import TapeMachine.Proofs.SourceText

/-!
# What generated code does

Generated code is written as program text, so what it does is what the source trees of that text do.
A move or an addition stands for a run of symbols, and its effect is the sum of theirs.

The module introduces:

* `Fragment.sources`: the source trees of generated code, which are those of its text
  (`Fragment.ofText_text`);
* `Fragment.effect`: what the code does;
* `Fragment.effect_moving`, `Fragment.effect_adding`: what moves and additions do.
-/

namespace TapeMachine

mutual

/-- The source trees of an operation. -/
def Code.sources : Code → List Source
  | .move amount => (Code.symbols '>' '<' amount).map .symbol
  | .add amount => (Code.symbols '+' '-' amount).map .symbol
  | .write => [.symbol (byte '.')]
  | .read => [.symbol (byte ',')]
  | .dump => [.symbol (byte '@')]
  | .loop body => [.loop (Fragment.sources body)]
  | .noted _ body => Fragment.sources body
  | .constant _ body => Fragment.sources body

/-- The source trees of a fragment. -/
def Fragment.sources : List Code → List Source
  | [] => []
  | code :: rest => code.sources ++ Fragment.sources rest

end

namespace Fragment

/-- No code has no source trees. -/
@[simp] theorem sources_nil : sources [] = [] := rfl

/-- The source trees of a fragment are those of its first part and of the `rest`. -/
@[simp] theorem sources_cons (code : Code) (rest : List Code) :
    sources (code :: rest) = code.sources ++ sources rest := rfl

/-- The source trees of two fragments in a row are those of each. -/
@[simp] theorem sources_append (first second : List Code) :
    sources (first ++ second) = sources first ++ sources second := by
  induction first with
  | nil => rfl
  | cons code rest ih => simp [ih]

/-- A loop has one source tree, around those of its `body`. -/
theorem sources_loop (body : Fragment) : sources [.loop body] = [.loop (sources body)] := rfl

/-- Notes have no source trees. -/
theorem sources_noted (note : Bytes) (body : Fragment) :
    sources [.noted note body] = sources body :=
  List.append_nil _

/-- A constant has the source trees of its `body`. -/
theorem sources_constant (amount : Int) (body : Fragment) :
    sources [.constant amount body] = sources body :=
  List.append_nil _

/-- No code has no text. -/
@[simp] theorem text_nil : text [] = [] := rfl

/-- The text of a fragment is that of its first part and of the `rest`. -/
@[simp] theorem text_cons (code : Code) (rest : List Code) :
    text (code :: rest) = code.text ++ text rest := rfl

/-- The text of two fragments in a row is that of each. -/
@[simp] theorem text_append (first second : List Code) :
    text (first ++ second) = text first ++ text second := by
  induction first with
  | nil => rfl
  | cons code rest ih => simp [ih]

/-- Notes do not show in the text. -/
theorem text_noted (note : Bytes) (body : Fragment) : text [.noted note body] = text body :=
  List.append_nil _

/-- A constant has the text of its `body`. -/
theorem text_constant (amount : Int) (body : Fragment) :
    text [.constant amount body] = text body :=
  List.append_nil _

/-- Adding an `amount` takes a symbol for each unit, but for the least word. -/
theorem length_text_adding {amount : Int} (hleast : amount ≠ Word.least) :
    (text (adding amount)).length = amount.natAbs := by
  unfold adding
  split
  · next hzero => rw [hzero]; rfl
  · rw [text_cons, text_nil, List.append_nil, Code.text, Code.symbols, if_neg hleast,
      List.length_replicate]

/-- A loop takes two brackets and the text of its `body`. -/
theorem length_text_loop (body : Fragment) :
    (text [.loop body]).length = (text body).length + 2 := by
  have hopen : (utf8 "[").length = 1 := rfl
  have hclose : (utf8 "]").length = 1 := rfl
  simp only [text_cons, Code.text, text_nil, List.append_nil, List.length_append, hopen, hclose]
  omega

/-- The text of the `body` stands in that of the loop. -/
theorem text_infix_loop (body : Fragment) : text body <:+: text [.loop body] := by
  rw [text_cons, Code.text, text_nil, List.append_nil]
  exact List.infix_append _ _ _

end Fragment

/-! ### The text of generated code -/

/-- Symbols that are no brackets form plain source trees with their own text. -/
private theorem plain_symbols {up down : Char} (amount : Int)
    (hup : Source.IsPlain (.symbol (byte up))) (hdown : Source.IsPlain (.symbol (byte down))) :
    Source.ArePlain ((Code.symbols up down amount).map .symbol) ∧
      Source.texts ((Code.symbols up down amount).map .symbol) = Code.symbols up down amount := by
  have hreplicate : ∀ (n : Nat) (b : UInt8), Source.IsPlain (.symbol b) →
      Source.ArePlain ((List.replicate n b).map .symbol) ∧
        Source.texts ((List.replicate n b).map .symbol) = List.replicate n b := by
    intro n b hb
    induction n with
    | zero => exact ⟨trivial, rfl⟩
    | succ n ih => exact ⟨⟨hb, ih.1⟩, congrArg (b :: ·) ih.2⟩
  unfold Code.symbols
  split
  · exact ⟨trivial, rfl⟩
  · split
    · exact hreplicate _ _ hdown
    · exact hreplicate _ _ hup

mutual

/-- Code has source trees without brackets as symbols, and their text is that of the code. -/
private theorem Code.plain_sources : (code : Code) →
    Source.ArePlain code.sources ∧ Source.texts code.sources = code.text
  | .move amount => plain_symbols amount ⟨by decide, by decide⟩ ⟨by decide, by decide⟩
  | .add amount => plain_symbols amount ⟨by decide, by decide⟩ ⟨by decide, by decide⟩
  | .write => ⟨⟨⟨by decide, by decide⟩, trivial⟩, by decide⟩
  | .read => ⟨⟨⟨by decide, by decide⟩, trivial⟩, by decide⟩
  | .dump => ⟨⟨⟨by decide, by decide⟩, trivial⟩, by decide⟩
  | .loop body => by
    obtain ⟨hplain, htext⟩ := Fragment.plain_sources body
    refine ⟨⟨hplain, trivial⟩, ?_⟩
    have hopen : utf8 "[" = [byte '['] := by decide
    have hclose : utf8 "]" = [byte ']'] := by decide
    simp [Code.sources, Code.text, htext, hopen, hclose]
  | .noted _ body => Fragment.plain_sources body
  | .constant _ body => Fragment.plain_sources body

/-- The same for the parts of a fragment, one after another. -/
private theorem Fragment.plain_sources : (code : List Code) →
    Source.ArePlain (Fragment.sources code) ∧
      Source.texts (Fragment.sources code) = Fragment.text code
  | [] => ⟨trivial, rfl⟩
  | first :: rest => by
    obtain ⟨hplain, htext⟩ := Code.plain_sources first
    obtain ⟨hplain', htext'⟩ := Fragment.plain_sources rest
    exact ⟨by simp [hplain, hplain'], by simp [htext, htext']⟩

end

/-- Reading the text of generated code gives its source trees. -/
theorem Fragment.ofText_text (code : Fragment) :
    Source.ofText (Fragment.text code) = .ok (Fragment.sources code) :=
  Source.ofText_eq_ok_iff.mpr (Fragment.plain_sources code)

/-- The program of generated code. -/
theorem Fragment.parse_text (code : Fragment) :
    Program.parse (Fragment.text code) = .ok (Source.condense (Fragment.sources code)) := by
  rw [Program.parse, Fragment.ofText_text]
  rfl

/-! ### The effect of generated code -/

namespace Fragment

/-- What generated code does. -/
def effect (code : Fragment) : Effect :=
  Source.effects (sources code)

/-- A fragment has at most one ending, as its source trees have. -/
theorem effect_isFunctional (code : Fragment) : code.effect.IsFunctional :=
  Source.effects_isFunctional _

/-- No code does nothing. -/
@[simp] theorem effect_nil : effect [] = Effect.skip := rfl

/-- Two fragments in a row have their effects in a row. -/
@[simp] theorem effect_append (first second : Fragment) :
    effect (first ++ second) = first.effect.seq second.effect := by
  simp [effect, Source.effects_append]

/-- A fragment has the effect of its first part and that of the `rest`. -/
theorem effect_cons (code : Code) (rest : Fragment) :
    effect (code :: rest) = (effect [code]).seq (effect rest) :=
  effect_append [code] rest

/-- `write` writes the cell under the cursor. -/
@[simp] theorem effect_write : effect [.write] = Effect.of Snapshot.write :=
  Effect.seq_skip

/-- `read` reads into the cell under the cursor. -/
@[simp] theorem effect_read : effect [.read] = Effect.of Snapshot.read :=
  Effect.seq_skip

/-- A dump is no effect on what a program can see. -/
@[simp] theorem effect_dump : effect [.dump] = Effect.skip :=
  Effect.seq_skip

/-- A loop repeats the effect of its `body`. -/
@[simp] theorem effect_loop (body : Fragment) : effect [.loop body] = Effect.loop body.effect :=
  Effect.seq_skip

/-- Notes have no effect. -/
@[simp] theorem effect_noted (note : Bytes) (body : Fragment) :
    effect [.noted note body] = body.effect := by
  rw [effect, effect, sources_noted]

/-- A constant has the effect of its `body`. -/
@[simp] theorem effect_constant (amount : Int) (body : Fragment) :
    effect [.constant amount body] = body.effect := by
  rw [effect, effect, sources_constant]

end Fragment

/-- A run of one symbol that adds. -/
private theorem effects_replicate_add {b : UInt8} {amount : Int}
    (hb : Snapshot.symbol b = Snapshot.add amount) (n : Nat) :
    Source.effects ((List.replicate n b).map .symbol) = Effect.of (Snapshot.add (n * amount)) := by
  induction n with
  | zero =>
    funext s e
    have hzero : s.here + UInt8.ofInt 0 = s.here := UInt8.add_zero s.here
    simp [Snapshot.add, hzero, eq_comm]
  | succ n ih =>
    -- Bytes are added as integers are, up to multiples of 256.
    have hsum : UInt8.ofInt ((n + 1 : Nat) * amount) =
        UInt8.ofInt amount + UInt8.ofInt (n * amount) := by
      rw [← UInt8.ofInt_add, Int.natCast_add, Int.add_mul, Int.natCast_one, Int.one_mul,
        Int.add_comm]
    rw [List.replicate_succ, List.map_cons, Source.effects_cons, ih, Source.effect_symbol, hb]
    funext s e
    rw [Effect.add_seq_iff]
    simp only [Effect.of_iff, Snapshot.add, Snapshot.here_put, Snapshot.put_put, hsum,
      UInt8.add_assoc]

/-- The first of some equal steps stays between both ends. -/
theorem OnTape.first_step {pos amount : Int} {n : Nat} (hpos : OnTape pos)
    (hlast : OnTape (pos + (n + 1 : Nat) * amount)) : OnTape (pos + amount) := by
  unfold OnTape at hpos hlast ⊢
  rw [Int.natCast_add, Int.add_mul, Int.natCast_one, Int.one_mul] at hlast
  rcases Int.le_total 0 amount with hup | hdown
  · have := Int.mul_nonneg (Int.natCast_nonneg n) hup
    omega
  · have := Int.mul_nonneg (Int.natCast_nonneg n) (Int.neg_nonneg.mpr hdown)
    rw [Int.mul_neg] at this
    omega

/-- A run of one symbol that moves. The cursor stays on the tape on the way if both ends are on
it. -/
private theorem effects_replicate_move {b : UInt8} {amount : Int}
    (hb : Snapshot.symbol b = Snapshot.move amount) (n : Nat) {s : Snapshot}
    (hs : OnTape s.cursor) (ht : OnTape (s.cursor + n * amount)) :
    Source.effects ((List.replicate n b).map .symbol) s
      (.done (s.goTo (s.cursor + n * amount))) := by
  induction n generalizing s with
  | zero => simp
  | succ n ih =>
    have hsum : s.cursor + amount + n * amount = s.cursor + (n + 1 : Nat) * amount := by
      rw [Int.natCast_add, Int.add_mul, Int.natCast_one, Int.one_mul]
      omega
    -- The first step ends between both ends of the run.
    have hnext : OnTape (s.cursor + amount) := hs.first_step ht
    rw [List.replicate_succ, List.map_cons, Source.effects_cons, Source.effect_symbol, hb]
    refine Effect.seq_of_done (t := s.goTo (s.cursor + amount)) (if_pos hnext) ?_
    have hrest := ih (s := s.goTo (s.cursor + amount)) hnext (by simpa [hsum] using ht)
    simpa [hsum] using hrest

namespace Fragment

/-- An addition adds its amount, modulo 256. -/
@[simp] theorem effect_adding (amount : Int) :
    effect (adding amount) = Effect.of (Snapshot.add amount) := by
  have hplus := effects_replicate_add (show Snapshot.symbol (byte '+') = Snapshot.add 1 from rfl)
  have hminus := effects_replicate_add (show Snapshot.symbol (byte '-') =
    Snapshot.add (-1) from rfl)
  unfold adding
  split
  · next hzero =>
    subst hzero
    exact hplus 0
  · have hcode : effect [.add amount] =
      Source.effects ((Code.symbols '+' '-' amount).map .symbol) := by
      simp [effect, Code.sources]
    rw [hcode, Code.symbols]
    split
    · -- The least word has no symbols at all, and it is zero modulo 256.
      next hleast =>
      subst hleast
      have hzero : Snapshot.add (Word.least) = Snapshot.add ((0 : Nat) * 1) := by
        funext s
        have hbyte : UInt8.ofInt Word.least = UInt8.ofInt ((0 : Nat) * 1) := by decide
        rw [Snapshot.add, Snapshot.add, hbyte]
      rw [hzero]
      exact hplus 0
    · split
      · next hneg =>
        have hamount : (amount.natAbs : Int) * -1 = amount := by omega
        rw [hminus, hamount]
      · next hpos =>
        have hamount : (amount.natAbs : Int) * 1 = amount := by omega
        rw [hplus, hamount]

/-- A move between cells of the tape. -/
theorem effect_moving {s : Snapshot} {amount : Int} (hs : OnTape s.cursor)
    (ht : OnTape (s.cursor + amount)) :
    effect (moving amount) s (.done (s.goTo (s.cursor + amount))) := by
  unfold moving
  split
  · next hzero =>
    subst hzero
    simp
  · have hcode : effect [.move amount] =
      Source.effects ((Code.symbols '>' '<' amount).map .symbol) := by
      simp [effect, Code.sources]
    -- No two cells of the tape are that far apart.
    have hleast : amount ≠ Word.least := by
      unfold OnTape Register.lastPosition at hs ht
      unfold Word.least
      omega
    rw [hcode, Code.symbols, if_neg hleast]
    split
    · next hneg =>
      have hamount : (amount.natAbs : Int) * -1 = amount := by omega
      rw [← hamount] at ht
      have hmove := effects_replicate_move (show Snapshot.symbol (byte '<') =
        Snapshot.move (-1) from rfl) amount.natAbs hs ht
      rwa [hamount] at hmove
    · next hpos =>
      have hamount : (amount.natAbs : Int) * 1 = amount := by omega
      rw [← hamount] at ht
      have hmove := effects_replicate_move (show Snapshot.symbol (byte '>') =
        Snapshot.move 1 from rfl) amount.natAbs hs ht
      rwa [hamount] at hmove

/-- A move between cells of the tape is passed over. -/
theorem moving_seq_iff {s : Snapshot} {amount pos : Int} {b : Effect} {e : Ending}
    (hs : OnTape s.cursor) (hpos : s.cursor + amount = pos) (ht : OnTape pos) :
    ((effect (moving amount)).seq b) s e ↔ b (s.goTo pos) e :=
  (effect_isFunctional _).seq_of_done_iff (hpos ▸ effect_moving hs (hpos.symm ▸ ht))

/-- A step to the right is a single symbol, so it is a move even where it leaves the tape. -/
@[simp] theorem effect_moving_right : effect (moving 1) = Effect.of (Snapshot.move 1) :=
  Effect.seq_skip

/-- A step to the left is a single symbol, too. -/
@[simp] theorem effect_moving_left : effect (moving (-1)) = Effect.of (Snapshot.move (-1)) :=
  Effect.seq_skip

/-- Setting a cell to zero. -/
@[simp] theorem effect_clear : effect [.loop [.add (-1)]] = Effect.of fun s => .done (s.put 0) := by
  rw [effect_loop]
  exact Source.loop_minus

end Fragment

end TapeMachine
