import TapeMachine.Proofs.CheckedPrograms
import TapeMachine.Proofs.SourceText

/-!
# Checked programs have texts

The check accepts exactly the trees that can be read from a text, up to the amounts of loops, which
mean nothing and are zero in everything that was read. That the check accepts nothing else takes a
text for every tree that it accepts. A blank stands in this text where runs of one kind meet, which
would be read as one run otherwise, and in front of a single `-` inside brackets, where it keeps a
loop from being read as a cell that is cleared.

No text with the same tree is shorter, as each blank is needed and each symbol counts for one at
most. So a bound on the length of texts, such as every machine has, is a bound on the trees that are
read.

The module introduces:

* `Program.normalize`: a program with the amounts of its loops set to zero;
* `Node.sources`, `Program.text`: the shortest text of a program;
* `Program.parse_text`: the text of a checked program is read as that program;
* `Program.length_text_le`: no text of a program is shorter;
* `Program.check_and_length_text_le_iff`: which trees are read from texts of bounded length.
-/

namespace TapeMachine

/-! ### Amounts of loops -/

mutual

/-- A node with the amounts of the loops in it set to zero. -/
def Node.normalize : Node → Node
  | ⟨op, amount, body⟩ => ⟨op, if op = .loop then 0 else amount, Node.normalizeAll body⟩

/-- Nodes with the amounts of the loops in them set to zero. -/
def Node.normalizeAll : List Node → List Node
  | [] => []
  | node :: rest => node.normalize :: Node.normalizeAll rest

end

/-- A program with the amounts of its loops set to zero. -/
def Program.normalize (program : Program) : Program :=
  Node.normalizeAll program

theorem Node.isEmpty_normalizeAll (nodes : List Node) :
    (Node.normalizeAll nodes).isEmpty = nodes.isEmpty := by
  cases nodes <;> rfl

mutual

/-- The amounts of loops do not matter to the check. -/
theorem Node.fault_normalize : (node : Node) → node.normalize.fault = node.fault
  | ⟨op, amount, body⟩ => by
    rw [Node.normalize]
    by_cases hloop : op = .loop
    · subst hloop
      rw [Node.fault.eq_def, Node.fault.eq_def]
      change (if (Node.normalizeAll body).isEmpty then _ else _) = if body.isEmpty then _ else _
      rw [Node.isEmpty_normalizeAll, Node.firstFault_normalizeAll body]
    · rw [if_neg hloop, Node.fault, Node.fault, Node.isEmpty_normalizeAll]
      · exact hloop
      · exact hloop

theorem Node.firstFault_normalizeAll : (nodes : List Node) →
    Node.firstFault (Node.normalizeAll nodes) = Node.firstFault nodes
  | [] => rfl
  | node :: rest => by
    rw [Node.normalizeAll, Node.firstFault, Node.firstFault, Node.fault_normalize node,
      Node.firstFault_normalizeAll rest]

end

theorem Program.check_normalize (program : Program) : program.normalize.check = program.check := by
  rw [Program.check, Program.check, Program.normalize, Node.firstFault_normalizeAll]

/-! ### Texts of programs -/

/-- As many of one symbol as a positive amount asks for, or of another for a negative one. -/
def Source.signed (up down : Char) (amount : Int64) : List Source :=
  List.replicate amount.toInt.natAbs (.symbol (byte (if amount < 0 then down else up)))

/-- The symbols of an operation with an amount, given the source trees of its body. -/
def Op.sources (op : Op) (amount : Int64) (inner : List Source) : List Source :=
  match op with
  | .loop => [.loop inner]
  | .write => [.symbol (byte '.')]
  | .read => [.symbol (byte ',')]
  | .move => Source.signed '>' '<' amount
  | .add => Source.signed '+' '-' amount
  | .clear => [.loop [.symbol (byte '-')]]
  | .dump => [.symbol (byte '@')]
  | _ => []

/-- Whether an operation is written as a run of symbols. -/
def Op.isRun (op : Op) : Bool :=
  op = .move || op = .add

/-- What stands between operations: a blank, if both are runs of one kind. -/
def Op.separator (before op : Op) : List Source :=
  if before = op ∧ op.isRun then [.symbol (byte ' ')] else []

/-- What the body of a loop begins with: a blank, if it is a single decrement. -/
def Node.opening : List Node → List Source
  | [⟨op, amount, _⟩] => if op = .add ∧ amount = -1 then [.symbol (byte ' ')] else []
  | _ => []

mutual

/-- The source trees of a node. -/
def Node.sources : Node → List Source
  | ⟨op, amount, body⟩ => op.sources amount (Node.opening body ++ Node.allSources .loop body)

/-- The source trees of nodes that stand behind the operation `before`. -/
def Node.allSources (before : Op) : List Node → List Source
  | [] => []
  | node :: rest => before.separator node.op ++ (node.sources ++ Node.allSources node.op rest)

end

/-- The shortest text of a program. -/
def Program.text (program : Program) : Bytes :=
  Source.texts (Node.allSources .loop program)

/-- There are as many symbols as the amount says. -/
theorem Source.length_texts_signed (up down : Char) (amount : Int64) :
    (texts (signed up down amount)).length = amount.toInt.natAbs := by
  rw [signed]
  induction amount.toInt.natAbs with
  | zero => rfl
  | succ n ih =>
    rw [List.replicate_succ, texts_cons, List.length_append, ih, text_symbol, List.length_singleton,
      Nat.add_comm]

theorem Source.arePlain_signed {up down : Char} (hup : IsPlain (.symbol (byte up)))
    (hdown : IsPlain (.symbol (byte down))) (amount : Int64) :
    ArePlain (signed up down amount) := by
  rw [signed]
  induction amount.toInt.natAbs with
  | zero => trivial
  | succ n ih =>
    refine ⟨?_, ih⟩
    split
    · exact hdown
    · exact hup

theorem Op.arePlain_sources (op : Op) (amount : Int64) {inner : List Source}
    (hinner : Source.ArePlain inner) : Source.ArePlain (op.sources amount inner) := by
  have hsymbol {c : Char} (h : Bytes.char (byte c) ≠ '[' ∧ Bytes.char (byte c) ≠ ']') :
      Source.IsPlain (.symbol (byte c)) := h
  unfold Op.sources
  split
  · exact ⟨hinner, trivial⟩
  · exact ⟨hsymbol (by decide), trivial⟩
  · exact ⟨hsymbol (by decide), trivial⟩
  · exact Source.arePlain_signed (hsymbol (by decide)) (hsymbol (by decide)) amount
  · exact Source.arePlain_signed (hsymbol (by decide)) (hsymbol (by decide)) amount
  · exact ⟨⟨hsymbol (by decide), trivial⟩, trivial⟩
  · exact ⟨hsymbol (by decide), trivial⟩
  · trivial

/-- Nothing is told apart unless there are two runs. -/
theorem Op.separator_eq_nil {before op : Op} (h : before.isRun = false ∨ op.isRun = false) :
    before.separator op = [] := by
  refine if_neg ?_
  rintro ⟨rfl, hrun⟩
  simp [hrun] at h

/-- A blank is no bracket. -/
theorem Source.arePlain_blank : ArePlain [.symbol (byte ' ')] :=
  ⟨isPlain_symbol.mpr (by decide), trivial⟩

theorem Op.arePlain_separator (before op : Op) : Source.ArePlain (before.separator op) := by
  unfold separator
  split
  · exact Source.arePlain_blank
  · trivial

/-- A body begins with nothing, or with a blank if it is a single decrement. -/
theorem Node.opening_cases (body : List Node) :
    Node.opening body = [] ∨
      Node.opening body = [.symbol (byte ' ')] ∧ ∃ inner, body = [⟨.add, -1, inner⟩] := by
  unfold opening
  split
  · next op amount inner =>
    split
    · next h =>
      obtain ⟨rfl, rfl⟩ := h
      exact Or.inr ⟨rfl, inner, rfl⟩
    · exact Or.inl rfl
  · exact Or.inl rfl

theorem Node.arePlain_opening (body : List Node) : Source.ArePlain (Node.opening body) := by
  obtain h | ⟨h, -⟩ := Node.opening_cases body <;> rw [h]
  · trivial
  · exact Source.arePlain_blank

mutual

theorem Node.arePlain_sources : (node : Node) → Source.ArePlain node.sources
  | ⟨op, amount, body⟩ =>
    op.arePlain_sources amount (Source.arePlain_append.mpr
      ⟨Node.arePlain_opening body, Node.arePlain_allSources .loop body⟩)

theorem Node.arePlain_allSources (before : Op) : (nodes : List Node) →
    Source.ArePlain (Node.allSources before nodes)
  | [] => trivial
  | node :: rest => by
    rw [Node.allSources, Source.arePlain_append, Source.arePlain_append]
    exact ⟨before.arePlain_separator node.op, Node.arePlain_sources node,
      Node.arePlain_allSources node.op rest⟩

end

/-- Matching the brackets of the text of a program gives its source trees. -/
theorem Program.ofText_text (program : Program) :
    Source.ofText program.text = .ok (Node.allSources .loop program) :=
  Source.ofText_eq_ok_iff.mpr ⟨Node.arePlain_allSources .loop program, rfl⟩

/-- What a body begins with has nothing to do with the amounts of loops. -/
theorem Node.opening_normalizeAll (nodes : List Node) :
    Node.opening (Node.normalizeAll nodes) = Node.opening nodes := by
  rcases nodes with _ | ⟨⟨op, amount, body⟩, _ | ⟨second, rest⟩⟩
  · rfl
  · rw [Node.normalizeAll, Node.normalizeAll, Node.normalize, Node.opening, Node.opening]
    by_cases hloop : op = .loop
    · subst hloop
      rfl
    · rw [if_neg hloop]
  · rfl

theorem Node.op_normalize (node : Node) : node.normalize.op = node.op := by
  cases node
  rw [Node.normalize]

mutual

/-- The text of a node does not show the amounts of loops. -/
theorem Node.sources_normalize : (node : Node) → node.normalize.sources = node.sources
  | ⟨op, amount, body⟩ => by
    rw [Node.normalize, Node.sources, Node.sources, Node.opening_normalizeAll,
      Node.allSources_normalizeAll .loop body]
    by_cases hloop : op = .loop
    · subst hloop
      rfl
    · rw [if_neg hloop]

theorem Node.allSources_normalizeAll (before : Op) : (nodes : List Node) →
    Node.allSources before (Node.normalizeAll nodes) = Node.allSources before nodes
  | [] => rfl
  | node :: rest => by
    rw [Node.normalizeAll, Node.allSources, Node.allSources, Node.sources_normalize node,
      Node.op_normalize, Node.allSources_normalizeAll node.op rest]

end

/-- The text of a program does not show the amounts of loops. -/
theorem Program.text_normalize (program : Program) : program.normalize.text = program.text := by
  rw [Program.text, Program.normalize, Node.allSources_normalizeAll, Program.text]

/-! ### Reading the text of a program -/

/-- A node without a fault that is no loop moves or adds, by an amount that is not zero, or is one
of those that take no amount. -/
theorem Node.leaf_of_fault_eq_none {op : Op} {amount : Int64} (hop : op ≠ .loop)
    (h : Node.fault ⟨op, amount, []⟩ = none) :
    (op = .move ∧ amount ≠ 0) ∨ (op = .add ∧ amount ≠ 0) ∨
      (op ∈ [.write, .read, .clear, .dump] ∧ amount = 0) := by
  rw [Node.fault] at h
  · unfold Node.leafFault at h
    split at h
    case h_7 => cases h
    all_goals split at h
    case h_1.isFalse hamount => exact .inl ⟨rfl, hamount⟩
    case h_2.isFalse hamount => exact .inr (.inl ⟨rfl, hamount⟩)
    case h_3.isFalse hamount | h_4.isFalse hamount | h_5.isFalse hamount | h_6.isFalse hamount =>
      exact .inr (.inr ⟨by decide, Decidable.not_not.mp hamount⟩)
    all_goals cases h
  · exact hop

namespace Source

/-- Symbols that each add the same to a run. -/
theorem condenseFrom_replicate {run : Int64 → Run} {b : UInt8} {step : Int64}
    (hstep : ∀ sofar, (run sofar).symbol b [] = ([], run (sofar + step))) (n : Nat) (sofar : Int64)
    (rest : List Source) :
    condenseFrom [] (run sofar) (List.replicate n (.symbol b) ++ rest) =
      condenseFrom [] (run (sofar + Int64.ofNat n * step)) rest := by
  induction n generalizing sofar with
  | zero => simp
  | succ n ih =>
    have hsum : sofar + step + Int64.ofNat n * step = sofar + Int64.ofNat (n + 1) * step := by
      rw [Int64.ofNat_add]
      grind
    rw [List.replicate_succ, List.cons_append, condenseFrom_symbol, hstep, ih, hsum]
    rfl

/-- An amount is its sign as often as it says. -/
theorem ofNat_natAbs_mul (amount : Int64) :
    Int64.ofNat amount.toInt.natAbs * (if amount < 0 then -1 else 1) = amount := by
  -- The least amount has no opposite, so the sign is carried by integers.
  have hofNat : ∀ n : Nat, Int64.ofNat n = Int64.ofInt n := fun n => rfl
  rw [hofNat]
  split
  · next hneg =>
    have habs : -(amount.toInt.natAbs : Int) = amount.toInt := by
      rw [Int64.lt_iff_toInt_lt] at hneg
      have hzero : (0 : Int64).toInt = 0 := rfl
      omega
    have hminus : ∀ n : Int64, n * -1 = -n := by grind
    rw [hminus, ← Int64.ofInt_neg, habs, Int64.ofInt_toInt]
  · next hneg =>
    have habs : (amount.toInt.natAbs : Int) = amount.toInt := by
      rw [Int64.lt_iff_toInt_lt] at hneg
      have hzero : (0 : Int64).toInt = 0 := rfl
      omega
    rw [Int64.mul_one, habs, Int64.ofInt_toInt]

/-- There is a first symbol of an amount that is not zero. -/
theorem exists_natAbs_eq_succ {amount : Int64} (hamount : amount ≠ 0) :
    ∃ n, amount.toInt.natAbs = n + 1 := by
  refine Nat.exists_eq_succ_of_ne_zero fun hzero => hamount ?_
  have hsum := ofNat_natAbs_mul amount
  rw [hzero] at hsum
  simpa using hsum.symm

/-- As many symbols as an amount says are read as that amount. -/
theorem condenseFrom_signed {run : Int64 → Run} {up down : Char}
    (hup : ∀ sofar, (run sofar).symbol (byte up) [] = ([], run (sofar + 1)))
    (hdown : ∀ sofar, (run sofar).symbol (byte down) [] = ([], run (sofar + -1)))
    (hfirstUp : Run.none.symbol (byte up) [] = (run 0).symbol (byte up) [])
    (hfirstDown : Run.none.symbol (byte down) [] = (run 0).symbol (byte down) [])
    {amount : Int64} (hamount : amount ≠ 0) (rest : List Source) :
    condenseFrom [] .none (signed up down amount ++ rest) = condenseFrom [] (run amount) rest := by
  have hsum := ofNat_natAbs_mul amount
  obtain ⟨n, hn⟩ := exists_natAbs_eq_succ hamount
  rw [signed, hn]
  -- The first symbol begins the run, as if it went on from zero.
  have hbegin : ∀ b, Run.none.symbol b [] = (run 0).symbol b [] →
      condenseFrom [] .none (List.replicate (n + 1) (.symbol b) ++ rest) =
        condenseFrom [] (run 0) (List.replicate (n + 1) (.symbol b) ++ rest) := by
    intro b hb
    rw [List.replicate_succ, List.cons_append, condenseFrom_symbol, condenseFrom_symbol, hb]
  rw [hn] at hsum
  split at hsum
  · next hneg =>
    rw [if_pos hneg, hbegin _ hfirstDown, condenseFrom_replicate hdown, hsum, Int64.zero_add]
  · next hneg =>
    rw [if_neg hneg, hbegin _ hfirstUp, condenseFrom_replicate hup, hsum, Int64.zero_add]

end Source

namespace Run

/-- Whether a run stands behind the operation `before`: it is the run of that operation, or there is
no run and the operation is none. -/
def Follows (before : Op) : Run → Prop
  | .none => before.isRun = false
  | .adding _ => before = .add
  | .moving _ => before = .move

/-- Whether a symbol ends a run. -/
def IsEndedBy (run : Run) (b : UInt8) : Prop :=
  run.symbol b [] = ((Run.none.symbol b []).1 ++ run.finish [], (Run.none.symbol b []).2)

end Run

namespace Source

variable {run : Run} {before : Op}

/-- A symbol that ends a run is read as if there had been no run. -/
theorem condenseFrom_of_isEndedBy {b : UInt8} (h : run.IsEndedBy b) (rest : List Source) :
    condenseFrom [] run (.symbol b :: rest) =
      run.finish [] ++ condenseFrom [] .none (.symbol b :: rest) := by
  rw [condenseFrom_symbol, condenseFrom_symbol, h, List.reverse_append, Run.finish_reverse,
    List.append_assoc]

/-- A blank ends every run and is nothing else. -/
theorem condenseFrom_blank (run : Run) (rest : List Source) :
    condenseFrom [] run (.symbol (byte ' ') :: rest) =
      run.finish [] ++ condenseFrom [] .none rest := by
  have hblank : run.symbol (byte ' ') [] = (run.finish [], .none) := rfl
  rw [condenseFrom_symbol, hblank, Run.finish_reverse]

/-- The symbols of a run are told apart from those of a run before it. -/
theorem condenseFrom_separator_signed {op : Op} (hop : op.isRun) {up down : Char}
    (hended : before ≠ op → run.IsEndedBy (byte up) ∧ run.IsEndedBy (byte down))
    {amount : Int64} (hamount : amount ≠ 0) (rest : List Source) :
    condenseFrom [] run (before.separator op ++ (signed up down amount ++ rest)) =
      run.finish [] ++ condenseFrom [] .none (signed up down amount ++ rest) := by
  by_cases hsame : before = op
  · rw [Op.separator, if_pos ⟨hsame, hop⟩]
    exact condenseFrom_blank run _
  · obtain ⟨n, hn⟩ := exists_natAbs_eq_succ hamount
    rw [Op.separator, if_neg fun h => hsame h.1, signed, hn, List.replicate_succ]
    apply condenseFrom_of_isEndedBy
    split
    · exact (hended hsame).2
    · exact (hended hsame).1

/-- The symbols of an operation are told apart from a run before it. -/
theorem condenseFrom_separator {op : Op} {amount : Int64} {body : List Node}
    (hok : Node.fault ⟨op, amount, body⟩ = none) (h : run.Follows before) (inner : List Source)
    (rest : List Source) :
    condenseFrom [] run (before.separator op ++ (op.sources amount inner ++ rest)) =
      run.finish [] ++ condenseFrom [] .none (op.sources amount inner ++ rest) := by
  have hnone : op.isRun = false → before.separator op = [] := fun hrun =>
    Op.separator_eq_nil (Or.inr hrun)
  have hloop : ∀ inner, condenseFrom [] run (.loop inner :: rest) =
      run.finish [] ++ condenseFrom [] .none (.loop inner :: rest) := by
    intro inner
    rw [condenseFrom_loop, condenseFrom_loop]
    rfl
  obtain ⟨rfl, -, -⟩ | ⟨hop, rfl⟩ := Node.body_of_fault_eq_none hok
  · rw [hnone rfl]
    exact hloop inner
  -- A run of the same kind is the only one that a blank has to end.
  obtain ⟨rfl, hamount⟩ | ⟨rfl, hamount⟩ | ⟨hop, rfl⟩ := Node.leaf_of_fault_eq_none hop hok
  · refine condenseFrom_separator_signed rfl (fun hne => ?_) hamount rest
    cases run with
    | moving amount => exact absurd h hne
    | none => exact ⟨rfl, rfl⟩
    | adding amount => exact ⟨rfl, rfl⟩
  · refine condenseFrom_separator_signed rfl (fun hne => ?_) hamount rest
    cases run with
    | adding amount => exact absurd h hne
    | none => exact ⟨rfl, rfl⟩
    | moving amount => exact ⟨rfl, rfl⟩
  · have hended : run.IsEndedBy (byte '.') ∧ run.IsEndedBy (byte ',') ∧
        run.IsEndedBy (byte '@') := by
      cases run <;> exact ⟨rfl, rfl, rfl⟩
    simp only [List.mem_cons, List.not_mem_nil, or_false] at hop
    obtain rfl | rfl | rfl | rfl := hop <;> rw [hnone rfl]
    · exact condenseFrom_of_isEndedBy hended.1 rest
    · exact condenseFrom_of_isEndedBy hended.2.1 rest
    · exact hloop _
    · exact condenseFrom_of_isEndedBy hended.2.2 rest

/-- The symbols of an operation that is no loop are read as this operation. -/
theorem condenseFrom_sources {op : Op} {amount : Int64} (hop : op ≠ .loop)
    (hok : Node.fault ⟨op, amount, []⟩ = none) (inner : List Source) {rest : List Source}
    {nodes : List Node}
    (hrest : ∀ run : Run, run.Follows op → condenseFrom [] run rest = run.finish [] ++ nodes) :
    condenseFrom [] .none (op.sources amount inner ++ rest) = ⟨op, amount, []⟩ :: nodes := by
  obtain ⟨rfl, hamount⟩ | ⟨rfl, hamount⟩ | ⟨hop, rfl⟩ := Node.leaf_of_fault_eq_none hop hok
  · have hread := @condenseFrom_signed .moving '>' '<' (fun _ => rfl) (fun _ => rfl)
      rfl rfl amount hamount rest
    rw [hrest (.moving amount) rfl, Run.finish, if_neg hamount] at hread
    exact hread
  · have hread := @condenseFrom_signed .adding '+' '-' (fun _ => rfl) (fun _ => rfl)
      rfl rfl amount hamount rest
    rw [hrest (.adding amount) rfl, Run.finish, if_neg hamount] at hread
    exact hread
  · have hsymbol : ∀ b node, Run.none.symbol b [] = ([node], .none) →
        condenseFrom [] .none rest = nodes →
        condenseFrom [] .none (.symbol b :: rest) = node :: nodes := by
      intro b node hb hnone
      rw [condenseFrom_symbol, hb, hnone]
      rfl
    simp only [List.mem_cons, List.not_mem_nil, or_false] at hop
    obtain rfl | rfl | rfl | rfl := hop
    · exact hsymbol _ _ rfl (hrest .none rfl)
    · exact hsymbol _ _ rfl (hrest .none rfl)
    · -- Clearing is the one operation that is written as a loop.
      have hnone : condenseFrom [] .none rest = nodes := hrest .none rfl
      have hminus : loopNodes [.symbol (byte '-')] = [{ op := .clear }] := by
        rw [loopNodes]
        rfl
      have hclear := condenseFrom_loop .none [.symbol (byte '-')] rest
      rw [hnone, hminus] at hclear
      exact hclear
    · exact hsymbol _ _ rfl (hrest .none rfl)

/-- A loop around the source trees of some nodes is read as a loop around these nodes, as a single
decrement has a blank before it. -/
theorem loopNodes_opening {body : List Node} {nodes : List Node} (hnodes : nodes ≠ [])
    (hread : condenseFrom [] .none (Node.allSources .loop body) = nodes)
    (hopening : Node.opening nodes = Node.opening body) :
    loopNodes (Node.opening body ++ Node.allSources .loop body) =
      [{ op := .loop, body := nodes }] := by
  have hinner : condenseFrom [] .none (Node.opening body ++ Node.allSources .loop body) =
      nodes := by
    obtain h | ⟨h, -⟩ := Node.opening_cases body <;> rw [h]
    · exact hread
    · exact (condenseFrom_blank .none _).trans hread
  obtain ⟨-, hempty⟩ | ⟨hminus, -⟩ | hloop :=
    loopNodes_cases (Node.opening body ++ Node.allSources .loop body)
  · exact absurd (hinner.symm.trans hempty) hnodes
  · -- These would be the trees of a decrement, but then there would be a blank.
    have hdecrement : condenseFrom [] .none [.symbol (byte '-')] =
        [{ op := .add, amount := -1 }] := by
      rw [condenseFrom_symbol, condenseFrom_nil]
      rfl
    rw [hminus, hdecrement] at hinner
    rw [← hopening, ← hinner] at hminus
    have hblank : Node.opening [{ op := .add, amount := -1 }] = [.symbol (byte ' ')] := rfl
    rw [hblank] at hminus
    exact absurd (Source.symbol.inj (List.cons.inj hminus).1) (by decide)
  · rw [hloop, hinner]

end Source

mutual

/-- The source trees of a node without a fault are read as this node. -/
theorem Node.condenseFrom_sources : (node : Node) → node.fault = none → {rest : List Source} →
    {nodes : List Node} →
    (∀ run : Run, run.Follows node.op → Source.condenseFrom [] run rest = run.finish [] ++ nodes) →
    Source.condenseFrom [] .none (node.sources ++ rest) = node.normalize :: nodes
  | ⟨op, amount, body⟩, hok, rest, nodes, hrest => by
    rw [Node.sources, Node.normalize]
    obtain ⟨rfl, hne, hinner⟩ | ⟨hop, rfl⟩ := Node.body_of_fault_eq_none hok
    · have hread := Node.condenseFrom_allSources body hinner .loop .none rfl
      have hsome : Node.normalizeAll body ≠ [] := by
        rwa [← List.isEmpty_eq_false_iff, Node.isEmpty_normalizeAll, List.isEmpty_eq_false_iff]
      have hloop := Source.condenseFrom_loop .none
        (Node.opening body ++ Node.allSources .loop body) rest
      rw [Source.loopNodes_opening hsome hread (Node.opening_normalizeAll body),
        hrest .none rfl] at hloop
      exact hloop
    · rw [if_neg hop]
      exact Source.condenseFrom_sources hop hok _ hrest

/-- The source trees of nodes without a fault are read as these nodes, behind any run that stands
before them. -/
theorem Node.condenseFrom_allSources : (nodes : List Node) → Node.firstFault nodes = none →
    (before : Op) → (run : Run) → run.Follows before →
    Source.condenseFrom [] run (Node.allSources before nodes) =
      run.finish [] ++ Node.normalizeAll nodes
  | [], _, before, run, _ => by
    rw [Node.allSources, Source.condenseFrom_nil, Node.normalizeAll, List.append_nil]
  | ⟨op, amount, body⟩ :: rest, hok, before, run, hrun => by
    obtain ⟨hnode, hrest⟩ := Node.firstFault_cons_eq_none.mp hok
    have hread := Node.condenseFrom_sources ⟨op, amount, body⟩ hnode
      fun run hrun => Node.condenseFrom_allSources rest hrest op run hrun
    have hseparated := Source.condenseFrom_separator hnode hrun
      (Node.opening body ++ Node.allSources .loop body) (Node.allSources op rest)
    rw [Node.sources] at hread
    rw [Node.allSources, Node.sources, hseparated, hread, Node.normalizeAll]

end

namespace Program

/-- The text of a checked program is read as that program. -/
theorem parse_text {program : Program} (hok : program.check = .ok ()) :
    Program.parse program.text = .ok program.normalize := by
  have hread := Node.condenseFrom_allSources program (Program.check_eq_ok_iff.mp hok)
    .loop .none rfl
  rw [Program.parse, Program.ofText_text, Except.map, Source.condense, hread]
  rfl

end Program

/-! ### No text is shorter -/

/-- How many bytes the nodes behind the operation `before` take. -/
def Node.size (before : Op) (nodes : List Node) : Nat :=
  (Source.texts (Node.allSources before nodes)).length

namespace Node

variable {before : Op} {nodes : List Node}

@[simp] theorem size_nil (before : Op) : Node.size before [] = 0 := rfl

theorem size_cons (before : Op) (node : Node) (rest : List Node) :
    Node.size before (node :: rest) = (before.separator node.op).length +
      (Source.texts node.sources).length + Node.size node.op rest := by
  have hseparator : (Source.texts (before.separator node.op)).length =
      (before.separator node.op).length := by
    unfold Op.separator
    split <;> rfl
  rw [size, allSources, Source.texts_append, Source.texts_append, List.length_append,
    List.length_append, hseparator, size, Nat.add_assoc]

/-- A blank more is needed behind an operation than at the beginning, and only behind a run. -/
theorem size_bounds (before : Op) (nodes : List Node) :
    Node.size .loop nodes ≤ Node.size before nodes ∧
      Node.size before nodes ≤ (if before.isRun then 1 else 0) + Node.size .loop nodes := by
  cases nodes with
  | nil => simp
  | cons node rest =>
    have hbefore : (before.separator node.op).length ≤ if before.isRun then 1 else 0 := by
      cases hrun : before.isRun with
      | false =>
        rw [Op.separator_eq_nil (Or.inl hrun)]
        exact Nat.zero_le _
      | true =>
        unfold Op.separator
        split <;> decide
    have hloop : Op.separator .loop node.op = [] := Op.separator_eq_nil (Or.inl rfl)
    rw [size_cons, size_cons, hloop, List.length_nil]
    omega

end Node

namespace Run

variable {run : Run} {before : Op} {count : Nat} {nodes : List Node}

/-- The operation of a run. -/
def op : Run → Op
  | .none => .loop
  | .adding _ => .add
  | .moving _ => .move

/-- Whether the `count` symbols read since the operation `before` suffice for a run and for what
tells the run apart. -/
def Covers (before : Op) (count : Nat) : Run → Prop
  | .none => before.isRun → 1 ≤ count
  | .adding amount => before ≠ .add ∧ 1 ≤ count ∧ amount.toInt.natAbs ≤ count
  | .moving amount => before ≠ .move ∧ 1 ≤ count ∧ amount.toInt.natAbs ≤ count

/-- No symbol is needed where neither an operation nor a run is written. -/
theorem covers_loop (count : Nat) : Run.none.Covers .loop count :=
  fun hrun => absurd hrun (by decide)

/-- A run that has vanished leaves enough symbols to tell the nodes behind it apart. -/
private theorem size_of_vanished (hcount : before.isRun → 1 ≤ count) (op : Op) (nodes : List Node) :
    Node.size before nodes ≤ count + Node.size op nodes := by
  have hbefore := (Node.size_bounds before nodes).2
  have hop := (Node.size_bounds op nodes).1
  split at hbefore
  · next hrun => have := hcount hrun; omega
  · omega

/-- The symbols of a run of the operation `op` suffice for its node, if it has one. -/
private theorem size_of_run (op : Op) {amount : Int64}
    (hsource : (Source.texts (Node.sources ⟨op, amount, []⟩)).length = amount.toInt.natAbs)
    (h : before ≠ op ∧ 1 ≤ count ∧ amount.toInt.natAbs ≤ count) (nodes : List Node) :
    Node.size before ((if amount = 0 then [] else [⟨op, amount, []⟩]) ++ nodes) ≤
      count + Node.size op nodes := by
  obtain ⟨hne, hone, hamount⟩ := h
  split
  · -- A run that has vanished leaves no node, but has cost a symbol, which pays for a blank.
    exact size_of_vanished (fun _ => hone) op nodes
  · have hseparator : before.separator op = [] := if_neg fun h => hne h.1
    rw [List.singleton_append, Node.size_cons, hsource, hseparator, List.length_nil]
    exact Nat.add_le_add_right (by omega) _

/-- The symbols of a run suffice for what is read of it. -/
theorem Covers.size_finish (h : run.Covers before count) (nodes : List Node) :
    Node.size before (run.finish [] ++ nodes) ≤ count + Node.size run.op nodes := by
  cases run with
  | none => exact size_of_vanished h .loop nodes
  | adding amount => exact size_of_run .add (Source.length_texts_signed '+' '-' amount) h nodes
  | moving amount => exact size_of_run .move (Source.length_texts_signed '>' '<' amount) h nodes

/-- A step of one makes an amount at most one larger, also where it wraps around. -/
theorem natAbs_add_le (amount : Int64) {step : Int64} (hstep : step = 1 ∨ step = -1) :
    (amount + step).toInt.natAbs ≤ amount.toInt.natAbs + 1 := by
  have hlow := amount.le_toInt
  have hhigh := amount.toInt_lt
  have hwrap : (amount + step).toInt = (amount.toInt + step.toInt).bmod (2 ^ 64) :=
    Int64.toInt_add ..
  rw [hwrap]
  rcases hstep with rfl | rfl
  · have hone : (1 : Int64).toInt = 1 := rfl
    rw [hone, Int.bmod_def]
    omega
  · have hone : (-1 : Int64).toInt = -1 := rfl
    rw [hone, Int.bmod_def]
    omega

/-- Whether the nodes and the run that a symbol leads to take no more than the `count` symbols read
since the operation `before` and this one. -/
def IsCovered (before : Op) (count : Nat) (result : List Node × Run) : Prop :=
  ∃ before' count', result.2.Covers before' count' ∧ ∀ nodes,
    Node.size before (result.1.reverse ++ nodes) + count' ≤ count + 1 + Node.size before' nodes

/-- One more symbol may stand behind a run that goes on. -/
theorem isCovered_of_extended (h : run.Covers before (count + 1)) :
    IsCovered before count ([], run) :=
  ⟨before, count + 1, h, fun _ => Nat.le_of_eq (Nat.add_comm ..)⟩

/-- A symbol that ends a run may begin another one. -/
theorem Covers.isCovered_of_ended (h : run.Covers before count) {next : Run}
    (hnext : next.Covers run.op 1) : IsCovered before count (run.finish [], next) := by
  refine ⟨run.op, 1, hnext, fun nodes => ?_⟩
  have hfinish := h.size_finish nodes
  rw [finish_reverse]
  omega

/-- A symbol that ends a run may be a node of its own. -/
theorem Covers.isCovered_of_leaf (h : run.Covers before count) {node : Node}
    (hop : node.op.isRun = false) (hsource : (Source.texts node.sources).length = 1) :
    IsCovered before count (node :: run.finish [], .none) := by
  refine ⟨node.op, 0, fun hrun => absurd hrun (by rw [hop]; decide), fun nodes => ?_⟩
  have hfinish := h.size_finish (node :: nodes)
  rw [Node.size_cons, hsource, Op.separator_eq_nil (Or.inr hop), List.length_nil] at hfinish
  rw [List.reverse_cons, finish_reverse, List.append_assoc, List.singleton_append]
  omega

/-- A run that goes on by one symbol is covered by one symbol more. -/
private theorem covers_extended {op : Op} {sofar step : Int64} (hstep : step = 1 ∨ step = -1)
    (h : before ≠ op ∧ 1 ≤ count ∧ sofar.toInt.natAbs ≤ count) :
    before ≠ op ∧ 1 ≤ count + 1 ∧ (sofar + step).toInt.natAbs ≤ count + 1 := by
  have hsum := natAbs_add_le sofar hstep
  exact ⟨h.1, by omega, by have := h.2.2; omega⟩

/-- A run that begins is covered by its first symbol. -/
private theorem covers_begun {op : Op} {step : Int64} (hstep : step = 1 ∨ step = -1)
    (hne : before ≠ op) : before ≠ op ∧ 1 ≤ 1 ∧ step.toInt.natAbs ≤ 1 :=
  ⟨hne, Nat.le_refl 1, by rcases hstep with rfl | rfl <;> decide⟩

/-- A symbol that adds goes on with a run of additions, and ends any other one. -/
theorem Covers.add (h : run.Covers before count) {step : Int64} (hstep : step = 1 ∨ step = -1) :
    IsCovered before count (run.add step []) := by
  cases run with
  | adding sofar => exact isCovered_of_extended (covers_extended hstep h)
  | none => exact h.isCovered_of_ended (covers_begun hstep (show Op.loop ≠ Op.add by decide))
  | moving sofar =>
    exact h.isCovered_of_ended (covers_begun hstep (show Op.move ≠ Op.add by decide))

/-- A symbol that moves goes on with a run of moves, and ends any other one. -/
theorem Covers.move (h : run.Covers before count) {step : Int64} (hstep : step = 1 ∨ step = -1) :
    IsCovered before count (run.move step []) := by
  cases run with
  | moving sofar => exact isCovered_of_extended (covers_extended hstep h)
  | none => exact h.isCovered_of_ended (covers_begun hstep (show Op.loop ≠ Op.move by decide))
  | adding sofar =>
    exact h.isCovered_of_ended (covers_begun hstep (show Op.add ≠ Op.move by decide))

/-- What a symbol leads to is covered by it and by the symbols before it. -/
theorem Covers.symbol (h : run.Covers before count) (b : UInt8) :
    IsCovered before count (run.symbol b []) := by
  unfold Run.symbol
  split
  · exact h.add (Or.inl rfl)
  · exact h.add (Or.inr rfl)
  · exact h.move (Or.inl rfl)
  · exact h.move (Or.inr rfl)
  · exact h.isCovered_of_leaf rfl rfl
  · exact h.isCovered_of_leaf rfl rfl
  · exact h.isCovered_of_leaf rfl rfl
  · exact h.isCovered_of_ended fun _ => Nat.le_refl 1

end Run

namespace Source

theorem length_text_pos (tree : Source) : 1 ≤ tree.text.length := by
  cases tree with
  | symbol b => exact Nat.le_refl _
  | loop body => exact Nat.succ_le_succ (Nat.zero_le _)

/-- Other source trees than a single `-` that are read as a decrement have a text of two bytes at
least. -/
theorem two_le_length_texts {body : List Source} {inner : List Node}
    (hread : condenseFrom [] .none body = [⟨.add, -1, inner⟩])
    (hminus : body ≠ [.symbol (byte '-')]) : 2 ≤ (texts body).length := by
  rcases body with _ | ⟨first, _ | ⟨second, rest⟩⟩
  · rw [condenseFrom_nil] at hread
    cases hread
  · cases first with
    | symbol b =>
      -- No other symbol is read as a decrement.
      refine absurd ?_ hminus
      rw [condenseFrom_symbol, condenseFrom_nil] at hread
      unfold Run.symbol at hread
      split at hread
      case h_2 hb => rw [← byte_char b, hb]
      case h_1 =>
        have hamount : (1 : Int64) = -1 := congrArg Node.amount (List.cons.inj hread).1
        exact absurd hamount (by decide)
      all_goals cases hread
    | loop inner =>
      rw [texts_cons, text_loop]
      simp
  · have hfirst := first.length_text_pos
    have hsecond := second.length_text_pos
    rw [texts_cons, texts_cons, List.length_append, List.length_append]
    omega

/-- What a loop is read as takes no more bytes than its text. -/
theorem size_loopNodes {body : List Source}
    (hbody : Node.size .loop (condenseFrom [] .none body) ≤ (texts body).length) (before : Op)
    {nodes : List Node} {count : Nat}
    (hnodes : ∀ op : Op, Node.size op nodes ≤ (if op.isRun then 1 else 0) + count) :
    Node.size before (loopNodes body ++ nodes) ≤ (texts body).length + 2 + count := by
  by_cases hminus : body = [.symbol (byte '-')]
  · subst hminus
    have hclear : loopNodes [.symbol (byte '-')] = [{ op := .clear }] := by
      rw [loopNodes]
      rfl
    have hrest : Node.size .clear nodes ≤ 0 + count := hnodes .clear
    have hsource : (texts (Node.sources { op := .clear })).length = 3 := rfl
    rw [hclear, List.singleton_append, Node.size_cons, Op.separator_eq_nil (Or.inr rfl), hsource,
      List.length_nil]
    change 0 + 3 + Node.size .clear nodes ≤ 1 + 2 + count
    omega
  obtain ⟨hempty, -⟩ | ⟨h, -⟩ | hloop := loopNodes_cases body
  · have hbefore := hnodes before
    rw [hempty, List.nil_append]
    split at hbefore <;> omega
  · exact absurd h hminus
  · have hrest : Node.size .loop nodes ≤ 0 + count := hnodes .loop
    generalize hread : condenseFrom [] .none body = inner at hbody hloop
    -- A body that needs a blank in front has two symbols at least, or it would have been `-`.
    have hopening : (Node.opening inner).length + Node.size .loop inner ≤ (texts body).length := by
      obtain h | ⟨h, deeper, rfl⟩ := Node.opening_cases inner
      · rw [h, List.length_nil]
        omega
      · have htwo := two_le_length_texts hread hminus
        rw [h]
        exact htwo
    have hsource : (texts (Node.sources { op := .loop, body := inner })).length =
        (Node.opening inner).length + Node.size .loop inner + 2 := by
      have hblank : (texts (Node.opening inner)).length = (Node.opening inner).length := by
        obtain h | ⟨h, -⟩ := Node.opening_cases inner <;> rw [h] <;> rfl
      have hloop : Node.sources { op := .loop, body := inner } =
          [.loop (Node.opening inner ++ Node.allSources .loop inner)] := rfl
      rw [hloop, texts_cons, texts_nil, List.append_nil, text_loop, List.length_cons,
        List.length_append, texts_append, List.length_append, hblank, List.length_singleton]
      rfl
    rw [hloop, List.singleton_append, Node.size_cons, Op.separator_eq_nil (Or.inr rfl), hsource,
      List.length_nil]
    change 0 + _ + Node.size .loop nodes ≤ _
    omega

/-- What source trees are read as takes no more bytes than their text and the symbols of the run
before them. -/
theorem size_condenseFrom : (trees : List Source) → (run : Run) → (before : Op) → (count : Nat) →
    run.Covers before count →
    Node.size before (condenseFrom [] run trees) ≤ count + (texts trees).length
  | [], run, before, count, h => by
    have hfinish := h.size_finish []
    rw [List.append_nil, Node.size_nil] at hfinish
    rw [condenseFrom_nil]
    exact hfinish
  | .symbol b :: rest, run, before, count, h => by
    obtain ⟨before', count', hrun, hnodes⟩ := h.symbol b
    have hrest := size_condenseFrom rest _ before' count' hrun
    have hsize := hnodes (condenseFrom [] (run.symbol b []).2 rest)
    rw [condenseFrom_symbol, texts_cons, text_symbol, List.length_append, List.length_singleton]
    omega
  | .loop body :: rest, run, before, count, h => by
    -- Nothing stands before the body of a loop, and nothing of the run is left behind it.
    have hbody := size_condenseFrom body .none .loop 0 (Run.covers_loop 0)
    have hrest (op : Op) : Node.size op (condenseFrom [] .none rest) ≤
        (if op.isRun then 1 else 0) + (texts rest).length :=
      size_condenseFrom rest .none op _ fun hrun => by rw [if_pos hrun]
    rw [Nat.zero_add] at hbody
    have hloop := size_loopNodes hbody run.op hrest
    have hfinish := h.size_finish (loopNodes body ++ condenseFrom [] .none rest)
    rw [condenseFrom_loop, texts_cons, text_loop, List.length_append, List.length_cons,
      List.length_append, List.length_singleton]
    omega

end Source

namespace Program

/-- No `text` that is read as a `program` is shorter than `program.text`. -/
theorem length_text_le {text : Bytes} {program : Program} (h : Program.parse text = .ok program) :
    program.text.length ≤ text.length := by
  rw [Program.parse] at h
  cases htrees : Source.ofText text with
  | error fault =>
    rw [htrees] at h
    cases h
  | ok trees =>
    rw [htrees] at h
    cases h
    obtain ⟨-, rfl⟩ := Source.ofText_eq_ok_iff.mp htrees
    have hsize := Source.size_condenseFrom trees .none .loop 0 (Run.covers_loop 0)
    rwa [Nat.zero_add] at hsize

/-- Within any `bound` on the length of texts, `Program.parse` yields exactly the programs that pass
`Program.check` and whose `Program.text` keeps to the `bound`, up to the amounts of loops. -/
theorem check_and_length_text_le_iff (program : Program) (bound : Nat) :
    (program.check = .ok () ∧ program.text.length ≤ bound) ↔
      ∃ text, text.length ≤ bound ∧ Program.parse text = .ok program.normalize := by
  constructor
  · rintro ⟨hok, hlength⟩
    exact ⟨program.text, hlength, parse_text hok⟩
  · rintro ⟨text, hlength, hparse⟩
    have hok := Program.check_of_parse hparse
    have hshortest := length_text_le hparse
    rw [check_normalize] at hok
    rw [text_normalize] at hshortest
    exact ⟨hok, Nat.le_trans hshortest hlength⟩

/-- The text of a single move has as many symbols as the amount says. -/
theorem length_text_move (amount : Int64) :
    (Program.text [⟨.move, amount, []⟩]).length = amount.toInt.natAbs := by
  have htext : Program.text [⟨.move, amount, []⟩] =
      Source.texts (Source.signed '>' '<' amount ++ []) := rfl
  rw [htext, List.append_nil, Source.length_texts_signed]

/-- The move by the least amount passes `Program.check`, but is read from no text that a machine
with lengths below `Word.signBound` can hold. -/
theorem check_leastMove :
    Program.check [⟨.move, Int64.minValue, []⟩] = .ok () ∧
      ¬∃ text, text.length < Word.signBound ∧
        Program.parse text = .ok (Program.normalize [⟨.move, Int64.minValue, []⟩]) := by
  refine ⟨rfl, ?_⟩
  rintro ⟨text, hlength, hparse⟩
  have hshortest := length_text_le hparse
  rw [text_normalize, length_text_move] at hshortest
  exact absurd hlength (Nat.not_lt.mpr hshortest)

/-- Blanks keep a loop around a decrement from being read as a clearing, and one move from being
read as a part of another. -/
example : Program.text [⟨.loop, 7, [⟨.add, -1, []⟩]⟩, ⟨.clear, 0, []⟩, ⟨.move, 2, []⟩,
    ⟨.move, -1, []⟩] = utf8 "[ -][-]>> <" := by
  decide

end Program

end TapeMachine
