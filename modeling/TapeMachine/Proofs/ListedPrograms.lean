import TapeMachine.Program.Listing
import TapeMachine.Proofs.ReaderQueue
import TapeMachine.Proofs.WrittenPrograms

/-!
# Listings tell programs apart

A listing shows everything of a checked program but the amounts of its loops, which mean nothing.
The text of a listing tells the lines in it, because no statement has a newline in it, and a line
tells its depth and its statement, because no statement starts with a blank. The statement on the
first line of a node tells the operation and the amount, also the least one, which is written as a
decrease by a negative number. The lines of a list of nodes end where no line is left or a loop is
closed.

The module introduces:

* `Bytes.ofInt_injective`: numbers are told apart by their decimals;
* `Listing.opening`: the statement on the first line of a node;
* `Listing.ofNodes_append_inj`: nodes are told apart by their lines, whatever follows;
* `Program.listing_eq_iff`: which programs have the same listing.
-/

namespace TapeMachine

/-! ### Decimals -/

namespace Bytes

/-- A digit is the character of its byte. -/
theorem char_toUInt8 {c : Char} (h : c.isDigit = true) : char c.toUInt8 = c := by
  have hle : c.val.toNat ≤ 57 := by
    rw [Char.isDigit, Bool.and_eq_true, decide_eq_true_eq, decide_eq_true_eq] at h
    exact UInt32.le_iff_toNat_le.mp h.2
  apply Char.ext
  apply UInt32.toNat_inj.mp
  change c.val.toUInt8.toUInt32.toNat = c.val.toNat
  rw [UInt8.toNat_toUInt32, UInt32.toNat_toUInt8]
  omega

/-- The digits of a decimal, as characters. -/
theorem map_char_ofNat (n : Nat) : (ofNat n).map char = Nat.toDigits 10 n := by
  have hback : ∀ c ∈ Nat.toDigits 10 n, (char ∘ Char.toUInt8) c = id c := fun c hc =>
    char_toUInt8 (Nat.isDigit_of_mem_toDigits (by decide) (by decide) hc)
  rw [ofNat, List.map_map, List.map_congr_left hback, List.map_id]

/-- Different natural numbers have different decimals. -/
theorem ofNat_injective : Function.Injective ofNat := by
  intro m n h
  have hdigits := congrArg (List.map char) h
  rw [map_char_ofNat, map_char_ofNat] at hdigits
  rw [← @Nat.ofDigitChars_ten_toDigits m, hdigits, Nat.ofDigitChars_ten_toDigits]

/-- Decimals of natural numbers consist of digits. -/
theorem isDigit_of_mem_ofNat {b : UInt8} {n : Nat} (h : b ∈ ofNat n) : (char b).isDigit = true := by
  have hmem : char b ∈ (ofNat n).map char := List.mem_map_of_mem h
  rw [map_char_ofNat] at hmem
  exact Nat.isDigit_of_mem_toDigits (by decide) (by decide) hmem

/-- No digit is a sign, so decimals of natural numbers have none. -/
theorem ofNat_ne_minus_cons (n : Nat) (rest : Bytes) : ofNat n ≠ byte '-' :: rest := by
  intro h
  have hdigit := isDigit_of_mem_ofNat (h ▸ List.mem_cons_self)
  exact absurd hdigit (by decide)

/-- Different integers have different decimals. -/
theorem ofInt_injective : Function.Injective ofInt := by
  intro m n h
  cases m with
  | ofNat m =>
    cases n with
    | ofNat n => exact congrArg Int.ofNat (ofNat_injective h)
    | negSucc n => exact absurd h (ofNat_ne_minus_cons m _)
  | negSucc m =>
    cases n with
    | ofNat n => exact absurd h.symm (ofNat_ne_minus_cons n _)
    | negSucc n =>
      have hsucc := ofNat_injective (List.cons.inj h).2
      rw [Nat.succ.inj hsucc]

/-- There is no newline in a decimal. -/
theorem newline_not_mem_ofInt (n : Int) : newline ∉ ofInt n := by
  have hnat (n : Nat) : newline ∉ ofNat n := fun h =>
    absurd (isDigit_of_mem_ofNat h) (by decide)
  cases n with
  | ofNat n => exact hnat n
  | negSucc n =>
    rintro (_ | ⟨_, hmem⟩)
    exact hnat (n + 1) hmem

/-- Lines without a newline in them are told apart by the text that they make up. -/
theorem completedLines_flatMap {texts : List Bytes} (h : ∀ text ∈ texts, newline ∉ text) :
    completedLines (texts.flatMap (· ++ [newline])) = texts := by
  induction texts with
  | nil => rfl
  | cons text texts ih =>
    obtain ⟨htext, htexts⟩ := List.forall_mem_cons.mp h
    rw [List.flatMap_cons, completedLines_append, completedLines_concat, openLine_concat,
      if_pos rfl, if_pos rfl, completedLines_eq_nil htext, openLine_eq_self htext,
      List.nil_append, List.nil_append, ih htexts]
    rfl

end Bytes

/-! ### Lines -/

namespace Listing

/-- A blank, which only indentation starts with. -/
def blank : UInt8 :=
  byte ' '

/-- Whether a text can be told from the newline behind it and the indentation in front of it. -/
def IsStatement (text : Bytes) : Prop :=
  Bytes.newline ∉ text ∧ text.head? ≠ some blank

instance (text : Bytes) : Decidable (IsStatement text) :=
  inferInstanceAs (Decidable (_ ∧ _))

/-- What stands on a line, without the newline. -/
def Line.contents (line : Line) : Bytes :=
  List.replicate (2 * line.depth) blank ++ line.text

/-- The line with some contents. -/
def Line.read (contents : Bytes) : Line where
  depth := (contents.takeWhile (· == blank)).length / 2
  text := contents.dropWhile (· == blank)

/-- A line without a comment is its contents. -/
theorem Line.render_nil (line : Line) : line.render [] = line.contents ++ [Bytes.newline] := by
  have hindentation (depth : Nat) :
      (List.replicate depth (utf8 "  ")).flatten = List.replicate (2 * depth) blank := by
    induction depth with
    | zero => rfl
    | succ depth ih => rw [List.replicate_succ, List.flatten_cons, ih]; rfl
  rw [render, hindentation, contents, List.nil_append]

/-- The blanks in front of a statement are those of the indentation. -/
theorem Line.read_contents {line : Line} (h : IsStatement line.text) :
    read line.contents = line := by
  have hblanks : ∀ b ∈ List.replicate (2 * line.depth) blank, (b == blank) = true := by
    intro b hb
    rw [List.eq_of_mem_replicate hb, beq_self_eq_true]
  have hfirst : ∀ b ∈ line.text.head?, (b == blank) = false := by
    rintro b hb
    rw [beq_eq_false_iff_ne]
    rintro rfl
    exact h.2 hb
  -- The blanks in front end where the statement begins, as that begins with none.
  have hnone : line.text.takeWhile (· == blank) = [] ∧
      line.text.dropWhile (· == blank) = line.text := by
    cases htext : line.text with
    | nil => exact ⟨rfl, rfl⟩
    | cons b text =>
      have hb := hfirst b (by rw [htext]; rfl)
      simp [hb]
  rw [read, contents, List.takeWhile_append_of_pos hblanks, List.dropWhile_append_of_pos hblanks,
    hnone.1, hnone.2, List.append_nil, List.length_replicate, Nat.mul_div_cancel_left _ Nat.two_pos]

/-- The lines that make up a text can be read from it. -/
theorem map_read_completedLines {lines : List Line} (h : ∀ line ∈ lines, IsStatement line.text) :
    (Bytes.completedLines (lines.flatMap (·.render []))).map Line.read = lines := by
  have htext : lines.flatMap (·.render []) =
      (lines.map Line.contents).flatMap (· ++ [Bytes.newline]) := by
    rw [List.flatMap_map]
    exact List.flatMap_congr fun line _ => line.render_nil
  have hcontents : ∀ contents ∈ lines.map Line.contents, Bytes.newline ∉ contents := by
    intro contents hmem
    obtain ⟨line, hline, rfl⟩ := List.mem_map.mp hmem
    rw [Line.contents, List.mem_append, List.mem_replicate]
    rintro (⟨-, hblank⟩ | hnewline)
    · exact absurd hblank (by decide)
    · exact (h line hline).1 hnewline
  rw [htext, Bytes.completedLines_flatMap hcontents, List.map_map]
  have hread : ∀ line ∈ lines, (Line.read ∘ Line.contents) line = id line := fun line hline =>
    Line.read_contents (h line hline)
  rw [List.map_congr_left hread, List.map_id]

/-! ### Statements -/

/-- The statement on the first line of a node. -/
def opening (op : Op) (amount : Int64) : Bytes :=
  match op with
  | .loop => utf8 "while (st[ix]) \x7b"
  | .write => utf8 "putchar(st[ix])"
  | .read => utf8 "st[ix] = getchar()"
  | .move => change "ix" amount
  | .add => change "st[ix]" amount
  | .clear => utf8 "st[ix] = 0"
  | .dump => utf8 "dump()"
  | _ => []

/-- The statement on the last line of a loop. -/
def closing : Bytes :=
  utf8 "\x7d"

/-- The operation that a statement stands for, as far as a few of its bytes tell it. -/
def opOf (statement : Bytes) : Op :=
  match statement.head?.map Bytes.char with
  | some 'w' => .loop
  | some 'p' => .write
  | some 'd' => .dump
  | some 'i' => .move
  | some 's' =>
    if statement[7]? = some (byte '=') then
      if statement[9]? = some (byte '0') then .clear else .read
    else .add
  | _ => ⟨0⟩

/-- A change tells its amount. The least amount is the only one that is written as a decrease by a
negative number. -/
theorem change_injective (target : String) : Function.Injective (change target) := by
  -- The signs are of the same length, so they can be told from the numbers behind them.
  have hparts {sign sign' : Bytes} {n n' : Int}
      (h : utf8 target ++ sign ++ Bytes.ofInt n = utf8 target ++ sign' ++ Bytes.ofInt n')
      (hlength : sign.length = sign'.length) : sign = sign' ∧ n = n' := by
    rw [List.append_assoc, List.append_assoc] at h
    obtain ⟨hsign, hnumber⟩ := List.append_inj (List.append_cancel_left h) hlength
    exact ⟨hsign, Bytes.ofInt_injective hnumber⟩
  have hlength : (utf8 " += ").length = (utf8 " -= ").length := by decide
  have hsigns : utf8 " += " ≠ utf8 " -= " := by decide
  intro amount amount' h
  unfold change at h
  split at h
  · split at h
    · exact Int64.toInt_inj.mp (hparts h rfl).2
    · exact absurd (hparts h hlength).1 hsigns
  · split at h
    · exact absurd (hparts h hlength.symm).1 hsigns.symm
    · exact Int64.neg_inj.mp (Int64.toInt_inj.mp (hparts h rfl).2)

/-- A change of a `target` is a statement if the `target` is one. -/
theorem isStatement_change {target : String} (h : IsStatement (utf8 target))
    (hne : utf8 target ≠ []) (amount : Int64) : IsStatement (change target amount) := by
  have hsigns : Bytes.newline ∉ utf8 " += " ∧ Bytes.newline ∉ utf8 " -= " := by decide
  have hhead (sign number : Bytes) :
      (utf8 target ++ sign ++ number).head? = (utf8 target).head? := by
    rw [List.append_assoc, List.head?_append_of_ne_nil _ hne]
  unfold change
  split
  · refine ⟨?_, hhead _ _ ▸ h.2⟩
    simp [h.1, hsigns.1, Bytes.newline_not_mem_ofInt]
  · refine ⟨?_, hhead _ _ ▸ h.2⟩
    simp [h.1, hsigns.2, Bytes.newline_not_mem_ofInt]

/-- The text of an operation is a statement. -/
theorem isStatement_opening (op : Op) (amount : Int64) : IsStatement (opening op amount) := by
  unfold opening
  split
  case h_4 => exact isStatement_change (by decide) (by decide) amount
  case h_5 => exact isStatement_change (by decide) (by decide) amount
  all_goals decide

theorem opening_loop (amount : Int64) : opening .loop amount = utf8 "while (st[ix]) \x7b" := rfl

/-- A closing brace is a statement. -/
theorem isStatement_closing : IsStatement closing := by
  decide

/-- The operation of a change is known by its target. -/
theorem opOf_change (amount : Int64) :
    opOf (change "ix" amount) = .move ∧ opOf (change "st[ix]" amount) = .add := by
  unfold change
  split
  · exact ⟨rfl, rfl⟩
  · exact ⟨rfl, rfl⟩

variable {op op' : Op} {amount amount' : Int64} {body body' : List Node}

/-- The statement on the first line of a node without a fault tells its operation. -/
theorem opOf_opening (h : Node.fault ⟨op, amount, body⟩ = none) :
    opOf (opening op amount) = op := by
  obtain ⟨rfl, -, -⟩ | ⟨hop, rfl⟩ := Node.body_of_fault_eq_none h
  · rfl
  · obtain ⟨rfl, -⟩ | ⟨rfl, -⟩ | ⟨hmem, -⟩ := Node.leaf_of_fault_eq_none hop h
    · exact (opOf_change amount).1
    · exact (opOf_change amount).2
    · simp only [List.mem_cons, List.not_mem_nil, or_false] at hmem
      obtain rfl | rfl | rfl | rfl := hmem <;> rfl

/-- It also tells the amount, unless the node is a loop. -/
theorem opening_inj (h : Node.fault ⟨op, amount, body⟩ = none)
    (h' : Node.fault ⟨op', amount', body'⟩ = none) (heq : opening op amount = opening op' amount') :
    op = op' ∧ (op ≠ .loop → amount = amount') := by
  obtain rfl : op = op' := by rw [← opOf_opening h, heq, opOf_opening h']
  refine ⟨rfl, fun hop => ?_⟩
  obtain ⟨hloop, -, -⟩ | ⟨-, rfl⟩ := Node.body_of_fault_eq_none h
  · exact absurd hloop hop
  obtain ⟨hloop, -, -⟩ | ⟨-, rfl⟩ := Node.body_of_fault_eq_none h'
  · exact absurd hloop hop
  obtain ⟨rfl, -⟩ | ⟨rfl, -⟩ | ⟨hmem, hzero⟩ := Node.leaf_of_fault_eq_none hop h
  · exact change_injective "ix" heq
  · exact change_injective "st[ix]" heq
  · -- The other operations take no amount.
    obtain ⟨rfl, -⟩ | ⟨rfl, -⟩ | ⟨-, hzero'⟩ := Node.leaf_of_fault_eq_none hop h'
    · exact absurd hmem (by decide)
    · exact absurd hmem (by decide)
    · rw [hzero, hzero']

/-- No operation without a fault is listed as a closing brace. -/
theorem opening_ne_closing (h : Node.fault ⟨op, amount, body⟩ = none) :
    opening op amount ≠ closing := by
  intro heq
  have hop := opOf_opening h
  rw [heq] at hop
  subst hop
  cases h

/-! ### Lines of nodes -/

/-- The lines of a node without a fault. -/
theorem ofNode_eq (h : Node.fault ⟨op, amount, body⟩ = none) (depth : Nat) :
    ofNode depth ⟨op, amount, body⟩ = ⟨depth, opening op amount⟩ ::
      if op = .loop then ofNodes (depth + 1) body ++ [⟨depth, closing⟩] else [] := by
  obtain ⟨rfl, -, -⟩ | ⟨hop, rfl⟩ := Node.body_of_fault_eq_none h
  · rw [ofNode.eq_def]
    rfl
  · rw [if_neg hop]
    obtain ⟨rfl, -⟩ | ⟨rfl, -⟩ | ⟨hmem, -⟩ := Node.leaf_of_fault_eq_none hop h
    · rfl
    · rfl
    · simp only [List.mem_cons, List.not_mem_nil, or_false] at hmem
      obtain rfl | rfl | rfl | rfl := hmem <;> rfl

mutual

/-- The lines of a node without a fault are statements. -/
theorem isStatement_ofNode : (node : Node) → node.fault = none → (depth : Nat) →
    ∀ line ∈ ofNode depth node, IsStatement line.text
  | ⟨op, amount, body⟩, hok, depth => by
    rw [ofNode_eq hok, List.forall_mem_cons]
    refine ⟨isStatement_opening op amount, ?_⟩
    split
    · next hop =>
      obtain ⟨-, -, hbody⟩ | ⟨hne, -⟩ := Node.body_of_fault_eq_none hok
      · rw [List.forall_mem_append, List.forall_mem_singleton]
        exact ⟨isStatement_ofNodes body hbody (depth + 1), isStatement_closing⟩
      · exact absurd hop hne
    · exact fun _ hmem => absurd hmem List.not_mem_nil

/-- The lines of nodes without a fault are statements. -/
theorem isStatement_ofNodes : (nodes : List Node) → Node.firstFault nodes = none → (depth : Nat) →
    ∀ line ∈ ofNodes depth nodes, IsStatement line.text
  | [], _, _ => fun _ hmem => absurd hmem List.not_mem_nil
  | node :: rest, hok, depth => by
    obtain ⟨hnode, hrest⟩ := Node.firstFault_cons_eq_none.mp hok
    rw [ofNodes, List.forall_mem_append]
    exact ⟨isStatement_ofNode node hnode depth, isStatement_ofNodes rest hrest depth⟩

end

/-- Whether lines can follow a list of nodes: if there are any, the first one closes a loop. -/
def Close (lines : List Line) : Prop :=
  ∀ line ∈ lines.head?, line.text = closing

/-- A line that opens a node closes no loop. -/
theorem Close.ne_ofNode_append {lines rest : List Line} {node : Node} {depth : Nat}
    (h : Close lines) (hok : node.fault = none) : lines ≠ ofNode depth node ++ rest := by
  obtain ⟨op, amount, body⟩ := node
  rintro rfl
  rw [ofNode_eq hok] at h
  exact opening_ne_closing hok (h ⟨depth, opening op amount⟩ rfl)

mutual

/-- A node without a fault is told by its lines, whatever follows. -/
theorem ofNode_append_inj : (node : Node) → node.fault = none →
    {other : Node} → other.fault = none → {depth : Nat} → {rest rest' : List Line} →
    ofNode depth node ++ rest = ofNode depth other ++ rest' →
    node.normalize = other.normalize ∧ rest = rest'
  | ⟨op, amount, body⟩, hok, ⟨op', amount', body'⟩, hok', depth, rest, rest', heq => by
    rw [ofNode_eq hok, ofNode_eq hok', List.cons_append, List.cons_append] at heq
    obtain ⟨hline, hmore⟩ := List.cons.inj heq
    obtain ⟨rfl, hamount⟩ := opening_inj hok hok' (Line.mk.inj hline).2
    rw [Node.normalize, Node.normalize]
    obtain ⟨rfl, -, hbody⟩ | ⟨hop, rfl⟩ := Node.body_of_fault_eq_none hok
    · obtain ⟨-, -, hbody'⟩ | ⟨hne, -⟩ := Node.body_of_fault_eq_none hok'
      · -- The bodies end where the loops are closed.
        rw [if_pos rfl, if_pos rfl, List.append_assoc, List.append_assoc] at hmore
        have hclose (rest : List Line) : Close ([⟨depth, closing⟩] ++ rest) := by
          rintro line ⟨⟩
          rfl
        obtain ⟨hinner, hrest⟩ :=
          ofNodes_append_inj body hbody hbody' (hclose rest) (hclose rest') hmore
        rw [if_pos rfl, if_pos rfl, hinner]
        exact ⟨rfl, List.append_cancel_left hrest⟩
      · exact absurd rfl hne
    · obtain ⟨hloop, -, -⟩ | ⟨-, rfl⟩ := Node.body_of_fault_eq_none hok'
      · exact absurd hloop hop
      · rw [if_neg hop] at hmore
        rw [hamount hop]
        exact ⟨rfl, hmore⟩

/-- Nodes without a fault are told by their lines, up to where these end. -/
theorem ofNodes_append_inj : (nodes : List Node) → Node.firstFault nodes = none →
    {others : List Node} → Node.firstFault others = none → {depth : Nat} →
    {rest rest' : List Line} → Close rest → Close rest' →
    ofNodes depth nodes ++ rest = ofNodes depth others ++ rest' →
    Node.normalizeAll nodes = Node.normalizeAll others ∧ rest = rest'
  | [], _, [], _, _, _, _, _, _, heq => ⟨rfl, heq⟩
  -- A closing brace never looks like the first line of a node.
  | [], _, other :: others, hok', _, _, _, hrest, _, heq => by
    rw [ofNodes, ofNodes, List.nil_append, List.append_assoc] at heq
    exact absurd heq (hrest.ne_ofNode_append (Node.firstFault_cons_eq_none.mp hok').1)
  | node :: nodes, hok, [], _, _, _, _, _, hrest', heq => by
    rw [ofNodes, ofNodes, List.nil_append, List.append_assoc] at heq
    exact absurd heq.symm (hrest'.ne_ofNode_append (Node.firstFault_cons_eq_none.mp hok).1)
  | node :: nodes, hok, other :: others, hok', depth, rest, rest', hrest, hrest', heq => by
    obtain ⟨hnode, hnodes⟩ := Node.firstFault_cons_eq_none.mp hok
    obtain ⟨hother, hothers⟩ := Node.firstFault_cons_eq_none.mp hok'
    rw [ofNodes, ofNodes, List.append_assoc, List.append_assoc] at heq
    obtain ⟨hfirst, hmore⟩ := ofNode_append_inj node hnode hother heq
    obtain ⟨hlater, hends⟩ := ofNodes_append_inj nodes hnodes hothers hrest hrest' hmore
    rw [Node.normalizeAll, Node.normalizeAll, hfirst, hlater]
    exact ⟨rfl, hends⟩

end

mutual

/-- The amounts of loops are not listed. -/
theorem ofNode_normalize : (node : Node) → node.fault = none → (depth : Nat) →
    ofNode depth node.normalize = ofNode depth node
  | ⟨op, amount, body⟩, hok, depth => by
    have hok' := (Node.fault_normalize ⟨op, amount, body⟩).trans hok
    rw [Node.normalize] at hok' ⊢
    rw [ofNode_eq hok', ofNode_eq hok]
    obtain ⟨rfl, -, hbody⟩ | ⟨hop, rfl⟩ := Node.body_of_fault_eq_none hok
    · rw [ofNodes_normalizeAll body hbody, opening_loop, opening_loop]
    · rw [if_neg hop, Node.normalizeAll]

/-- A listing does not show what normal form takes away. -/
theorem ofNodes_normalizeAll : (nodes : List Node) → Node.firstFault nodes = none → (depth : Nat) →
    ofNodes depth (Node.normalizeAll nodes) = ofNodes depth nodes
  | [], _, _ => rfl
  | node :: rest, hok, depth => by
    obtain ⟨hnode, hrest⟩ := Node.firstFault_cons_eq_none.mp hok
    rw [Node.normalizeAll, ofNodes, ofNodes, ofNode_normalize node hnode,
      ofNodes_normalizeAll rest hrest]

end

end Listing

namespace Program

/-- The lines of a checked program can be read from its listing. -/
theorem map_read_listing {program : Program} (hok : Node.firstFault program = none) :
    (Bytes.completedLines (program.listing [])).map Listing.Line.read =
      Listing.ofNodes 0 program :=
  Listing.map_read_completedLines (Listing.isStatement_ofNodes program hok 0)

/-- Two programs that pass `Program.check` have the same `listing` exactly if they have the same
normal form, which is up to the amounts of loops. -/
theorem listing_eq_iff {program other : Program} (hok : program.check = .ok ())
    (hok' : other.check = .ok ()) :
    program.listing [] = other.listing [] ↔ program.normalize = other.normalize := by
  rw [Program.check_eq_ok_iff] at hok hok'
  constructor
  · intro hlisting
    have hlines : Listing.ofNodes 0 program ++ [] = Listing.ofNodes 0 other ++ [] := by
      rw [← map_read_listing hok, hlisting, map_read_listing hok']
    have hend : Listing.Close [] := fun _ hmem => by cases hmem
    exact (Listing.ofNodes_append_inj program hok hok' hend hend hlines).1
  · intro hnormalize
    rw [listing, listing, ← Listing.ofNodes_normalizeAll program hok,
      ← Listing.ofNodes_normalizeAll other hok']
    exact congrArg (fun nodes => (Listing.ofNodes 0 nodes).flatMap _) hnormalize

/-- The listing tells the least amount from the greatest one, and shows no amount of a loop. -/
theorem listing_eq_iff_extremeMoves :
    let least : Program := [⟨.loop, 3, [⟨.move, -9223372036854775808, []⟩]⟩]
    let other : Program := [⟨.loop, 0, [⟨.move, -9223372036854775808, []⟩]⟩]
    let greatest : Program := [⟨.loop, 0, [⟨.move, 9223372036854775807, []⟩]⟩]
    least.listing [] = other.listing [] ∧ least.listing [] ≠ greatest.listing [] := by
  refine ⟨(listing_eq_iff rfl rfl).mpr rfl, fun h => ?_⟩
  have hnormalize := (listing_eq_iff rfl rfl).mp h
  exact absurd (congrArg Program.summary hnormalize) (by decide)

example : Program.listing [⟨.loop, 3, [⟨.move, -9223372036854775808, []⟩]⟩] [] =
    utf8 "while (st[ix]) \x7b\n  ix -= -9223372036854775808\n\x7d\n" := by
  decide

end Program

end TapeMachine
