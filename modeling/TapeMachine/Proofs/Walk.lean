import TapeMachine.Proofs.Condensation

/-!
# Texts that know where the cursor is

A walk follows the cursor through source trees without looking at cells: it succeeds if no symbol
takes the cursor off the tape and every loop leaves it where it found it. Where the walk succeeds,
the cursor is known at each point of the text, whatever the cells hold, and the condensed program
does what the pruned source trees do. The same holds if the walk fails at the end of the tape, as
long as no run of moves could bring the cursor back.

The module introduces:

* `Source.walk`: the position of the cursor behind source trees;
* `Effect.Tracks`: the cursor is known before and behind an effect; kept by `seq` and `loop`;
* `Source.tracks_of_walk`: a text with a walk never leaves the tape and ends where the walk does;
* `Source.Treads`: source trees with a walk, unless they step off the tape before an addition;
* `Source.Treads.effect_condense_iff`: the condensed program has the endings of the pruned source
  trees.
-/

namespace TapeMachine

namespace Source

/-- A position, if it is on the tape. -/
def checked (pos : Int) : Option Int :=
  if OnTape pos then some pos else none

/-- The position behind a symbol. -/
def stepFrom (pos : Int) (b : UInt8) : Option Int :=
  match Bytes.char b with
  | '>' => checked (pos + 1)
  | '<' => checked (pos - 1)
  | _ => some pos

mutual

/-- The position behind a source tree. A loop has to come back to where it began. -/
def walkTree (pos : Int) : Source → Option Int
  | .symbol b => stepFrom pos b
  | .loop body => if walk pos body = some pos then some pos else none

/-- The position behind source trees. -/
def walk (pos : Int) : List Source → Option Int
  | [] => some pos
  | tree :: rest => (walkTree pos tree).bind fun next => walk next rest

end

section Equations

variable {pos next last : Int} {b : UInt8} {body rest : List Source} {tree : Source}

/-- Nothing to walk leads nowhere else. -/
@[simp] theorem walk_nil : walk pos [] = some pos := by
  rw [walk]

/-- A walk goes through one source tree after another. -/
theorem walk_cons_iff :
    walk pos (tree :: rest) = some last ↔ ∃ next, walkTree pos tree = some next ∧
      walk next rest = some last := by
  rw [walk, Option.bind_eq_some_iff]

/-- A symbol is one step of a walk. -/
@[simp] theorem walkTree_symbol : walkTree pos (.symbol b) = stepFrom pos b := by
  rw [walkTree]

/-- There is a way through a loop if its `body` comes back. -/
@[simp] theorem walkTree_loop_iff :
    walkTree pos (.loop body) = some next ↔ walk pos body = some pos ∧ next = pos := by
  rw [walkTree]
  split
  · next hbody => simp [hbody, eq_comm]
  · next hbody => simp [hbody]

/-- A walk through source trees in a row is two walks in a row. -/
theorem walk_append_iff {first second : List Source} :
    walk pos (first ++ second) = some last ↔ ∃ next, walk pos first = some next ∧
      walk next second = some last := by
  induction first generalizing pos with
  | nil => simp
  | cons tree rest ih =>
    simp only [List.cons_append, walk_cons_iff, ih]
    constructor
    · rintro ⟨next, htree, mid, hrest, hsecond⟩
      exact ⟨mid, ⟨next, htree, hrest⟩, hsecond⟩
    · rintro ⟨mid, ⟨next, htree, hrest⟩, hsecond⟩
      exact ⟨next, htree, mid, hrest, hsecond⟩

end Equations

/-- A walk goes through pruned source trees in the same way. -/
theorem walk_prune : (trees : List Source) → {pos last : Int} → walk pos trees = some last →
    walk pos (prune trees) = some last
  | [], _, _, h => h
  | .symbol b :: rest, pos, last, h => by
    obtain ⟨next, hsymbol, hrest⟩ := walk_cons_iff.mp h
    exact walk_cons_iff.mpr ⟨next, hsymbol, walk_prune rest hrest⟩
  | .loop body :: rest, pos, last, h => by
    obtain ⟨next, hloop, hrest⟩ := walk_cons_iff.mp h
    obtain ⟨hbody, rfl⟩ := walkTree_loop_iff.mp hloop
    refine walk_cons_iff.mpr ⟨next, ?_, walk_prune rest hrest⟩
    rw [pruned_loop]
    split
    · rw [walkTree_symbol]
      rfl
    · exact walkTree_loop_iff.mpr ⟨walk_prune body hbody, rfl⟩

end Source

/-! ### The cursor of a text with a walk -/

namespace Effect

/-- An effect that takes the cursor from one position to another, unless it stops for lack of
input. -/
def Tracks (a : Effect) (pos next : Int) : Prop :=
  ∀ ⦃s e⦄, s.cursor = pos → a s e → e ≠ .offTape ∧ ∀ t, e = .done t → t.cursor = next

variable {a b body : Effect} {pos mid next : Int}

/-- To do nothing moves no cursor. -/
theorem tracks_skip : skip.Tracks pos pos := by
  intro s e hs h
  cases h
  exact ⟨nofun, fun t ht => by cases ht; exact hs⟩

/-- Effects in a row take the cursor from one position to the next. -/
theorem Tracks.seq (ha : a.Tracks pos mid) (hb : b.Tracks mid next) :
    (a.seq b).Tracks pos next := by
  rintro s e hs (⟨t, ht, he⟩ | ⟨he, hstop⟩)
  · exact hb ((ha hs ht).2 t rfl) he
  · refine ⟨(ha hs he).1, fun t ht => ?_⟩
    subst ht
    exact hstop.elim

/-- A loop that comes back to where it began can be repeated. -/
theorem Tracks.loop (hbody : body.Tracks pos pos) : (loop body).Tracks pos pos := by
  intro s e hs h
  induction h with
  | exit hzero => exact ⟨nofun, fun t ht => by cases ht; exact hs⟩
  | pass hcell hpass _ ih => exact ih ((hbody hs hpass).2 _ rfl)
  | stop hcell hpass hstop => exact hbody hs hpass

/-- Where the cursor is known to stay on the tape, a move has one ending. -/
theorem tracks_move {amount : Int} (h : OnTape (pos + amount)) :
    (of (Snapshot.move amount)).Tracks pos (pos + amount) := by
  intro s e hs he
  rw [of_iff, Snapshot.move, hs, if_pos h] at he
  subst he
  exact ⟨fun h => (by cases h), fun t ht => by cases ht; rfl⟩

/-- A read moves no cursor. -/
theorem tracks_read : (of Snapshot.read).Tracks pos pos := by
  intro s e hs he
  rw [of_iff] at he
  refine ⟨?_, fun t ht => (Snapshot.read_cursor (he.trans ht)).trans hs⟩
  rw [← he, Snapshot.read]
  split <;> rintro ⟨⟩

/-- Anything else leaves the cursor where it is. -/
theorem tracks_of_done {f : Snapshot → Snapshot} (hf : ∀ s, (f s).cursor = s.cursor) :
    (of fun s => .done (f s)).Tracks pos pos := by
  intro s e hs he
  cases he
  exact ⟨nofun, fun t ht => by cases ht; exact (hf s).trans hs⟩

end Effect

namespace Source

/-- A move to a cell on the tape takes the cursor there. -/
private theorem tracks_of_checked {pos next amount : Int}
    (h : checked (pos + amount) = some next) :
    (Effect.of (Snapshot.move amount)).Tracks pos next := by
  unfold checked at h
  split at h
  · next htape =>
    cases h
    exact Effect.tracks_move htape
  · cases h

/-- A symbol takes the cursor where the walk does. -/
theorem tracks_symbol {b : UInt8} {pos next : Int} (h : stepFrom pos b = some next) :
    (Effect.of (Snapshot.symbol b)).Tracks pos next := by
  unfold stepFrom at h
  unfold Snapshot.symbol
  generalize Bytes.char b = c at h ⊢
  split at h
  · exact tracks_of_checked h
  · exact tracks_of_checked h
  · cases h
    -- No symbol that is left moves the cursor.
    split
    · exact Effect.tracks_of_done fun s => rfl
    · exact Effect.tracks_of_done fun s => rfl
    · contradiction
    · contradiction
    · exact Effect.tracks_of_done fun s => rfl
    · exact Effect.tracks_read
    · exact Effect.tracks_skip

/-- A text with a walk never leaves the tape, and the cursor ends where the walk does. -/
theorem tracks_of_walk : (trees : List Source) → {pos last : Int} → walk pos trees = some last →
    (effects trees).Tracks pos last
  | [], pos, last, h => by
    cases walk_nil.symm.trans h
    exact Effect.tracks_skip
  | .symbol b :: rest, pos, last, h => by
    obtain ⟨next, hsymbol, hrest⟩ := walk_cons_iff.mp h
    exact (tracks_symbol hsymbol).seq (tracks_of_walk rest hrest)
  | .loop body :: rest, pos, last, h => by
    obtain ⟨next, hloop, hrest⟩ := walk_cons_iff.mp h
    obtain ⟨hbody, rfl⟩ := walkTree_loop_iff.mp hloop
    exact (tracks_of_walk body hbody).loop.seq (tracks_of_walk rest hrest)

/-! ### Texts that may fall off the tape -/

/-- Source trees through which the cursor is known, unless it leaves the tape. It may do so only by
a step over the end of the tape with an addition behind it, which ends the run of moves. -/
inductive Treads : Int → List Source → Int → Prop
  | nil (pos : Int) : Treads pos [] pos
  | symbol {pos next last : Int} {b : UInt8} {rest : List Source} (h : stepFrom pos b = some next)
      (hrest : Treads next rest last) : Treads pos (.symbol b :: rest) last
  | fall {pos : Int} (h : ¬ OnTape (pos + 1)) (rest : List Source) (last : Int) :
      Treads pos (.symbol (byte '>') :: .symbol (byte '+') :: rest) last
  | loop {pos last : Int} {body rest : List Source} (hbody : Treads pos body pos)
      (hrest : Treads pos rest last) : Treads pos (.loop body :: rest) last

namespace Treads

variable {trees first second : List Source} {pos mid last : Int}

/-- A walk does not leave the tape. -/
theorem of_walk : (trees : List Source) → {pos last : Int} → walk pos trees = some last →
    Treads pos trees last
  | [], pos, last, h => by
    cases walk_nil.symm.trans h
    exact .nil pos
  | .symbol b :: rest, pos, last, h => by
    obtain ⟨next, hsymbol, hrest⟩ := walk_cons_iff.mp h
    exact .symbol hsymbol (of_walk rest hrest)
  | .loop body :: rest, pos, last, h => by
    obtain ⟨next, hloop, hrest⟩ := walk_cons_iff.mp h
    obtain ⟨hbody, rfl⟩ := walkTree_loop_iff.mp hloop
    exact .loop (of_walk body hbody) (of_walk rest hrest)

/-- Source trees in a row take the cursor from one position to the next. -/
theorem append (hfirst : Treads pos first mid) (hsecond : Treads mid second last) :
    Treads pos (first ++ second) last := by
  induction hfirst with
  | nil => exact hsecond
  | symbol h _ ih => exact .symbol h (ih hsecond)
  | fall h rest _ => exact .fall h (rest ++ second) last
  | loop hbody _ _ ih => exact .loop hbody (ih hsecond)

/-- If the end of the pruned source trees is reached, the cursor is where it is said to be. -/
theorem cursor_eq (h : Treads pos trees last) {s t : Snapshot} (hs : s.cursor = pos)
    (ht : effects (prune trees) s (.done t)) : t.cursor = last := by
  induction h generalizing s t with
  | nil =>
    cases ht
    exact hs
  | symbol h _ ih =>
    obtain ⟨u, hu, ht⟩ := Effect.seq_done_iff.mp ht
    exact ih ((tracks_symbol h hs hu).2 u rfl) ht
  | fall h rest last =>
    obtain ⟨u, hu, -⟩ := Effect.seq_done_iff.mp ht
    -- A step off the tape is no ending that is done.
    have hoff : s.move 1 = .offTape := if_neg (hs ▸ h)
    cases hoff.symm.trans hu
  | @loop pos last body rest hbody _ ihbody ih =>
    obtain ⟨u, hu, ht⟩ := Effect.seq_done_iff.mp ht
    refine ih ?_ ht
    rw [pruned_loop] at hu
    split at hu
    · cases hu
      exact hs
    · exact (Effect.loop_invariant (fun s => s.cursor = pos) (fun _ _ hs _ => ihbody hs) hu hs).1

/-- The node of a loop has the endings of the pruned loop, if it is so for its body. -/
private theorem effect_loopNodes_iff {body : List Source} (htreads : Treads pos body pos)
    (hbody : ∀ {s e}, s.cursor = pos →
      (Program.effect (condenseFrom [] .none body) s e ↔ effects (prune body) s e))
    {s : Snapshot} {e : Ending} (hs : s.cursor = pos) :
    Program.effect (loopNodes body) s e ↔ effect (pruned (.loop body)) s e := by
  have hspace : effect (.symbol (byte ' ')) = Effect.skip := rfl
  obtain ⟨hnodes, -⟩ | ⟨hminus, hnodes⟩ | hnodes := loopNodes_cases body
  · rw [pruned_loop, if_pos hnodes, hnodes, hspace, Program.effect_nil]
  · rw [pruned_loop, if_neg (by simp [hnodes]), hnodes, hminus, prune_cons, prune_nil,
      pruned_symbol, effect_loop, loop_minus, Program.effect_cons, Program.effect_nil,
      Effect.seq_skip, Node.effect_clear]
  · rw [pruned_loop, if_neg (by simp [hnodes]), effect_loop, hnodes, Program.effect_cons,
      Program.effect_nil, Effect.seq_skip, Node.effect_loop]
    refine Effect.loop_congr (fun s => s.cursor = pos) (fun s e hs _ => hbody hs)
      (fun s t hs _ ht => ?_) hs
    exact htreads.cursor_eq hs ((hbody hs).mp ht)

/-- Behind a run, the condensed program has the endings of the pruned source trees. -/
private theorem effect_condenseFrom_iff (h : Treads pos trees last) {run : Run} {s t : Snapshot}
    {e : Ending} (hs : OnTape s.cursor) (hrun : run.act s = .done t) (ht : t.cursor = pos) :
    Program.effect (condenseFrom [] run trees) s e ↔ effects (prune trees) t e := by
  induction h generalizing run s t e with
  | nil =>
    have hfinish := run.act_refines_finish hs (by simp) hrun
    rw [condenseFrom_nil, prune_nil, effects_nil, Effect.skip_iff]
    refine ⟨fun h => Program.effect_isFunctional _ h hfinish, ?_⟩
    rintro rfl
    exact hfinish
  | @symbol pos next last b rest h _ ih =>
    obtain ⟨htape, hcursor⟩ := tracks_symbol h ht rfl
    have hstep := run.act_symbol_refines b hs htape (Effect.seq_of_done hrun rfl)
    rw [condenseFrom_symbol, Program.effect_append, prune_cons, effects_cons, pruned_symbol,
      effect_symbol]
    -- The nodes flushed here have one ending only, so what is known of them fixes the rest.
    have hfun := Program.effect_isFunctional (run.symbol b []).1.reverse
    rcases hstep with ⟨u, hnodes, hact⟩ | ⟨hnodes, hstop⟩
    · obtain ⟨t', ht'⟩ := Run.exists_of_act hact htape
      rw [hfun.seq_of_done_iff hnodes, Effect.of_seq_iff ht']
      exact ih (Program.effect_stays _ hs hnodes) (hact.trans ht') (hcursor t' ht')
    · rw [hfun.seq_of_stop_iff hnodes hstop,
        (Effect.isFunctional_of _).seq_of_stop_iff rfl hstop]
  | fall h rest last =>
    have hoff : t.symbol (byte '>') = .offTape := if_neg (ht ▸ h)
    rw [condenseFrom_fall_iff hs hrun (ht ▸ h), prune_cons, effects_cons, pruned_symbol,
      effect_symbol, (Effect.isFunctional_of _).seq_of_stop_iff hoff trivial]
  | @loop pos last body rest hbody _ ihbody ih =>
    have htape : OnTape pos := ht ▸ Run.onTape_of_act hs hrun
    have hfinish := run.act_refines_finish hs (by simp) hrun
    -- The run comes to its end before the loop, so what is in the loop and behind it has no run.
    have hnodes : ∀ {u e}, u.cursor = pos →
        (Program.effect (loopNodes body) u e ↔ effect (pruned (.loop body)) u e) :=
      effect_loopNodes_iff hbody fun hu => ihbody (hu ▸ htape) rfl hu
    rw [condenseFrom_loop, Program.effect_append,
      (Program.effect_isFunctional _).seq_of_done_iff hfinish, Program.effect_append, prune_cons,
      effects_cons]
    refine Effect.seq_congr (fun e => hnodes ht) fun u hu => ?_
    have hback : u.cursor = pos := by
      refine (hbody.loop (.nil pos)).cursor_eq ht ?_
      rw [prune_cons, prune_nil, effects_cons, effects_nil, Effect.seq_skip]
      exact (hnodes ht).mp hu
    exact ih (hback ▸ htape) rfl hback

/-- The condensed program has the endings of the pruned source trees. -/
theorem effect_condense_iff (h : Treads pos trees last) (htape : OnTape pos) {s : Snapshot}
    {e : Ending} (hs : s.cursor = pos) :
    Program.effect (condense trees) s e ↔ effects (prune trees) s e :=
  h.effect_condenseFrom_iff (hs ▸ htape) rfl hs

end Treads

/-- If there is a walk, every ending of the condensed program is an ending of the pruned source
trees. -/
theorem effects_of_condense {trees : List Source} {pos last : Int} {s : Snapshot} {e : Ending}
    (hwalk : walk pos trees = some last) (hs : s.cursor = pos) (htape : OnTape pos)
    (h : Program.effect (condense trees) s e) : effects (prune trees) s e :=
  ((Treads.of_walk trees hwalk).effect_condense_iff htape hs).mp h

end Source

end TapeMachine
