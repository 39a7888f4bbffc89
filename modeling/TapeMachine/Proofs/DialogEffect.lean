import TapeMachine.Proofs.DialogMachine
import TapeMachine.Proofs.PrintingEffect

/-!
# What saying and asking does

To ask is to write a question and to read bytes until one is an answer, which then selects the next
node. The passes of that loop are followed along the input: each takes a byte, and controls are
skipped.

The module introduces:

* `Generator.Realizes.readYesNo`: what reading an answer does, with `Generator.answered` for its
  loop;
* `Generator.answered_cases`: the loop ends behind the first answer of the input, or with it;
* `Generator.Realizes.say`, `Generator.Realizes.ask`: what the code of an action does;
* `Dialog.Talk.ofSnapshot`: the state of the talk that a snapshot is about;
* `Dialog.Action.exists_realizes_emit`: the code of an action does what the action does to a talk.
-/

namespace TapeMachine

namespace Generator

variable {T : Trust} {pos cell mid : Int} {body : Gen Fragment}

/-- The answer is open to all steps. -/
private theorem isOpen_yesNo : T.Open Register.yesNo :=
  T.isOpen_of_not_isPad (by decide) (by decide)

/-- The register that repeats a question is open to all steps. -/
private theorem isOpen_yesNoLoop : T.Open Register.yesNoLoop :=
  T.isOpen_of_not_isPad (by decide) (by decide)

/-- The key that was read is open to all steps. -/
private theorem isOpen_yesNoKey : T.Open Register.yesNoKey :=
  T.isOpen_of_not_isPad (by decide) (by decide)

private theorem testable_yesNo : Testable Register.yesNo := by decide

private theorem testable_yesNoLoop : Testable Register.yesNoLoop := by decide

/-! ### Reading an answer -/

/-- What a pass does with a byte: it tells whether the byte is an answer, and which. -/
def keyed (b : UInt8) (s : Snapshot) : Snapshot :=
  let s := s.set Register.yesNoKey (b - byte 'y')
  let s := if b = byte 'n' then s.set Register.yesNoLoop 0 else s
  let s := if b = byte 'y' then (s.set Register.yesNoLoop 0).set Register.yesNo 1 else s
  (tested s 0).goTo Register.yesNoLoop

/-- A pass reads a byte and compares it with both answers. -/
private theorem realizes_pass (hadds : ∀ amount, T.Adds Register.yesNoKey amount) :
    Realizes T Register.yesNoLoop (sequence [sequence [
      readAt Register.yesNoKey,
      add (-110),
      ifZero Register.yesNoKey (clearAt Register.yesNoLoop),
      moveTo Register.yesNoKey,
      add (-11),
      ifZero Register.yesNoKey (sequence [clearAt Register.yesNoLoop, setAt Register.yesNo 1])],
      moveTo Register.yesNoLoop]) Register.yesNoLoop
    fun s => match nextVisible s.input with
      | none => .outOfInput { s.goTo Register.yesNoKey with input := [] }
      | some (b, rest) => .done (keyed b { s with input := rest }) := by
  have hkey : Testable Register.yesNoKey := by decide
  have hother : Register.yesNoKey ≠ Register.yesNoLoop := by decide
  have htape : OnTape Register.yesNoKey := by decide
  have hno := Realizes.ifZero_done htape (isOpen_yesNoKey (T := T)) hkey
    (Realizes.clearAt Register.flag isOpen_yesNoLoop) (·.set Register.yesNoLoop 0) fun s => by
      simp only [Snapshot.set_goTo, Snapshot.goTo_goTo, tested_set testable_yesNoLoop,
        tested_set_flag]
  have hyes := Realizes.ifZero_done htape (isOpen_yesNoKey (T := T)) hkey
    (((Realizes.clearAt Register.flag isOpen_yesNoLoop).cons ((Realizes.setAt _ isOpen_yesNo
      (T.adds_one _)).cons
      (.nil _))).congr fun s _ => rfl) (fun s => (s.set Register.yesNoLoop 0).set Register.yesNo 1)
    fun s => by
      simp only [Snapshot.set_goTo, Snapshot.goTo_goTo, tested_set testable_yesNoLoop,
        tested_set testable_yesNo, tested_set_flag, UInt8.ofInt_one]
  have hadd := fun amount => Realizes.add isOpen_yesNoKey (hadds amount)
  refine (((Realizes.readAt _ isOpen_yesNoKey).cons ((hadd (-110)).cons (hno.cons
    ((Realizes.moveTo _ htape).cons ((hadd (-11)).cons (hyes.cons (.nil _))))))).cons
      ((Realizes.moveTo _ (by decide)).cons (.nil _))).congr
        fun s _ => ?_
  cases hnext : nextVisible s.input with
  | none => rfl
  | some next =>
    obtain ⟨b, rest⟩ := next
    -- The byte is compared with `n` by subtracting it, and with `y` by subtracting the difference.
    have hdown : UInt8.ofInt (-110) + UInt8.ofInt (-11) = -byte 'y' := by decide
    have hn : UInt8.ofInt (-110) = -byte 'n' := by decide
    have hno : b + UInt8.ofInt (-110) = 0 ↔ b = byte 'n' := by grind
    have hsum : b + UInt8.ofInt (-110) + UInt8.ofInt (-11) = b - byte 'y' := by grind
    have hyes : b - byte 'y' = 0 ↔ b = byte 'y' := by grind
    simp only [Ending.andThen_done, Snapshot.add, Snapshot.put_goTo, Snapshot.here_goTo,
      Snapshot.cells_set_self, Snapshot.set_set, Snapshot.goTo_cells, hno]
    generalize ({ s with input := rest } : Snapshot) = u
    refine congrArg Ending.done ?_
    -- The tests leave their own registers alike, so the first one does not show behind the second.
    by_cases hb : b = byte 'n'
    · have hb' : b ≠ byte 'y' := by
        rw [hb]
        decide
      simp only [keyed, if_pos hb, if_neg hb', tested_cells hkey, Snapshot.set_goTo,
        Snapshot.cells_set_self, tested_goTo, tested_set hkey, tested_tested, hsum, hyes,
        Snapshot.set_comm hother, Snapshot.set_set, Snapshot.goTo_goTo]
    · simp only [keyed, if_neg hb, tested_cells hkey, Snapshot.set_goTo, Snapshot.cells_set_self,
        tested_goTo, tested_set hkey, hsum, hyes, Snapshot.set_set, Snapshot.goTo_goTo]
      split
      · simp only [tested_set testable_yesNo, tested_set testable_yesNoLoop, tested_tested,
          tested_goTo]
      · simp only [tested_tested, tested_goTo]

/-- What a pass leaves in the cells: the loop ends with an answer, `yesNo` says whether it is a yes,
and the registers of the tests are zero. -/
private theorem keyed_cells (b : UInt8) (s : Snapshot) (p : Int) : (keyed b s).cells p =
    if p = Register.flag ∨ p = Register.copy ∨ p = Register.zeroTest then 0 else
    if p = Register.yesNoLoop then if b = byte 'y' ∨ b = byte 'n' then 0 else s.cells p else
    if p = Register.yesNo then if b = byte 'y' then 1 else s.cells p else
    if p = Register.yesNoKey then b - byte 'y' else s.cells p := by
  have hother : byte 'y' ≠ byte 'n' := by decide
  simp only [keyed, tested]
  by_cases hyes : b = byte 'y'
  · simp only [hyes, if_neg hother, if_true, true_or, Snapshot.goTo_cells, Snapshot.set_cells,
      Function.update_apply]
    grind
  · by_cases hno : b = byte 'n'
    · simp only [hno, if_neg hother.symm, if_true, or_true, Snapshot.goTo_cells,
        Snapshot.set_cells, Function.update_apply]
      grind
    · simp only [hyes, hno, if_false, or_self, Snapshot.goTo_cells, Snapshot.set_cells,
        Function.update_apply]
      grind

/-- A pass writes nothing, and what it reads is taken from the input before. -/
private theorem keyed_streams (b : UInt8) (s : Snapshot) :
    (keyed b s).input = s.input ∧ (keyed b s).output = s.output := by
  unfold keyed
  split <;> split <;> exact ⟨rfl, rfl⟩

/-- How the loop ends that reads an input until an answer comes. -/
def answered : Bytes → Snapshot → Ending
  | [], s => .outOfInput { s.goTo Register.yesNoKey with input := [] }
  | b :: rest, s =>
    if b < 0x20 then answered rest s
    else if b = byte 'y' ∨ b = byte 'n' then .done (keyed b { s with input := rest })
    else answered rest (keyed b { s with input := rest })

/-- The loop is followed along the input, of which only what is visible matters. -/
private theorem loop_answered (input : Bytes) {s : Snapshot}
    (hcursor : s.cursor = Register.yesNoLoop)
    (hopen : s.cells Register.yesNoLoop ≠ 0) (hinput : nextVisible s.input = nextVisible input) :
    Effect.loop (Effect.of fun s => match nextVisible s.input with
      | none => .outOfInput { s.goTo Register.yesNoKey with input := [] }
      | some (b, rest) => .done (keyed b { s with input := rest })) s (answered input s) := by
  -- A control at the front is no pass of its own, so the input of the snapshot may lag behind.
  induction input generalizing s with
  | nil =>
    refine .stop (by rwa [Snapshot.here, hcursor]) ?_ trivial
    rw [Effect.of_iff, hinput]
    rfl
  | cons b rest ih =>
    rw [answered]
    rw [nextVisible] at hinput
    split
    · next hcontrol =>
      rw [if_pos hcontrol] at hinput
      exact ih hcursor hopen hinput
    · next hcontrol =>
      rw [if_neg hcontrol] at hinput
      have hcursor' : (keyed b { s with input := rest }).cursor = Register.yesNoLoop := rfl
      have hloop : (keyed b { s with input := rest }).cells Register.yesNoLoop =
          if b = byte 'y' ∨ b = byte 'n' then 0 else s.cells Register.yesNoLoop := by
        simp [keyed_cells]
      have hpass : (match nextVisible s.input with
          | none => Ending.outOfInput { s.goTo Register.yesNoKey with input := [] }
          | some (b, rest) => .done (keyed b { s with input := rest })) =
            .done (keyed b { s with input := rest }) := by
        rw [hinput]
      split
      · next hanswer =>
        rw [if_pos hanswer] at hloop
        exact .pass (by rwa [Snapshot.here, hcursor]) hpass
          (.exit (by rw [Snapshot.here, hcursor', hloop]))
      · next hanswer =>
        rw [if_neg hanswer] at hloop
        exact .pass (by rwa [Snapshot.here, hcursor]) hpass
          (ih hcursor' (by rwa [hloop]) (by rw [(keyed_streams b _).1]))

/-- What is there when an answer has been read: what followed it in the input, no open loop, and
zero in the registers of the tests. All cells but those of reading are as before. -/
structure Heard (agreed : Bool) (rest : Bytes) (s t : Snapshot) : Prop where
  input_eq : t.input = rest
  output_eq : t.output = s.output
  yesNo_eq : t.cells Register.yesNo = if agreed then 1 else 0
  zero_eq : ∀ cell ∈ [Register.yesNoLoop, Register.zeroTest, Register.copy], t.cells cell = 0
  cells_eq : ∀ cell ∉ [Register.yesNo, Register.yesNoLoop, Register.yesNoKey, Register.flag,
    Register.zeroTest, Register.copy], t.cells cell = s.cells cell

/-- A pass that reads an answer. -/
private theorem heard_keyed {b : UInt8} {rest : Bytes} {s : Snapshot}
    (hb : b = byte 'y' ∨ b = byte 'n') (hfresh : s.cells Register.yesNo = 0) :
    Heard (decide (b = byte 'y')) rest s (keyed b { s with input := rest }) where
  input_eq := (keyed_streams b _).1
  output_eq := (keyed_streams b _).2
  yesNo_eq := by simp [keyed_cells, hfresh]
  zero_eq := by simp [keyed_cells, hb]
  cells_eq := fun cell hcell => by
    simp only [List.mem_cons, not_or] at hcell
    simp [keyed_cells, hcell]

/-- What a pass that reads anything else leaves does not show. -/
private theorem Heard.of_keyed {agreed : Bool} {b : UInt8} {rest left : Bytes} {s t : Snapshot}
    (h : Heard agreed rest (keyed b { s with input := left }) t) : Heard agreed rest s t where
  input_eq := h.input_eq
  output_eq := h.output_eq.trans (keyed_streams b _).2
  yesNo_eq := h.yesNo_eq
  zero_eq := h.zero_eq
  cells_eq := fun cell hcell => by
    rw [h.cells_eq cell hcell]
    simp only [List.mem_cons, not_or] at hcell
    simp [keyed_cells, hcell]

/-- What reading an answer leads to: the first answer of the input, or the end of the input. -/
theorem answered_cases (input : Bytes) {s : Snapshot} (hfresh : s.cells Register.yesNo = 0) :
    match Dialog.answer input with
    | none => ∃ t, answered input s = .outOfInput t ∧ t.input = [] ∧ t.output = s.output
    | some (agreed, rest) => ∃ t, answered input s = .done t ∧ Heard agreed rest s t := by
  induction input generalizing s with
  | nil => exact ⟨_, rfl, rfl, rfl⟩
  | cons b rest ih =>
    by_cases hanswer : b = byte 'y' ∨ b = byte 'n'
    · have hvisible : ¬ b < 0x20 := by
        rcases hanswer with rfl | rfl <;> decide
      rw [answered, if_neg hvisible, if_pos hanswer, Dialog.answer_cons hanswer]
      exact ⟨_, rfl, heard_keyed hanswer hfresh⟩
    -- Any other byte is passed over, whether the machine skips it or a pass reads it.
    have hskip : Dialog.answer (b :: rest) = Dialog.answer rest :=
      @Dialog.answer_append [b] (List.forall_mem_singleton.mpr hanswer) rest
    rw [answered, hskip]
    by_cases hcontrol : b < 0x20
    · rw [if_pos hcontrol]
      exact ih hfresh
    · rw [if_neg hcontrol, if_neg hanswer]
      have hkept : (keyed b { s with input := rest }).cells Register.yesNo = 0 := by
        simp [keyed_cells, hfresh, (not_or.mp hanswer).1]
      have hrest := ih hkept
      cases hnext : Dialog.answer rest with
      | none =>
        rw [hnext] at hrest
        obtain ⟨t, ht, hinput, houtput⟩ := hrest
        exact ⟨t, ht, hinput, houtput.trans (keyed_streams b _).2⟩
      | some found =>
        rw [hnext] at hrest
        obtain ⟨t, ht, hheard⟩ := hrest
        exact ⟨t, ht, hheard.of_keyed⟩

/-- What the loop does, whether it is entered or not. -/
private def reading (s : Snapshot) : Ending :=
  if s.cells Register.yesNoLoop = 0 then .done s else answered s.input s

/-- Reading an answer clears the registers, loops and tells the answer. -/
theorem Realizes.readYesNo (hadds : ∀ amount, T.Adds Register.yesNoKey amount)
    (htape : OnTape pos) : Realizes T pos Generator.readYesNo pos fun s =>
    (answered s.input (((s.set Register.yesNo 0).set Register.yesNoLoop 1).goTo
      Register.yesNoLoop)).andThen fun t => .done ((((t.set Register.yesNoKey 0).set Register.flag
        (t.cells Register.yesNo)).set Register.copy 0).goTo pos) := by
  have hloop : Realizes T Register.yesNoLoop (loopAt Register.yesNoLoop _) Register.yesNoLoop _ :=
    Realizes.loopOn _ (by decide) (realizes_pass hadds)
      (g := reading) fun s hs => by
        have hhere : s.here = s.cells Register.yesNoLoop := by
          rw [Snapshot.here, hs.cursor]
        unfold reading
        split
        · next hzero => exact .exit (hhere.trans hzero)
        · next hopen => exact loop_answered s.input hs.cursor hopen rfl
  refine (noted _ (saveCursor htape ((Realizes.clearAt pos isOpen_yesNo).cons
    ((Realizes.setAt _ isOpen_yesNoLoop (T.adds_one _)).cons (hloop.cons ((Realizes.clearAt _
      isOpen_yesNoKey).cons ((Realizes.copy (by decide) isOpen_flag isOpen_yesNo
        (by decide) (by decide) (by decide)).cons (.nil _)))))))).congr fun s _ => ?_
  have hkept : Register.yesNo ≠ Register.yesNoKey := by decide
  -- The loop is entered, since its cell was just set.
  have hopen : reading (((s.set Register.yesNo 0).set Register.yesNoLoop 1).goTo
      Register.yesNoLoop) = answered s.input (((s.set Register.yesNo 0).set
        Register.yesNoLoop 1).goTo Register.yesNoLoop) :=
    if_neg (by rw [Snapshot.goTo_cells, Snapshot.cells_set_self]; decide)
  simp only [Ending.andThen_done, Snapshot.set_goTo, Snapshot.goTo_goTo, Snapshot.goTo_cells,
    UInt8.ofInt_one, Snapshot.cells_set_of_ne hkept, hopen]
  cases answered s.input (((s.set Register.yesNo 0).set Register.yesNoLoop 1).goTo
    Register.yesNoLoop) <;> rfl

/-! ### Actions -/

private theorem usable_node : Register.Usable Register.node := by decide

private theorem usable_put : Register.Usable Register.put := by decide

private theorem usable_yesNoKey : Register.Usable Register.yesNoKey := by decide

/-- A number that a cell can hold is allowed for a node. -/
theorem checkNode_of_le {id : Nat} (h : id ≤ 255) : checkNode id = pure () :=
  if_neg (by omega)

/-- `say text target` prints the `text` with a newline and makes `target` the node. -/
theorem Realizes.say (htape : OnTape pos) (text : Bytes) {target : Nat} (htarget : target ≤ 255) :
    Realizes .inKnowledge pos (Generator.say text target) pos fun s =>
      .done (((printed (text ++ [Bytes.newline]) s).set Register.node
        (UInt8.ofInt target)).goTo pos) := by
  rw [Generator.say, checkNode_of_le htarget, pure_bind]
  exact noted _ (saveCursor htape ((Realizes.writeString usable_put.adds rfl htape (by simp)).cons
    ((Realizes.setAt pos (usable_node.isOpen _) (usable_node.adds target)).cons (.nil _))))

/-- Selecting a node after a test. -/
private theorem tested_set_node (s : Snapshot) (v : UInt8) :
    (((((tested s 1).set Register.node v).goTo Register.node).set Register.flag 0).goTo pos) =
      (tested (s.set Register.node v) 0).goTo pos := by
  have hnode : Testable Register.node := by decide
  simp only [Snapshot.set_goTo, Snapshot.goTo_goTo, tested_set hnode, tested_set_flag]

/-- A question was written, and the registers of its answer are set up. -/
def asked (prompt : Bytes) (s : Snapshot) : Snapshot :=
  (((printed (prompt ++ utf8 " [y/n]\n> ") s).set Register.yesNo 0).set Register.yesNoLoop 1).goTo
    Register.yesNoLoop

/-- `ask prompt no yes` reads an answer, as often as it takes, and makes `no` or `yes` the node. -/
theorem Realizes.ask (htape : OnTape pos) (prompt : Bytes) {no yes : Nat} (hno : no ≤ 255)
    (hyes : yes ≤ 255) : Realizes .inKnowledge pos (Generator.ask prompt no yes) pos fun s =>
      (answered s.input (asked prompt s)).andThen fun t =>
        .done ((tested ((t.set Register.yesNoKey 0).set Register.node
          (UInt8.ofInt (if t.cells Register.yesNo = 0 then no else yes))) 0).goTo pos) := by
  rw [Generator.ask, checkNode_of_le hno, checkNode_of_le hyes, pure_bind, pure_bind]
  have hnode : Testable Register.node := by decide
  have hasked : prompt ++ utf8 " [y/n]\n> " ≠ [] := by
    rw [Ne, List.append_eq_nil_iff]
    exact fun h => absurd h.2 (by decide)
  refine (noted _ (saveCursor htape ((Realizes.writeString usable_put.adds rfl htape hasked).cons
    ((Realizes.readYesNo usable_yesNoKey.adds htape).cons
    ((Realizes.ifNonzero_done htape isOpen_yesNo testable_yesNo
      (Realizes.setAt _ (usable_node.isOpen _) (usable_node.adds yes))
      (·.set Register.node (UInt8.ofInt yes)) (tested_set_node · _)).cons
    ((Realizes.ifZero_done htape isOpen_yesNo testable_yesNo
      (Realizes.setAt _ (usable_node.isOpen _) (usable_node.adds no))
      (·.set Register.node (UInt8.ofInt no)) (tested_set_node · _)).cons (.nil _))))))).congr
        fun s _ => ?_
  simp only [Ending.andThen_done]
  change Ending.andThen _
    (Ending.andThen _ (Ending.andThen _ (answered s.input (asked prompt s)))) = _
  cases answered s.input (asked prompt s) with
  | done t =>
    -- The tests of the answer overwrite what reading it left in their registers.
    have hforget : ∀ v, tested ((((t.set Register.yesNoKey 0).set Register.flag
        (t.cells Register.yesNo)).set Register.copy 0).set Register.node v) 0 =
          tested ((t.set Register.yesNoKey 0).set Register.node v) 0 := by
      refine fun v => Snapshot.ext rfl (funext fun p => ?_) rfl rfl
      simp only [tested, Snapshot.goTo_cells, Snapshot.set_cells, Function.update_apply]
      grind
    refine congrArg Ending.done ?_
    by_cases hzero : t.cells Register.yesNo = 0
    · rw [if_pos (by simp (disch := decide) [Function.update_of_ne, hzero]),
        if_pos (by simp (disch := decide) [Function.update_of_ne, hzero]), if_pos hzero]
      simp only [Snapshot.set_goTo, Snapshot.goTo_goTo, tested_goTo, tested_set hnode,
        tested_tested, hforget]
    · rw [if_neg (by simp (disch := decide) [Function.update_of_ne, hzero]),
        if_neg (by simp (disch := decide) [Function.update_of_ne, hzero]), if_neg hzero]
      simp only [Snapshot.set_goTo, Snapshot.goTo_goTo, tested_goTo, tested_tested, hforget]
  | outOfInput t => rfl
  | offTape => rfl

end Generator

namespace Dialog

open Generator

/-- The state of the talk that a snapshot is about. -/
def Talk.ofSnapshot (s : Snapshot) : Talk :=
  ⟨(s.cells Register.node).toNat, s.input, s.output⟩

/-- Whether an ending is that of a turn behind which the talk goes on or lacks an answer. -/
def Turn.Shown : Turn → Ending → Prop
  | .next talk, .done t => Talk.ofSnapshot t = talk
  | .unanswered output, .outOfInput t => t.output = output
  | _, _ => False

/-- The code of an action does what the action does, and leaves the countdown through the table
alone. -/
theorem Action.exists_realizes_emit {action : Action}
    (htargets : ∀ target ∈ action.targets, target ≤ 255) :
    ∃ f, Realizes .inKnowledge Register.flag action.emit Register.flag f ∧
      ∀ s, (action.perform (.ofSnapshot s)).Shown (f s) ∧
        ∀ t, f s = .done t → t.cells Register.nodeWork = s.cells Register.nodeWork := by
  have htape : OnTape Register.flag := by decide
  have hbyte : ∀ {target : Nat}, target ≤ 255 → (UInt8.ofInt target).toNat = target := by
    intro target htarget
    have := toNat_ofInt target
    omega
  cases action with
  | say text target =>
    have htarget := htargets target (by simp [Action.targets])
    refine ⟨_, Realizes.say htape text htarget, fun s => ⟨?_, ?_⟩⟩
    · simp [Turn.Shown, Action.perform, Talk.ofSnapshot, printed, hbyte htarget]
    · rintro t ⟨⟩
      simp (disch := decide) [printed, Function.update_of_ne]
  | ask prompt no yes =>
    have hno := htargets no (by simp [Action.targets])
    have hyes := htargets yes (by simp [Action.targets])
    refine ⟨_, Realizes.ask htape prompt hno hyes, fun s => ?_⟩
    -- What the loop that reads an answer does is known from the input alone.
    have hcases := answered_cases s.input (s := asked prompt s)
      (by simp (disch := decide) [asked, Function.update_of_ne])
    have houtput : (asked prompt s).output = s.output ++ (prompt ++ utf8 " [y/n]\n> ") := rfl
    have hwork : (asked prompt s).cells Register.nodeWork = s.cells Register.nodeWork := by
      simp (disch := decide) [asked, printed, Function.update_of_ne]
    simp only [Action.perform, Talk.ofSnapshot]
    cases hanswer : answer s.input with
    | none =>
      rw [hanswer] at hcases
      obtain ⟨t, ht, -, houtput'⟩ := hcases
      rw [ht]
      exact ⟨houtput'.trans houtput, fun _ h => by cases h⟩
    | some found =>
      obtain ⟨agreed, rest⟩ := found
      rw [hanswer] at hcases
      obtain ⟨t, ht, hheard⟩ := hcases
      obtain rfl := hheard.input_eq
      have houtput' := hheard.output_eq.trans houtput
      rw [ht, Ending.andThen_done]
      refine ⟨?_, ?_⟩
      -- The node is set by the answer, and nothing behind the answer has been read.
      · cases agreed <;>
          simp (disch := decide) [Turn.Shown, Talk.ofSnapshot, hheard.yesNo_eq, houtput',
            hbyte hno, hbyte hyes]
      · rintro _ ⟨⟩
        rw [← hwork, ← hheard.cells_eq Register.nodeWork (by decide)]
        simp (disch := decide) [Function.update_of_ne]

end Dialog

end TapeMachine
