import TapeMachine.Machine.Storage
import TapeMachine.Proofs.CheckedPrograms

/-!
# Only checked programs are loaded

A runner is asked to load programs from three kinds of sources, to save and to run them, and its
streams are changed in between, while anybody may change its files. Whatever the order of these
requests, the program that is loaded has passed the check, and a load that fails leaves no program
behind.

The module introduces:

* `Workplace`, `Request`, `Workplace.serve`: a runner with its files, and what may be asked of it;
* `Runner.IsChecked`: the runner has no program but a checked one, and its cursor is at a position
  (`Workplace.isChecked_serve`);
* `Runner.run_ne_unknownOp`: running it does not end at a node without a meaning;
* `Workplace.program_serve`, `Workplace.program_of_refused`: what requests do to the program;
* `Workplace.check_program_serveAll`: the states that requests lead to, and what runs do there.
-/

namespace TapeMachine

/-! ### Requests -/

/-- A change to the streams of a runner, its limit or its closers. -/
inductive Change where
  /-- One more reader at the end of the input. -/
  | input (reader : Reader)
  /-- Another output. -/
  | output (sink : Option Nat)
  /-- One more output. -/
  | tee (sink : Option Nat)
  /-- Another dump. -/
  | dump (sink : Option Nat)
  /-- Another limit of the tape. -/
  | limit (limit : Nat)
  /-- Another logger. -/
  | logger (logger : Log.Logger)
  /-- One more closer. -/
  | closer (closer : Closer)

/-- Makes a change to a runner. -/
def Runner.configure (r : Runner) : Change → Runner
  | .input reader => r.addInput reader
  | .output sink => r.setOutput sink
  | .tee sink => r.addOutput sink
  | .dump sink => r.setDump sink
  | .limit limit => r.setLimit limit
  | .logger logger => r.setLogger logger
  | .closer closer => r.addCloser closer

/-- What may be asked of a runner, and what may happen to its files. -/
inductive Request where
  /-- Load a program text. -/
  | load (text : Bytes)
  /-- Load an instruction tree. -/
  | loadTree (tree : Program)
  /-- Load the program saved in a file. -/
  | loadImage (path : Bytes)
  /-- Save the program to a file. -/
  | saveImage (path : Bytes)
  /-- Run the program. -/
  | run (fuel : Nat) (patience : Patience)
  /-- Make a change to the runner. -/
  | configure (change : Change)
  /-- Close what is to be closed. -/
  | close
  /-- Somebody else changes the files. -/
  | replaceFiles (folder : Folder)

/-- Whether a request is one to load a program. -/
def Request.isLoad : Request → Bool
  | .load _ | .loadTree _ | .loadImage _ => true
  | _ => false

/-- Why a request fails. -/
inductive Refusal where
  /-- The text is no program. -/
  | text (fault : ParseFault)
  /-- The tree is no program. -/
  | tree (fault : CheckFault)
  /-- The file holds no program. -/
  | image (fault : LoadFault)
  /-- The program cannot be saved. -/
  | save (fault : SaveFault)
  /-- The run fails. -/
  | run (fault : RunFault)
  /-- Something cannot be closed. -/
  | close (fault : StreamFault)

/-- A runner with the files that it loads from and saves to. -/
structure Workplace where
  /-- The runner. -/
  runner : Runner
  /-- The files. -/
  folder : Folder

namespace Workplace

/-- A new runner. -/
def fresh (sinks : Sinks) (folder : Folder) : Workplace :=
  ⟨Runner.fresh sinks, folder⟩

/-- Serves a request. -/
def serve (w : Workplace) : Request → Except Refusal Unit × Workplace
  | .load text =>
    let (result, runner) := w.runner.load text
    (result.mapError .text, { w with runner })
  | .loadTree tree =>
    let (result, runner) := w.runner.loadTree tree
    (result.mapError .tree, { w with runner })
  | .loadImage path =>
    let (result, runner) := w.runner.loadImage w.folder path
    (result.mapError .image, { w with runner })
  | .saveImage path =>
    match w.runner.saveImage w.folder path with
    | .error fault => (.error (.save fault), w)
    | .ok folder => (.ok (), { w with folder })
  | .run fuel patience =>
    let (result, runner) := w.runner.run fuel patience
    (result.mapError .run, { w with runner })
  | .configure change => (.ok (), { w with runner := w.runner.configure change })
  | .close =>
    let (_, fault, runner) := w.runner.close
    (fault.elim (.ok ()) (.error <| .close ·), { w with runner })
  | .replaceFiles folder => (.ok (), { w with folder })

/-- Serves requests one after another. -/
def serveAll (w : Workplace) (requests : List Request) : Workplace :=
  requests.foldl (fun w request => (w.serve request).2) w

end Workplace

/-! ### Running the program loaded -/

namespace Runner

variable {r : Runner}

/-- Whether a runner has no program but a checked one and its cursor is at a position. -/
structure IsChecked (r : Runner) : Prop where
  /-- The program is checked. -/
  program : ∀ program, r.program = some program → program.check = .ok ()
  /-- The cursor is at a position. -/
  cursor : r.machine.cursor ≤ Register.lastPosition

/-- Settings keep the program and the cursor. -/
theorem IsChecked.configure (h : r.IsChecked) (change : Change) :
    (r.configure change).IsChecked := by
  cases change <;> exact ⟨h.program, h.cursor⟩

/-- Without a program the nodes to be run are none. -/
theorem IsChecked.firstFault_loaded (h : r.IsChecked) : Node.firstFault r.loaded = none := by
  rw [loaded]
  cases hprogram : r.program with
  | none => rfl
  | some program => exact Program.check_eq_ok_iff.mp (h.program program hprogram)

/-- All phases of running it are those of a checked program. -/
theorem IsChecked.phase (h : r.IsChecked) (patience : Patience) (t : Nat) :
    (r.phase patience t).IsChecked := by
  have hstart : (Phase.running r.loaded (start r.machine)).IsChecked :=
    ⟨h.firstFault_loaded, Nat.zero_le _⟩
  exact hstart.after patience t

theorem cursor_halt (m : Machine) (cause : Stop) : (halt m cause).cursor = m.cursor := by
  rw [halt]
  split
  · rfl
  · rw [Machine.trace_cursor]
    rfl

theorem program_concluded (r : Runner) (cause : Stop) (m : Machine) :
    (r.concluded cause m).2.program = r.program := by
  rw [concluded]
  split <;> rfl

theorem cursor_completed (r : Runner) (m : Machine) :
    (r.completed m).2.machine.cursor = m.cursor := by
  have hflush : m.flush.2.cursor = m.cursor := rfl
  unfold completed
  split
  · next hnone =>
    rw [hnone] at hflush
    exact hflush
  · next fault m' hsome =>
    rw [hsome] at hflush
    rw [machine_concluded]
    exact hflush

theorem program_completed (r : Runner) (m : Machine) : (r.completed m).2.program = r.program := by
  unfold completed
  split
  · rfl
  · exact r.program_concluded _ _

/-- Runs do not change the program. -/
theorem program_run (r : Runner) (fuel : Nat) (patience : Patience) :
    (r.run fuel patience).2.program = r.program := by
  cases hprogram : r.program with
  | none => rw [run, hprogram]; exact hprogram
  | some program =>
    rw [← hprogram, run_of_isSome (by rw [hprogram]; rfl)]
    split
    · exact r.program_completed _
    · exact r.program_concluded _ _
    · rfl

/-- Runs of a checked program leave the cursor at a position. -/
theorem IsChecked.run (h : r.IsChecked) (fuel : Nat) (patience : Patience) :
    (r.run fuel patience).2.IsChecked := by
  refine ⟨fun program hprogram => h.program program (r.program_run fuel patience ▸ hprogram), ?_⟩
  cases hprogram : r.program with
  | none =>
    rw [Runner.run, hprogram]
    exact h.cursor
  | some program =>
    rw [run_of_isSome (by rw [hprogram]; rfl)]
    split
    -- Each way to end is a phase of the run, and the phases have been checked.
    · next m hexec =>
      obtain ⟨t, ht⟩ := Machine.phase_of_finished hexec
      have hphase := h.phase patience t
      rw [Runner.phase, ht] at hphase
      rw [cursor_completed]
      exact hphase
    · next cause m hexec =>
      obtain ⟨t, ht⟩ := Machine.phase_of_stopped hexec
      have hphase := h.phase patience t
      rw [Runner.phase, ht] at hphase
      rw [machine_concluded, cursor_halt]
      exact hphase.2
    · next m hexec =>
      obtain ⟨t, todo, -, ht⟩ := Machine.phase_of_unfinished hexec
      have hphase := h.phase patience t
      rw [Runner.phase, ht] at hphase
      exact hphase.2

/-- A run reports a node without a meaning only if such a node has stopped it. -/
theorem concluded_ne_unknownOp (r : Runner) {cause : Stop} {op : Op} (h : cause ≠ .unknownOp op)
    (m : Machine) : (r.concluded cause m).1 ≠ .error (.stopped (.unknownOp op)) := by
  rw [concluded]
  split
  · simp
  · simpa using h

/-- Running a checked program does not end at a node without a meaning. -/
theorem run_ne_unknownOp (h : r.IsChecked) (fuel : Nat) (patience : Patience) (op : Op) :
    (r.run fuel patience).1 ≠ .error (.stopped (.unknownOp op)) := by
  cases hprogram : r.program with
  | none =>
    rw [Runner.run, hprogram]
    simp
  | some program =>
    rw [run_of_isSome (by rw [hprogram]; rfl)]
    split
    · next m hexec =>
      unfold completed
      split
      · simp
      · exact r.concluded_ne_unknownOp (by simp) _
    · next cause m hexec =>
      -- Only nodes of the program are ever performed, and they have been checked.
      obtain ⟨t, ht⟩ := Machine.phase_of_stopped hexec
      have hphase := h.phase patience t
      rw [Runner.phase, ht] at hphase
      exact r.concluded_ne_unknownOp (hphase.1 op) _
    · simp

end Runner

/-! ### Serving requests -/

namespace Workplace

variable {w : Workplace} {request : Request}

/-- What is loaded has passed the check, whatever it was loaded from. -/
theorem isChecked_serve (h : w.runner.IsChecked) (request : Request) :
    (w.serve request).2.runner.IsChecked := by
  -- All loads begin by taking the program away, and leave it so if they fail.
  have hcleared : { w.runner with program := none }.IsChecked := ⟨by simp, h.cursor⟩
  cases request with
  | load text =>
    simp only [serve, Runner.load]
    split
    · exact hcleared
    · next program hparse =>
      refine ⟨?_, ?_⟩
      · rintro _ ⟨⟩
        exact Program.check_of_parse hparse
      · rw [Machine.trace_cursor]
        exact h.cursor
  | loadTree tree =>
    simp only [serve, Runner.loadTree]
    split
    · exact hcleared
    · next hcheck =>
      refine ⟨?_, h.cursor⟩
      rintro _ ⟨⟩
      exact hcheck
  | loadImage path =>
    simp only [serve, Runner.loadImage]
    split
    · exact hcleared
    · split
      · exact hcleared
      · next program hdecode =>
        refine ⟨?_, h.cursor⟩
        rintro _ ⟨⟩
        exact Image.check_of_decode hdecode
  | saveImage path =>
    rw [serve]
    split <;> exact h
  | run fuel patience => exact h.run fuel patience
  | configure change => exact h.configure change
  | close => exact ⟨h.program, h.cursor⟩
  | replaceFiles folder => exact h

/-- No other request than a load changes the program. -/
theorem program_serve (h : request.isLoad = false) :
    (w.serve request).2.runner.program = w.runner.program := by
  cases request with
  | load text => cases h
  | loadTree tree => cases h
  | loadImage path => cases h
  | saveImage path =>
    rw [serve]
    split <;> rfl
  | run fuel patience => exact w.runner.program_run fuel patience
  | configure change => cases change <;> rfl
  | close => rfl
  | replaceFiles folder => rfl

/-- A load that fails leaves no program. -/
theorem program_of_refused {refusal : Refusal} (h : request.isLoad = true)
    (hrefused : (w.serve request).1 = .error refusal) :
    (w.serve request).2.runner.program = none := by
  cases request with
  | load text =>
    simp only [serve, Runner.load] at hrefused ⊢
    split
    · rfl
    · next hparse => simp [hparse, Except.mapError] at hrefused
  | loadTree tree =>
    simp only [serve, Runner.loadTree] at hrefused ⊢
    split
    · rfl
    · next hcheck => simp [hcheck, Except.mapError] at hrefused
  | loadImage path =>
    simp only [serve, Runner.loadImage] at hrefused ⊢
    split
    · rfl
    · next hread =>
      split
      · rfl
      · next hdecode => simp [hread, hdecode, Except.mapError] at hrefused
  -- The other requests are no loads.
  | saveImage path => cases h
  | run fuel patience => cases h
  | configure change => cases h
  | close => cases h
  | replaceFiles folder => cases h

/-- All requests lead to states in which the program is checked. -/
theorem isChecked_serveAll (h : w.runner.IsChecked) (requests : List Request) :
    (w.serveAll requests).runner.IsChecked := by
  induction requests generalizing w with
  | nil => exact h
  | cons request rest ih => exact ih (isChecked_serve h request)

theorem program_serveAll {requests : List Request}
    (h : ∀ request ∈ requests, request.isLoad = false) :
    (w.serveAll requests).runner.program = w.runner.program := by
  induction requests generalizing w with
  | nil => rfl
  | cons request rest ih =>
    obtain ⟨hfirst, hrest⟩ := List.forall_mem_cons.mp h
    exact (ih hrest).trans (program_serve hfirst)

/-- In every state `w` that `requests` lead to, there is no program or one that passes
`Program.check`. A load that fails leaves none, and then runs fail and change nothing until another
load. No run ends with `unknownOp`, and in the course of a run the `cursorWord` is not negative: a
move adds its amount as words are added and stops the run with `underflow` if the sum is negative,
whatever the amount. -/
theorem check_program_serveAll (sinks : Sinks) (folder : Folder) (requests : List Request) :
    let w := (fresh sinks folder).serveAll requests
    ((w.runner.program = none ∧ w.runner.loaded = []) ∨
      ∃ program, w.runner.program = some program ∧ w.runner.loaded = program ∧
        program.check = .ok ()) ∧
    (∀ request refusal, request.isLoad = true → (w.serve request).1 = .error refusal →
      ∀ others : List Request, (∀ other ∈ others, other.isLoad = false) → ∀ fuel patience,
        let w' := (w.serve request).2.serveAll others
        w'.serve (.run fuel patience) = (.error (.run .noProgram), w')) ∧
    (∀ fuel patience op,
      (w.serve (.run fuel patience)).1 ≠ .error (.run (.stopped (.unknownOp op)))) ∧
    w.runner.machine.cursorWord.toInt = w.runner.machine.cursor ∧
    ∀ patience t,
      let m := (w.runner.phase patience t).machine
      0 ≤ m.cursorWord ∧ m.cursorWord.toInt = m.cursor ∧
        ∀ node rest, w.runner.phase patience t = .running (node :: rest) m → node.op = .move →
          if 0 ≤ m.cursorWord + node.amount then
            ∃ m', w.runner.phase patience (t + 1) = .running rest m' ∧
              m'.cursorWord = m.cursorWord + node.amount
          else w.runner.phase patience (t + 1) =
            .stopped (.underflow m.cursor node.amount) m := by
  intro w
  -- The invariant of all requests, from which each part follows.
  have hchecked : w.runner.IsChecked := isChecked_serveAll ⟨by simp [fresh, Runner.fresh],
    Nat.zero_le _⟩ requests
  refine ⟨?_, ?_, ?_, Machine.toInt_cursorWord hchecked.cursor, ?_⟩
  · cases hprogram : w.runner.program with
    | none => exact Or.inl ⟨rfl, by rw [Runner.loaded, hprogram]; rfl⟩
    | some program =>
      exact Or.inr ⟨program, rfl, by rw [Runner.loaded, hprogram]; rfl,
        hchecked.program program hprogram⟩
  · intro request refusal hload hrefused others hothers fuel patience w'
    have hprogram : w'.runner.program = none :=
      (program_serveAll hothers).trans (program_of_refused hload hrefused)
    have hrun : w'.runner.run fuel patience = (.error .noProgram, w'.runner) := by
      rw [Runner.run, hprogram]
    rw [serve, hrun]
    rfl
  · intro fuel patience op hrun
    have hresult := Runner.run_ne_unknownOp hchecked fuel patience op
    rw [serve] at hrun
    cases hcases : (w.runner.run fuel patience).1 with
    | ok _ => simp [hcases, Except.mapError] at hrun
    | error fault =>
      rw [hcases] at hresult
      simp only [hcases, Except.mapError, Except.error.injEq, Refusal.run.injEq] at hrun
      exact hresult (by rw [hrun])
  · intro patience t m
    have hcursor : m.cursor ≤ Register.lastPosition := (hchecked.phase patience t).cursor
    have hword := Machine.toInt_cursorWord hcursor
    refine ⟨?_, hword, fun node rest hphase hop => ?_⟩
    · rw [Int64.le_iff_toInt_le, hword]
      exact Int.natCast_nonneg _
    · rw [Runner.phase_succ, hphase]
      exact Phase.step_of_move patience hop rest hcursor

/-- Two moves by the largest word: the second one would wrap around. -/
def farMoves : Program :=
  [{ op := .move, amount := Int64.maxValue }, { op := .move, amount := Int64.maxValue }]

/-- The program `farMoves` stops at its second move, and a tree that is none leaves no program. -/
theorem check_program_serveAll_farMoves :
    let w := (fresh [] {}).serveAll [.load (utf8 "+"), .loadTree farMoves]
    let tree : Program := [{ op := ⟨9⟩ }]
    let w' := (w.serve (.loadTree tree)).2.serveAll [.configure (.limit 5), .saveImage (utf8 "a")]
    (w.serve (.loadTree tree)).1 = .error (.tree (.unknownOp ⟨9⟩)) ∧
      w'.serve (.run 5 .endless) = (.error (.run .noProgram), w') ∧
      ∃ m, w.runner.phase .endless 1 = .running [{ op := .move, amount := Int64.maxValue }] m ∧
        m.cursorWord = Int64.maxValue ∧
        w.runner.phase .endless 2 = .stopped (.underflow m.cursor Int64.maxValue) m := by
  intro w tree w'
  obtain ⟨-, hnone, -, -, hmoves⟩ :=
    check_program_serveAll [] {} [.load (utf8 "+"), .loadTree farMoves]
  -- The first move just fits, and leads to the last position.
  have hfirst := (hmoves .endless 0).2.2 _ _ rfl rfl
  rw [if_pos (by decide)] at hfirst
  obtain ⟨m, hphase, hword⟩ := hfirst
  have hmachine : (w.runner.phase .endless 1).machine = m := by
    rw [hphase]
    rfl
  have hsecond := (hmoves .endless 1).2.2 _ _ (hphase.trans (by rw [← hmachine])) rfl
  rw [hmachine, hword, if_neg (by decide)] at hsecond
  exact ⟨rfl, hnone (.loadTree tree) _ rfl rfl [.configure (.limit 5), .saveImage (utf8 "a")]
    (by simp [Request.isLoad]) 5 .endless, m, hphase, hword, hsecond⟩

end Workplace

end TapeMachine
