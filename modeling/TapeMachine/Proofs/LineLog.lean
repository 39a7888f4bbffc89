import TapeMachine.Proofs.ReaderQueue
import TapeMachine.Stream.LineSplitter

/-!
# Lines of a text that arrives in pieces

A splitter may be written to in pieces of any size and closed at any time. Between two times it is
closed it passes on the completed lines of the text that has arrived, each with the piece that
brings its newline, and the open line at the end if anything is in it. What it holds back is always
the open line of that text, so it does not matter where the text is cut.

The module introduces:

* `LineSplitter.after`, `LineSplitter.passedOn`: the splitter some calls leave, and the lines that
  are passed on by calls;
* `LineSplitter.passedOn_write`: the lines that are passed on between two times a
  splitter is closed.
-/

namespace TapeMachine

namespace LineSplitter

open Bytes

/-- The search for newlines finds the lines of the text, when none is in the line being read. -/
theorem splitFrom_eq (text : Bytes) : ∀ {line : Bytes}, newline ∉ line →
    splitFrom line text =
      (completedLines (line.reverse ++ text), openLine (line.reverse ++ text)) := by
  induction text with
  | nil =>
    intro line hline
    have hline' : newline ∉ line.reverse := mt List.mem_reverse.mp hline
    rw [splitFrom, List.append_nil, completedLines_eq_nil hline', openLine_eq_self hline']
  | cons b text ih =>
    intro line hline
    rw [splitFrom]
    split
    · next hb =>
      -- The newline ends the line, and nothing of the next one has been read.
      have hline' : newline ∉ line.reverse := mt List.mem_reverse.mp hline
      have hfirst : completedLines (line.reverse ++ [newline]) = [line.reverse] := by
        rw [completedLines_concat, if_pos rfl, completedLines_eq_nil hline',
          openLine_eq_self hline', List.nil_append]
      have hnext : openLine (line.reverse ++ [newline]) = [] := by
        rw [openLine_concat, if_pos rfl]
      rw [ih List.not_mem_nil, hb, List.append_cons, completedLines_append (_ ++ [newline]) text,
        openLine_append (_ ++ [newline]) text, hfirst, hnext]
      rfl
    · next hb =>
      have hmore : newline ∉ b :: line := by
        rintro (_ | ⟨_, hmem⟩)
        · exact hb rfl
        · exact hline hmem
      rw [ih hmore, List.reverse_cons, List.append_assoc]
      rfl

theorem splitFrom_nil (text : Bytes) : splitFrom [] text = (completedLines text, openLine text) :=
  splitFrom_eq text List.not_mem_nil

/-! ### Calls of a splitter -/

/-- A call of a splitter. -/
inductive Call where
  /-- More bytes are written. -/
  | write (bytes : Bytes)
  /-- The splitter is closed. -/
  | close
deriving DecidableEq

/-- The lines that a call passes on, and the splitter it leaves. -/
def call (splitter : LineSplitter) : Call → List Bytes × LineSplitter
  | .write bytes => (splitter.write bytes).2
  | .close => splitter.close.2

/-- The splitter that some calls of a new one leave. -/
def after (calls : List Call) : LineSplitter :=
  calls.foldl (fun splitter next => (splitter.call next).2) {}

/-- The lines that some calls pass on, one after another. -/
def passedOn (splitter : LineSplitter) : List Call → List Bytes
  | [] => []
  | next :: calls => (splitter.call next).1 ++ passedOn (splitter.call next).2 calls

/-- Whether what a splitter holds back is the open line of a text, the one that has arrived since
it was closed last. -/
def Awaits (splitter : LineSplitter) (text : Bytes) : Prop :=
  splitter.held = openLine text

variable {splitter : LineSplitter} {text : Bytes}

theorem call_close (splitter : LineSplitter) : splitter.call .close =
    (if splitter.held = [] then [] else [splitter.held], {}) := by
  simp only [call, close, List.isEmpty_iff]

/-- A write passes on the lines that it completes, and the splitter awaits the rest of the last one.
-/
theorem Awaits.call_write (h : splitter.Awaits text) (bytes : Bytes) :
    completedLines (text ++ bytes) = completedLines text ++ (splitter.call (.write bytes)).1 ∧
      (splitter.call (.write bytes)).2.Awaits (text ++ bytes) := by
  simp only [call, write, splitFrom_nil, Awaits]
  rw [h]
  exact ⟨completedLines_append text bytes, (openLine_append text bytes).symm⟩

/-- Any number of writes pass on the lines that they complete together. Closing the splitter then
passes on the open line. -/
theorem Awaits.passedOn_writes (pieces : List Bytes) : ∀ {splitter : LineSplitter} {text : Bytes},
    splitter.Awaits text →
      completedLines (text ++ pieces.flatten) =
          completedLines text ++ splitter.passedOn (pieces.map .write) ∧
        wholeLines (text ++ pieces.flatten) =
          completedLines text ++ splitter.passedOn (pieces.map .write ++ [.close]) := by
  induction pieces with
  | nil =>
    intro splitter text h
    simp only [List.flatten_nil, List.append_nil, List.map_nil, List.nil_append, passedOn,
      call_close, wholeLines_eq, true_and]
    rw [h]
    split
    · rw [List.append_nil]
    · rfl
  -- After a piece the splitter awaits the rest of a longer text.
  | cons piece pieces ih =>
    intro splitter text h
    obtain ⟨hlines, hafter⟩ := h.call_write piece
    obtain ⟨hcompleted, hwhole⟩ := ih hafter
    rw [List.flatten_cons, ← List.append_assoc, hcompleted, hwhole, hlines, List.append_assoc,
      List.append_assoc]
    exact ⟨rfl, rfl⟩

/-- Nothing is awaited of a line by a splitter that is new or has just been closed. -/
theorem awaits_nil {past : List Call} (h : ∀ last ∈ past.getLast?, last = .close) :
    (after past).Awaits [] := by
  cases past using List.reverseRecOn with
  | nil => rfl
  | append_singleton past last =>
    obtain rfl : last = .close := h last (by rw [List.getLast?_concat]; rfl)
    rw [after, List.foldl_concat, call_close]
    rfl

/-- Let a splitter be new, or have been closed by the last call of the `past`, and be written to in
`pieces`. Each write takes all bytes of its `piece`. The lines that have been `passedOn` after any
number of pieces are those that the pieces complete together, and when the splitter is closed it
passes on what follows them, unless that is empty. So the same lines are passed on for all pieces
that make up the same text. -/
theorem passedOn_write (past : List Call)
    (hpast : ∀ last ∈ past.getLast?, last = .close) (pieces : List Bytes) :
    (∀ k piece, pieces[k]? = some piece →
      ((after (past ++ (pieces.take k).map .write)).write piece).1 =
        { count := piece.length, fault := none }) ∧
    (∀ k, (after past).passedOn ((pieces.take k).map .write) =
      completedLines (pieces.take k).flatten) ∧
    (after past).passedOn (pieces.map .write ++ [.close]) = wholeLines pieces.flatten ∧
    ∀ others : List Bytes, others.flatten = pieces.flatten →
      (after past).passedOn (others.map .write ++ [.close]) =
        (after past).passedOn (pieces.map .write ++ [.close]) := by
  have hstart := awaits_nil hpast
  have hwhole (pieces : List Bytes) :
      (after past).passedOn (pieces.map .write ++ [.close]) = wholeLines pieces.flatten :=
    (hstart.passedOn_writes pieces).2.symm
  refine ⟨fun k piece _ => rfl, fun k => ?_, hwhole pieces, fun others hothers => ?_⟩
  · exact (hstart.passedOn_writes (pieces.take k)).1.symm
  · rw [hwhole, hwhole, hothers]

/-- A line may come in pieces, and a piece may complete several lines or none. -/
theorem passedOn_write_afterClose :
    (after [.write (utf8 "left"), .close]).passedOn
        ([utf8 "hello\nwor", utf8 "", utf8 "ld\n\npar", utf8 "tial"].map .write ++ [.close]) =
      [utf8 "hello", utf8 "world", utf8 "", utf8 "partial"] := by
  obtain ⟨-, -, hlines, -⟩ := passedOn_write [.write (utf8 "left"), .close]
    (by decide) [utf8 "hello\nwor", utf8 "", utf8 "ld\n\npar", utf8 "tial"]
  exact hlines.trans (by decide)

end LineSplitter

end TapeMachine
