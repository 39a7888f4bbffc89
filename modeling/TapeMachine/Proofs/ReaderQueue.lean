import Mathlib.Data.List.DropRight
import Mathlib.Data.List.TakeDrop
import TapeMachine.Machine.Reading

/-!
# Reading a queue of readers

A queue of readers is read as one text, the data of all readers one after another, up to the first
reader that fails. On the way it is told in which line of which reader the input is, and which line
was completed last. A line is completed by its newline, or by the end of its reader if anything is
in it, so the lines of a queue are those of its readers.

The module introduces:

* `Reader.contents`, `Reader.outcome`: what a queue has to give, and what is reported behind it;
* `Reader.lines`: the lines of a reader;
* `Input.IsReading`: what an input tells while it reads;
* `Input.Yields`: what a single call may find;
* `Input.readByte_afterReads`: what any number of calls find.
-/

namespace TapeMachine

/-! ### Lines -/

namespace Bytes

/-- The lines of a text that are ended by a newline. -/
def completedLines (text : Bytes) : List Bytes :=
  (lines text).dropLast

/-- What follows the last newline of a text. -/
def openLine (text : Bytes) : Bytes :=
  text.rtakeWhile (· != newline)

/-- The lines of a text: the pieces between its newlines, without an empty last one. -/
def wholeLines (text : Bytes) : List Bytes :=
  if (lines text).getLast? = some [] then (lines text).dropLast else lines text

/-- A newline ends an empty line. -/
theorem lines_newline_cons (text : Bytes) : lines (newline :: text) = [] :: lines text := rfl

/-- A text has at least one line. -/
theorem exists_lines_eq_cons (text : Bytes) : ∃ first pieces, lines text = first :: pieces :=
  List.exists_cons_of_ne_nil (by fun_cases lines text <;> simp_all)

/-- Any other byte belongs to the first line. -/
theorem lines_cons_of_ne {b : UInt8} (hb : b ≠ newline) {text first : Bytes} {pieces : List Bytes}
    (h : lines text = first :: pieces) : lines (b :: text) = (b :: first) :: pieces := by
  rw [lines, if_neg hb, h]

/-- A newline at the end of a text starts another piece. -/
theorem lines_concat_newline (text : Bytes) : lines (text ++ [newline]) = lines text ++ [[]] := by
  induction text with
  | nil => rfl
  | cons a text ih =>
    obtain ⟨first, pieces, htext⟩ := exists_lines_eq_cons text
    by_cases ha : a = newline
    · rw [ha, List.cons_append, lines_newline_cons, ih, lines_newline_cons, List.cons_append]
    · rw [List.cons_append, lines_cons_of_ne ha htext]
      exact lines_cons_of_ne ha (by rw [ih, htext]; rfl)

/-- Any other byte belongs to the last piece. -/
theorem lines_concat_of_ne {b : UInt8} (hb : b ≠ newline) {text : Bytes} :
    ∀ (complete : List Bytes) {last : Bytes}, lines text = complete ++ [last] →
      lines (text ++ [b]) = complete ++ [last ++ [b]] := by
  induction text with
  | nil =>
    intro complete last h
    have hpieces : [] ++ [[]] = complete ++ [last] := h
    obtain ⟨rfl, hlast⟩ := List.append_inj' hpieces rfl
    cases hlast
    simp [lines, hb]
  | cons a text ih =>
    intro complete last h
    obtain ⟨first, pieces, htext⟩ := exists_lines_eq_cons text
    by_cases ha : a = newline
    · rw [ha, lines_newline_cons] at h
      cases complete with
      | nil =>
        -- There is a piece behind the newline.
        rw [htext] at h
        cases h
      | cons piece complete =>
        obtain ⟨rfl, hrest⟩ := List.cons.inj h
        rw [ha, List.cons_append, lines_newline_cons, ih complete hrest]
        rfl
    · rw [lines_cons_of_ne ha htext] at h
      cases complete with
      | nil =>
        cases h
        exact lines_cons_of_ne ha (ih [] htext)
      | cons piece complete =>
        cases h
        exact lines_cons_of_ne ha (ih (first :: complete) htext)

/-- A newline opens an empty line, and any other byte is added to the open one. -/
theorem openLine_concat (text : Bytes) (b : UInt8) :
    openLine (text ++ [b]) = if b = newline then [] else openLine text ++ [b] := by
  rw [openLine, List.rtakeWhile_concat]
  by_cases hb : b = newline <;> simp [hb, openLine]

/-- A text is made up of its completed lines and what follows them. -/
theorem lines_eq (text : Bytes) : lines text = completedLines text ++ [openLine text] := by
  induction text using List.reverseRecOn with
  | nil => rfl
  | append_singleton text b ih =>
    rw [completedLines, openLine_concat]
    split
    · next hb => rw [hb, lines_concat_newline, List.dropLast_concat]
    · next hb => rw [lines_concat_of_ne hb _ ih, List.dropLast_concat]

/-- A newline completes the open line. -/
theorem completedLines_concat (text : Bytes) (b : UInt8) : completedLines (text ++ [b]) =
    if b = newline then completedLines text ++ [openLine text] else completedLines text := by
  rw [completedLines]
  split
  · next hb => rw [hb, lines_concat_newline, List.dropLast_concat, lines_eq]
  · next hb => rw [lines_concat_of_ne hb _ (lines_eq text), List.dropLast_concat]

/-- There is a completed line for each newline. -/
theorem length_completedLines (text : Bytes) :
    (completedLines text).length = text.count newline := by
  induction text using List.reverseRecOn with
  | nil => rfl
  | append_singleton text b ih =>
    rw [completedLines_concat, List.count_append, List.count_singleton]
    split
    · next hb => simp [hb, ih]
    · next hb => simp [hb, ih]

/-- There is no newline in the open line. -/
theorem newline_not_mem_openLine (text : Bytes) : newline ∉ openLine text := by
  intro hmem
  simpa using List.mem_rtakeWhile_imp hmem

/-- Without a newline, no line is completed. -/
theorem completedLines_eq_nil {text : Bytes} (h : newline ∉ text) : completedLines text = [] := by
  rw [← List.length_eq_zero_iff, length_completedLines, List.count_eq_zero_of_not_mem h]

/-- Without a newline, all is in the open line. -/
theorem openLine_eq_self {text : Bytes} (h : newline ∉ text) : openLine text = text := by
  refine List.rtakeWhile_eq_self_iff.mpr fun b hb => ?_
  simpa using ne_of_mem_of_not_mem hb h

/-- What follows a text continues its open line. -/
theorem openLine_append (text more : Bytes) :
    openLine (text ++ more) = openLine (openLine text ++ more) := by
  induction more using List.reverseRecOn with
  | nil =>
    rw [List.append_nil, List.append_nil]
    exact (openLine_eq_self (newline_not_mem_openLine text)).symm
  | append_singleton more b ih =>
    rw [← List.append_assoc, ← List.append_assoc, openLine_concat, openLine_concat, ih]

/-- What follows a text completes its open line, and lines of its own. -/
theorem completedLines_append (text more : Bytes) :
    completedLines (text ++ more) =
      completedLines text ++ completedLines (openLine text ++ more) := by
  induction more using List.reverseRecOn with
  | nil =>
    rw [List.append_nil, List.append_nil, completedLines_eq_nil (newline_not_mem_openLine text),
      List.append_nil]
  | append_singleton more b ih =>
    rw [← List.append_assoc, ← List.append_assoc, completedLines_concat, completedLines_concat, ih,
      openLine_append]
    split
    · rw [List.append_assoc]
    · rfl

/-- The end of a text completes the last line, unless nothing is in it. -/
theorem wholeLines_eq (text : Bytes) : wholeLines text =
    if openLine text = [] then completedLines text else completedLines text ++ [openLine text] := by
  simp only [wholeLines, lines_eq, List.getLast?_concat, Option.some.injEq, List.dropLast_concat]

end Bytes

/-- Lines of a named text, numbered from 1. -/
def Line.numbered (name : Bytes) (texts : List Bytes) : List Line :=
  texts.mapIdx fun i text => { name, number := i + 1, read := text.reverse }

/-- The last line has the last number. -/
theorem Line.numbered_concat (name : Bytes) (texts : List Bytes) (text : Bytes) :
    numbered name (texts ++ [text]) =
      numbered name texts ++ [{ name, number := texts.length + 1, read := text.reverse }] :=
  List.mapIdx_concat

/-- The last of some lines; a blank one if there are none. -/
def Line.lastOf (lines : List Line) : Line :=
  lines.getLast?.getD {}

/-! ### What a queue has to give -/

namespace Reader

/-- The lines of a reader. -/
def lines (reader : Reader) : List Line :=
  Line.numbered reader.name (Bytes.wholeLines reader.data)

/-- What can be read from readers one after another: their data, up to the first one that fails. -/
def contents : List Reader → Bytes
  | [] => []
  | reader :: later => reader.data ++ if reader.ending = .endOfFile then contents later else []

/-- What is reported behind the contents: the end of the file, unless a reader fails. -/
def outcome : List Reader → StreamFault
  | [] => .endOfFile
  | reader :: later => if reader.ending = .endOfFile then outcome later else reader.ending

/-- Whether no reader fails. -/
def EndPlainly (readers : List Reader) : Prop :=
  ∀ reader ∈ readers, reader.ending = .endOfFile

variable {ended later : List Reader}

/-- Readers in a row do not fail if none does. -/
theorem EndPlainly.append (h : EndPlainly ended) (h' : EndPlainly later) :
    EndPlainly (ended ++ later) := by
  intro reader hmem
  obtain hmem | hmem := List.mem_append.mp hmem
  · exact h reader hmem
  · exact h' reader hmem

/-- Behind readers that do not fail, the bytes of later ones are read. -/
theorem EndPlainly.contents_append (h : EndPlainly ended) :
    contents (ended ++ later) = ended.flatMap (·.data) ++ contents later := by
  induction ended with
  | nil => rfl
  | cons reader ended ih =>
    rw [List.cons_append, contents, if_pos (h reader List.mem_cons_self),
      ih fun r hr => h r (List.mem_cons_of_mem _ hr), List.flatMap_cons, List.append_assoc]

/-- Behind readers that do not fail, later ones decide how the reading ends. -/
theorem EndPlainly.outcome_append (h : EndPlainly ended) :
    outcome (ended ++ later) = outcome later := by
  induction ended with
  | nil => rfl
  | cons reader ended ih =>
    rw [List.cons_append, outcome, if_pos (h reader List.mem_cons_self),
      ih fun r hr => h r (List.mem_cons_of_mem _ hr)]

/-- Everything can be read if no reader fails. -/
theorem EndPlainly.contents_eq (h : EndPlainly ended) :
    contents ended = ended.flatMap (·.data) := by
  rw [← List.append_nil ended, h.contents_append, List.append_nil]
  exact List.append_nil _

/-- The end of the file is reported exactly if no reader fails. -/
theorem outcome_eq_endOfFile_iff {readers : List Reader} :
    outcome readers = .endOfFile ↔ EndPlainly readers := by
  induction readers with
  | nil => exact ⟨fun _ _ hmem => absurd hmem List.not_mem_nil, fun _ => rfl⟩
  | cons reader later ih =>
    rw [outcome, EndPlainly, List.forall_mem_cons]
    split
    · next hend => exact ih.trans (and_iff_right hend).symm
    · next hend => exact iff_of_false hend fun h => hend h.1

end Reader

/-! ### Where an input stands -/

namespace Input

open Reader

/-- The names of the readers among some that want to be closed at their end. -/
def closedOf (ended : List Reader) : List Bytes :=
  (ended.filter (·.closes)).map (·.name)

/-- Whether an input tells where it stands: in a text with a name, of which it has consumed some
bytes, behind readers that have ended. -/
structure StandsIn (ended : List Reader) (name consumed : Bytes) (input : Input) : Prop where
  name_eq : input.scan.name = name
  number_eq : input.scan.number = 1 + consumed.count Bytes.newline
  text_eq : input.scan.text = Bytes.openLine consumed
  /-- The line completed last may be one of the readers that have ended. -/
  last_eq : input.last = Line.lastOf (ended.flatMap lines ++
    Line.numbered name (Bytes.completedLines consumed))
  closed_eq : input.closed.reverse = closedOf ended

/-- Whether an input has left readers that have ended, and reads another one, of which it has
consumed some bytes. -/
structure IsReading (ended : List Reader) (reader : Reader) (consumed : Bytes)
    (later : List Reader) (input : Input) : Prop
    extends StandsIn ended reader.name consumed input where
  current_eq : ∃ rest, reader.data = consumed ++ rest ∧
    input.current = some { reader with data := rest }
  queue_eq : input.queue = later

/-- Whether an input has left readers that have ended, and reads no other one. -/
structure HasLeft (ended : List Reader) (input : Input) : Prop where
  last_eq : input.last = Line.lastOf (ended.flatMap lines)
  closed_eq : input.closed.reverse = closedOf ended
  current_eq : input.current = none

variable {ended later : List Reader} {reader : Reader} {name consumed rest : Bytes} {b : UInt8}
  {input : Input}

/-- Only the lines and the readers closed matter for where an input stands. -/
theorem StandsIn.of_eq {other : Input} (h : input.StandsIn ended name consumed)
    (hscan : other.scan = input.scan) (hlast : other.last = input.last)
    (hclosed : other.closed = input.closed) : other.StandsIn ended name consumed :=
  ⟨hscan ▸ h.name_eq, hscan ▸ h.number_eq, hscan ▸ h.text_eq, hlast.trans h.last_eq,
    hclosed ▸ h.closed_eq⟩

/-- Where an input stands, in its own terms. -/
theorem StandsIn.scan_eq (h : input.StandsIn ended name consumed) : input.scan =
    { name, number := (Bytes.completedLines consumed).length + 1
      read := (Bytes.openLine consumed).reverse } := by
  obtain ⟨hname, hnumber, htext, -, -⟩ := h
  rw [Bytes.length_completedLines, Nat.add_comm, ← hnumber, ← htext, ← hname, Line.text,
    List.reverse_reverse]

/-- Completing a line adds it to the completed ones. -/
theorem StandsIn.last_completeLine (h : input.StandsIn ended name consumed) :
    input.completeLine.last = Line.lastOf (ended.flatMap lines ++ Line.numbered name
      (Bytes.completedLines consumed ++ [Bytes.openLine consumed])) := by
  rw [Line.numbered_concat, Line.lastOf, ← List.append_assoc, List.getLast?_concat]
  exact h.scan_eq

/-- Nothing is consumed of a reader that is started. -/
theorem HasLeft.standsIn_start (h : input.HasLeft ended) (reader : Reader) :
    (input.start reader).StandsIn ended reader.name [] where
  name_eq := rfl
  number_eq := rfl
  text_eq := rfl
  last_eq := by
    have hnone : Line.numbered reader.name (Bytes.completedLines []) = [] := rfl
    rw [hnone, List.append_nil]
    exact h.last_eq
  closed_eq := h.closed_eq

/-- A byte that is noted has been consumed. -/
theorem StandsIn.noteByte (h : input.StandsIn ended name consumed) (b : UInt8) :
    (input.noteByte b).StandsIn ended name (consumed ++ [b]) := by
  unfold Input.noteByte
  by_cases hb : b = Bytes.newline
  · rw [if_pos hb]
    exact
      { name_eq := h.name_eq
        number_eq := by
          have hnumber := h.number_eq
          simp [completeLine, hnumber, hb]
          omega
        text_eq := by rw [Bytes.openLine_concat, if_pos hb]; rfl
        last_eq := by rw [Bytes.completedLines_concat, if_pos hb, h.last_completeLine]
        closed_eq := h.closed_eq }
  · rw [if_neg hb]
    exact
      { name_eq := h.name_eq
        number_eq := by simp [h.number_eq, hb]
        text_eq := by
          rw [Bytes.openLine_concat, if_neg hb, ← h.text_eq, Line.text, List.reverse_cons]
          rfl
        last_eq := by rw [Bytes.completedLines_concat, if_neg hb, ← h.last_eq]
        closed_eq := h.closed_eq }

/-- The end of a reader completes its last line, unless nothing is in it, and closes the reader if
it wants that. -/
theorem StandsIn.finish (h : input.StandsIn ended reader.name reader.data) (rest : Bytes) :
    (input.finish { reader with data := rest }).HasLeft (ended ++ [reader]) := by
  have hopen : input.scan.read.isEmpty = true ↔ Bytes.openLine reader.data = [] := by
    rw [← h.text_eq, Line.text, List.isEmpty_iff, List.reverse_eq_nil_iff]
  have hlines : (ended ++ [reader]).flatMap lines =
      ended.flatMap lines ++ Line.numbered reader.name (Bytes.wholeLines reader.data) := by
    simp [lines]
  -- A line that is still open at the end counts, unless it is empty.
  obtain ⟨before, hbefore, hlast, hclosed⟩ : ∃ before : Input,
      (if input.scan.read.isEmpty then input else input.completeLine) = before ∧
        before.last = Line.lastOf ((ended ++ [reader]).flatMap lines) ∧
        before.closed.reverse = closedOf ended := by
    rw [hlines, Bytes.wholeLines_eq]
    by_cases hempty : Bytes.openLine reader.data = []
    · rw [if_pos hempty, if_pos (hopen.mpr hempty)]
      exact ⟨input, rfl, h.last_eq, h.closed_eq⟩
    · rw [if_neg hempty, if_neg (mt hopen.mp hempty)]
      exact ⟨_, rfl, h.last_completeLine, h.closed_eq⟩
  rw [Input.finish, hbefore]
  refine ⟨hlast, ?_, rfl⟩
  by_cases hcloses : reader.closes = true
  · simp [hcloses, hclosed, closedOf]
  · simp [hcloses, hclosed, closedOf]

/-! ### Single calls -/

/-- What a call of a reading finds in a queue of readers, when some bytes have been given before. -/
inductive Yields (readers : List Reader) (given : Bytes) : Except StreamFault UInt8 × Input → Prop
  /-- The next byte, of a reader behind some that have ended. -/
  | byte {ended later : List Reader} {reader : Reader} {consumed : Bytes} {b : UInt8}
      {input : Input} (hreaders : readers = ended ++ reader :: later) (hended : EndPlainly ended)
      (hgiven : given = ended.flatMap (·.data) ++ consumed)
      (hinput : input.IsReading ended reader (consumed ++ [b]) later) :
      Yields readers given (.ok b, input)
  /-- A reader that fails, behind some that have ended. -/
  | failure {ended later : List Reader} {reader : Reader} {input : Input}
      (hreaders : readers = ended ++ reader :: later) (hended : EndPlainly ended)
      (hfails : reader.ending ≠ .endOfFile) (hgiven : given = ended.flatMap (·.data) ++ reader.data)
      (hinput : input.IsReading ended reader reader.data later) :
      Yields readers given (.error reader.ending, input)
  /-- The end of all readers. -/
  | nothing {input : Input} (hended : EndPlainly readers)
      (hgiven : given = readers.flatMap (·.data)) (hinput : input.HasLeft readers)
      (hqueue : input.queue = []) :
      Yields readers given (.error .endOfFile, input)

/-- What can be taken from a reader: a byte, a failure, or nothing if it has ended. -/
theorem StandsIn.take_cases (h : input.StandsIn ended reader.name consumed) (rest : Bytes) :
    (∃ b rest' after, rest = b :: rest' ∧ input.take { reader with data := rest } =
        some (.ok b, after) ∧ after.StandsIn ended reader.name (consumed ++ [b]) ∧
        after.current = some { reader with data := rest' } ∧ after.queue = input.queue) ∨
    (rest = [] ∧ reader.ending ≠ .endOfFile ∧
      input.take { reader with data := rest } = some (.error reader.ending, input)) ∨
    (rest = [] ∧ reader.ending = .endOfFile ∧ input.take { reader with data := rest } = none) := by
  cases rest with
  | cons b rest =>
    have hbefore : { input with current := some { reader with data := rest } }.StandsIn ended
        reader.name consumed := h.of_eq rfl rfl rfl
    exact Or.inl ⟨b, rest, _, rfl, rfl, hbefore.noteByte b, noteByte_current _ b,
      noteByte_queue _ b⟩
  | nil =>
    by_cases hend : reader.ending = .endOfFile
    · exact Or.inr (Or.inr ⟨rfl, hend, by simp [take, hend]⟩)
    · exact Or.inr (Or.inl ⟨rfl, hend, by simp [take]⟩)

/-- Reading from the readers that are left, when none of them has been started. -/
theorem HasLeft.readFrom_yields (queue : List Reader) : ∀ {ended : List Reader} {input : Input},
    EndPlainly ended → input.HasLeft ended →
      Yields (ended ++ queue) (ended.flatMap (·.data)) (input.readFrom queue) := by
  induction queue with
  | nil =>
    intro ended input hended h
    rw [List.append_nil]
    exact .nothing hended rfl ⟨h.last_eq, h.closed_eq, h.current_eq⟩ rfl
  | cons reader queue ih =>
    intro ended input hended h
    have hstart := h.standsIn_start reader
    obtain ⟨b, rest, after, hdata, htake, hafter, hcurrent, -⟩ | ⟨hdata, hfails, htake⟩ |
      ⟨hdata, hend, htake⟩ := hstart.take_cases reader.data
    all_goals simp only [readFrom, htake]
    · have hinput : { after with queue }.IsReading ended reader ([] ++ [b]) queue :=
        ⟨hafter.of_eq rfl rfl rfl, ⟨rest, hdata, hcurrent⟩, rfl⟩
      exact .byte rfl hended (List.append_nil _).symm hinput
    · have hinput : { input.start reader with queue }.IsReading ended reader reader.data queue :=
        ⟨hdata ▸ hstart.of_eq rfl rfl rfl, ⟨[], by simp, by rw [← hdata]; rfl⟩, rfl⟩
      exact .failure rfl hended hfails (by rw [hdata, List.append_nil]) hinput
    · -- The reader has ended at once, and leaves the input to those behind it.
      have hleft := (hdata ▸ hstart : StandsIn ended reader.name reader.data _).finish reader.data
      have hmore := ih (hended.append (List.forall_mem_singleton.mpr hend)) hleft
      rwa [List.append_assoc, List.singleton_append, List.flatMap_append, List.flatMap_singleton,
        hdata, List.append_nil, ← hdata] at hmore

/-- Where an input is when some bytes of a queue of readers have been given. -/
inductive Follows (readers : List Reader) (given : Bytes) : Input → Prop
  | between {ended : List Reader} {input : Input} (hreaders : readers = ended ++ input.queue)
      (hended : EndPlainly ended) (hgiven : given = ended.flatMap (·.data))
      (hinput : input.HasLeft ended) : Follows readers given input
  | within {ended later : List Reader} {reader : Reader} {consumed : Bytes} {input : Input}
      (hreaders : readers = ended ++ reader :: later) (hended : EndPlainly ended)
      (hgiven : given = ended.flatMap (·.data) ++ consumed)
      (hinput : input.IsReading ended reader consumed later) : Follows readers given input

/-- What a call finds depends only on the readers and the bytes given before. -/
theorem Follows.readByte_yields {readers : List Reader} {given : Bytes}
    (h : Follows readers given input) : Yields readers given input.readByte := by
  cases h with
  | between hreaders hended hgiven hinput =>
    simp only [readByte, hinput.current_eq]
    rw [hreaders, hgiven]
    exact hinput.readFrom_yields input.queue hended
  | @within ended later reader consumed _ hreaders hended hgiven hinput =>
    obtain ⟨rest, hdata, hcurrent⟩ := hinput.current_eq
    -- The reader gives a byte, fails, or has ended and makes way for the queue.
    obtain ⟨b, rest', after, rfl, htake, hafter, hcurrent', hqueue⟩ | ⟨rfl, hfails, htake⟩ |
      ⟨rfl, hend, htake⟩ := hinput.take_cases rest
    all_goals simp only [readByte, hcurrent, htake]
    · exact .byte hreaders hended hgiven ⟨hafter, ⟨rest', by simp [hdata], hcurrent'⟩,
        hqueue.trans hinput.queue_eq⟩
    · rw [List.append_nil] at hdata
      exact .failure hreaders hended hfails (hdata ▸ hgiven) (hdata ▸ hinput)
    · rw [List.append_nil] at hdata
      have hleft := (hdata ▸ hinput.toStandsIn : StandsIn ended reader.name reader.data _).finish []
      have hmore := hleft.readFrom_yields input.queue
        (hended.append (List.forall_mem_singleton.mpr hend))
      rw [hgiven, hreaders, ← hdata]
      simpa [hinput.queue_eq] using hmore

/-- A reader that fails is read again by the next call, and fails again. -/
theorem IsReading.readByte_of_failure (h : input.IsReading ended reader reader.data later)
    (hfails : reader.ending ≠ .endOfFile) : input.readByte = (.error reader.ending, input) := by
  obtain ⟨rest, hdata, hcurrent⟩ := h.current_eq
  obtain rfl : rest = [] := List.self_eq_append_right.mp hdata
  obtain ⟨_, _, _, hrest, -⟩ | ⟨-, -, htake⟩ | ⟨-, hend, -⟩ := h.take_cases []
  · cases hrest
  · rw [readByte, hcurrent]
    simp only [htake]
  · exact absurd hend hfails

/-! ### Any number of calls -/

variable {readers : List Reader} {given : Bytes} {n : Nat} {call : Except StreamFault UInt8 × Input}

/-- What has become of a queue of readers after a number of calls. -/
def afterReads (readers : List Reader) : Nat → Input
  | 0 => { queue := readers }
  | n + 1 => (afterReads readers n).readByte.2

/-- What a call finds is the next byte of the contents, or what is reported behind them. -/
theorem Yields.reply_eq (h : Yields readers ((contents readers).take n) call) :
    call.1 = ((contents readers)[n]?).elim (.error (outcome readers)) .ok := by
  generalize hgiven' : (contents readers).take n = given at h
  cases h with
  | @byte ended later reader consumed b _ hreaders hended hgiven hinput =>
    obtain ⟨rest, hdata, -⟩ := hinput.current_eq
    obtain ⟨more, hcontents⟩ : ∃ more, contents readers = given ++ b :: more := by
      rw [hreaders, hended.contents_append, contents, hdata, hgiven]
      simp only [List.append_assoc, List.singleton_append]
      exact ⟨_, rfl⟩
    -- There is a byte left, so as many have been given as there were calls.
    have hlength := congrArg List.length hgiven'
    rw [hcontents, List.length_take, List.length_append, List.length_cons] at hlength
    obtain rfl : n = given.length := by omega
    simp [hcontents]
  | @failure ended later reader _ hreaders hended hfails hgiven hinput =>
    have hall : (contents readers).take n = contents readers := by
      rw [hgiven', hgiven, hreaders, hended.contents_append, contents, if_neg hfails,
        List.append_nil]
    rw [List.getElem?_eq_none ((List.take_eq_self_iff _).mp hall), hreaders, hended.outcome_append,
      outcome, if_neg hfails]
    rfl
  | nothing hended hgiven hinput hqueue =>
    have hall : (contents readers).take n = contents readers := by
      rw [hgiven', hgiven, hended.contents_eq]
    rw [List.getElem?_eq_none ((List.take_eq_self_iff _).mp hall),
      outcome_eq_endOfFile_iff.mpr hended]
    rfl

/-- A call that yields a byte has given it. -/
theorem Yields.follows (h : Yields readers given call) :
    Follows readers (given ++ call.1.toOption.toList) call.2 := by
  cases h with
  | byte hreaders hended hgiven hinput =>
    exact .within hreaders hended (by rw [hgiven, List.append_assoc]; rfl) hinput
  | failure hreaders hended hfails hgiven hinput =>
    exact .within hreaders hended (by rw [hgiven]; exact List.append_nil _) hinput
  | nothing hended hgiven hinput hqueue =>
    exact .between (by rw [hqueue, List.append_nil]) hended
      (by rw [hgiven]; exact List.append_nil _) hinput

/-- After a number of calls, as many bytes of the contents have been given. -/
theorem follows_afterReads (readers : List Reader) (n : Nat) :
    Follows readers ((contents readers).take n) (afterReads readers n) := by
  induction n with
  | zero =>
    have hnone : EndPlainly [] := fun _ hmem => absurd hmem List.not_mem_nil
    exact .between rfl hnone rfl ⟨rfl, rfl, rfl⟩
  | succ n ih =>
    -- A call that finds no byte gives none, and the contents have none left to be taken.
    have hyields := ih.readByte_yields
    have hnext := hyields.follows
    rw [hyields.reply_eq] at hnext
    rw [afterReads, List.take_add_one]
    cases hbyte : (contents readers)[n]? with
    | none =>
      rw [hbyte] at hnext
      exact hnext
    | some b =>
      rw [hbyte] at hnext
      exact hnext

/-- The end of the file is what is found once no reader has failed and all bytes have been given. -/
theorem reply_eq_endOfFile_iff :
    ((contents readers)[n]?).elim (.error (outcome readers)) .ok =
        (.error .endOfFile : Except StreamFault UInt8) ↔
      EndPlainly readers ∧ (readers.flatMap (·.data)).length ≤ n := by
  cases hbyte : (contents readers)[n]? with
  | none =>
    have hlength := List.getElem?_eq_none_iff.mp hbyte
    rw [Option.elim_none, Except.error.injEq, outcome_eq_endOfFile_iff]
    exact ⟨fun hplain => ⟨hplain, hplain.contents_eq ▸ hlength⟩, fun h => h.1⟩
  | some b =>
    obtain ⟨hlength, -⟩ := List.getElem?_eq_some_iff.mp hbyte
    refine iff_of_false (fun h => by cases h) ?_
    rintro ⟨hplain, hle⟩
    rw [hplain.contents_eq] at hlength
    omega

/-- A queue of `readers` is read as one text, the `contents`. The call `n` of `readByte` gives the
byte at `n`, and then the input `IsReading` that byte's line, tells the line completed last, and has
closed the readers that have `ended`. The end of the file is reported when all readers have ended,
and from then on; any other `fault` of a reader is reported each time, and the input stays where it
is. -/
theorem readByte_afterReads (readers : List Reader) (n : Nat) :
    (afterReads readers n).readByte.1 =
      ((contents readers)[n]?).elim (.error (outcome readers)) .ok ∧
    ((afterReads readers n).readByte.1 = .error .endOfFile ↔
      EndPlainly readers ∧ (readers.flatMap (·.data)).length ≤ n) ∧
    (∀ b, (afterReads readers n).readByte.1 = .ok b → ∃ ended reader consumed later,
      readers = ended ++ reader :: later ∧ EndPlainly ended ∧ consumed ≠ [] ∧
      (contents readers).take (n + 1) = ended.flatMap (·.data) ++ consumed ∧
      (afterReads readers (n + 1)).IsReading ended reader consumed later) ∧
    ((afterReads readers n).readByte.1 = .error .endOfFile →
      (afterReads readers (n + 1)).HasLeft readers) ∧
    ∀ fault ≠ .endOfFile, (afterReads readers n).readByte.1 = .error fault →
      ∃ ended reader later, readers = ended ++ reader :: later ∧ EndPlainly ended ∧
        reader.ending = fault ∧
        (afterReads readers (n + 1)).IsReading ended reader reader.data later ∧
        (afterReads readers (n + 1)).readByte = (.error fault, afterReads readers (n + 1)) := by
  have hyields := (follows_afterReads readers n).readByte_yields
  have hreply := hyields.reply_eq
  generalize hcall : (afterReads readers n).readByte = call at hyields hreply
  have hafter : afterReads readers (n + 1) = call.2 := congrArg Prod.snd hcall
  refine ⟨hreply, hreply ▸ reply_eq_endOfFile_iff, ?_⟩
  rw [hafter]
  cases hyields with
  | @byte ended later reader consumed b _ hreaders hended hgiven hinput =>
    refine ⟨fun c _ => ⟨ended, reader, consumed ++ [b], later, hreaders, hended, by simp, ?_,
      hinput⟩, (fun h => by cases h), fun _ _ h => by cases h⟩
    -- The byte that was given is the one that the contents have at this place.
    have hbyte : (contents readers)[n]? = some b := by
      cases hbyte : (contents readers)[n]? with
      | none =>
        rw [hbyte] at hreply
        cases hreply
      | some c =>
        rw [hbyte] at hreply
        cases hreply
        rfl
    rw [List.take_add_one, hgiven, hbyte, List.append_assoc]
    rfl
  | nothing hended hgiven hinput hqueue =>
    refine ⟨(fun _ h => by cases h), fun _ => hinput, fun fault hne h => ?_⟩
    exact absurd (Except.error.inj h).symm hne
  | @failure ended later reader input hreaders hended hfails hgiven hinput =>
    refine ⟨(fun _ h => by cases h), (fun h => absurd (Except.error.inj h) hfails), ?_⟩
    rintro fault - ⟨⟩
    exact ⟨ended, reader, later, hreaders, hended, rfl, hinput, hinput.readByte_of_failure hfails⟩

/-- The end of a reader completes its second line, before the first byte of the next one is given.
-/
example :
    let first : Reader := { name := utf8 "a", data := utf8 "xy\nz" }
    let second : Reader := { name := utf8 "b", data := utf8 "q" }
    let last := (afterReads [first, second] 5).last
    last.name = utf8 "a" ∧ last.number = 2 ∧ last.text = utf8 "z" := by
  decide

end Input

end TapeMachine
