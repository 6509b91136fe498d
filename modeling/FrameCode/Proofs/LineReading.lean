import FrameCode.Proofs.ReadBack
import FrameCode.Proofs.RunLoop
import FrameCode.Proofs.Text.Pieces
import Mathlib.Data.List.TakeWhile

/-!
Reading line by line loses nothing and adds nothing. Cut after each line feed, the input falls into
segments, which put together are the input again (`flatten_segments`). Each reading takes the first
segment that is left and returns it without its line end (`readLine_eq`), so repeated readings
return one segment after the other, and after the last one nothing for ever (`after_eq`). For an
input that is the encoding of a text these are the lines of the text (`map_content_segments`),
because a byte that ends a line is never a part of another character. A run that reads strings
therefore stores the lines in order (`reading_in_order`), whatever it does between the readings.
-/

namespace FrameCode

open Text (Bytes)

namespace Input

variable {input : Input} {line : Bytes}

/-! ### Segments -/

/-- The pieces that the bytes fall into when they are cut after each line feed. -/
def segments : Bytes → List Bytes
  | [] => []
  | byte :: rest =>
      if byte = lineFeed then [byte] :: segments rest
      else
        match segments rest with
        | [] => [[byte]]
        | first :: others => (byte :: first) :: others

/-- A segment without its line end: the line feed and one carriage return directly before it. -/
def content (segment : Bytes) : Bytes :=
  if [carriageReturn, lineFeed] <:+ segment then segment.dropLast.dropLast
  else if [lineFeed] <:+ segment then segment.dropLast
  else segment

/-- Bytes up to a line feed are a segment, together with it. -/
theorem segments_line (whole : lineFeed ∉ line) (rest : Bytes) :
    segments (line ++ lineFeed :: rest) = (line ++ [lineFeed]) :: segments rest := by
  induction line with
  | nil => simp [segments]
  | cons byte line ih =>
      have here : byte ≠ lineFeed := (List.ne_of_not_mem_cons whole).symm
      have later := ih (List.not_mem_of_not_mem_cons whole)
      simp only [List.cons_append, segments, later, if_neg here]

theorem segments_last (whole : lineFeed ∉ line) :
    segments line = if line.isEmpty then [] else [line] := by
  induction line with
  | nil => rfl
  | cons byte line ih =>
      have here : byte ≠ lineFeed := (List.ne_of_not_mem_cons whole).symm
      have later := ih (List.not_mem_of_not_mem_cons whole)
      cases line with
      | nil => simp [segments, here]
      | cons next line => rw [segments, if_neg here, later]; rfl

/-- No byte is lost. -/
theorem flatten_segments (bytes : Bytes) : (segments bytes).flatten = bytes := by
  induction bytes using Text.separated_induction lineFeed with
  | last line whole => cases line <;> simp [segments_last whole]
  | next line rest whole ih => simp [segments_line whole, ih]

/-- What is left when the first segment is taken away falls into the other segments. -/
theorem segments_tail (bytes : Bytes) :
    segments (segments bytes).tail.flatten = (segments bytes).tail := by
  induction bytes using Text.separated_induction lineFeed with
  | last line whole =>
      rw [segments_last whole]
      split <;> rfl
  | next line rest whole ih => rw [segments_line whole, List.tail_cons, flatten_segments]

/-- The content of a line lacks its line feed and one carriage return before it. -/
theorem content_line (line : Bytes) : content (line ++ [lineFeed]) = dropReturn line := by
  have feed : [lineFeed] <:+ line ++ [lineFeed] := List.suffix_append line [lineFeed]
  have both : [carriageReturn, lineFeed] <:+ line ++ [lineFeed] ↔
      line.getLast? = some carriageReturn := by
    rw [← List.singleton_suffix_iff_getLast?_eq_some, ← List.singleton_append,
      List.suffix_append_self_iff]
  simp only [content, dropReturn, both, feed, if_true, List.dropLast_concat]

theorem content_last (whole : lineFeed ∉ line) : content line = line := by
  have feed : ¬ [lineFeed] <:+ line := fun suffix => whole (suffix.subset (by simp))
  have both : ¬ [carriageReturn, lineFeed] <:+ line := fun suffix => whole (suffix.subset (by simp))
  rw [content, if_neg both, if_neg feed]

/-! ### Repeated reading -/

/-- At the end of the input a line needs no line feed. -/
theorem readLine_of_last (whole : lineFeed ∉ input.pending) (steady : input.failure = none) :
    input.readLine = (.ok (if input.pending.isEmpty then none else some input.pending),
      { input with pending := [] }) := by
  have all : input.pending.dropWhile (· != lineFeed) = [] := by
    rw [List.dropWhile_eq_nil_iff]
    intro byte mem
    exact bne_iff_ne.mpr fun eq => whole (eq ▸ mem)
  unfold readLine
  rw [all, steady]

/-- Reading takes the first segment, and returns it without its line end. -/
theorem readLine_eq (steady : input.failure = none) :
    input.readLine = (.ok ((segments input.pending).head?.map content),
      { input with pending := (segments input.pending).tail.flatten }) := by
  obtain ⟨bytes, failure⟩ := input
  induction bytes using Text.separated_induction lineFeed with
  | last line whole =>
      rw [readLine_of_last whole steady]
      cases line <;> simp [segments_last whole, content_last whole]
  | next line rest whole _ =>
      rw [readLine_of_line whole rfl, segments_line whole]
      simp [content_line, flatten_segments]

def after (input : Input) : Nat → Input
  | 0 => input
  | count + 1 => (input.after count).readLine.2

/-- Each reading leaves one segment less, and all of the others. -/
theorem after_eq (steady : input.failure = none) (count : Nat) :
    input.after count =
        { input with pending := ((segments input.pending).drop count).flatten } ∧
      segments (input.after count).pending = (segments input.pending).drop count := by
  induction count with
  | zero =>
      rw [after, List.drop_zero, flatten_segments]
      exact ⟨rfl, rfl⟩
  | succ count ih =>
      obtain ⟨eq, left⟩ := ih
      have failure : (input.after count).failure = none := by rw [eq, steady]
      have tail : (segments (input.after count).pending).tail =
          (segments input.pending).drop (count + 1) := by
        rw [left, List.tail_drop]
      rw [after, readLine_eq failure]
      constructor
      · rw [tail, eq]
      · rw [segments_tail, tail]

/-- The reading after so many others returns the segment with that number. -/
theorem readLine_after (steady : input.failure = none) (count : Nat) :
    (input.after count).readLine.1 = .ok ((segments input.pending)[count]?.map content) := by
  obtain ⟨eq, left⟩ := after_eq steady count
  have failure : (input.after count).failure = none := by rw [eq, steady]
  rw [readLine_eq failure, left, List.head?_drop]

end Input

/-! ### The lines of a text -/

namespace Text

theorem isEmpty_encode (text : List Char) :
    (encode (String.ofList text)).isEmpty = text.isEmpty := by
  rw [encode_eq_flatMap, String.toList_ofList]
  cases text with
  | nil => rfl
  | cons c rest => simp [String.utf8EncodeChar_ne_nil]

theorem encode_newline (rest : List Char) :
    encode (String.ofList ('\n' :: rest)) = Input.lineFeed :: encode (String.ofList rest) := by
  rw [encode_eq_flatMap, encode_eq_flatMap, String.toList_ofList, String.toList_ofList,
    List.flatMap_cons]
  rfl

/-- The segments of the encoding of a text are the encodings of its lines. -/
theorem map_content_segments (text : List Char) :
    (Input.segments (encode (String.ofList text))).map Input.content =
      (lines text).map fun line => encode (String.ofList line) := by
  induction text using separated_induction '\n' with
  | last line whole =>
      have whole' : Input.lineFeed ∉ encode (String.ofList line) :=
        lineFeed_notMem_encode (by rwa [String.toList_ofList])
      rw [Input.segments_last whole', lines_last whole, isEmpty_encode]
      split
      · rfl
      · rw [List.map_singleton, List.map_singleton, Input.content_last whole']
  | next line rest whole ih =>
      have whole' : Input.lineFeed ∉ encode (String.ofList line) :=
        lineFeed_notMem_encode (by rwa [String.toList_ofList])
      rw [encode_append, encode_newline, Input.segments_line whole', lines_line whole,
        List.map_cons, List.map_cons, ih, Input.content_line, dropReturn_encode,
        String.toList_ofList]

end Text

namespace Machine

variable {m x : Machine} {n : Nat} {var : Variable}

/-! ### Readings in a run -/

/-- How many of the first `n` steps of the run of `m` read a line. -/
def linesRead (m : Machine) (n : Nat) : Nat :=
  (List.range n).countP fun k => m.opcodeAt? k = some .read

/-- The value that a reading of a string gives after so many lines of a text: the next line, or nil
when there is none. -/
def lineValue (text : String) (count : Nat) : Value :=
  ((Text.lines text.toList)[count]?.map fun line => .string (String.ofList line)).getD .nil

theorem linesRead_succ (m : Machine) (n : Nat) :
    m.linesRead (n + 1) = m.linesRead n + if m.opcodeAt? n = some .read then 1 else 0 := by
  simp [linesRead, List.range_succ, List.countP_append, List.countP_singleton]

/-- A step takes a line from the input if it reads, and nothing otherwise. -/
theorem input_of_advance? {y : Machine} {index : Nat} {instr : Instruction}
    (pc : x.pc = some index) (found : x.program.get? index = some instr)
    (advance : x.advance? = some y) :
    y.input = if instr.opcode = .read then x.input.readLine.2 else x.input := by
  have step := step_of_advance? pc advance
  have channel : y.input = (x.step index).machine.input := by
    rw [step]
    rfl
  rw [channel]
  split
  · next opcode =>
    cases asks : instr.inputType with
    | ok type => exact input_of_step_read found opcode asks
    | error fault =>
        -- it would fail before it reads
        obtain ⟨out, performed, -⟩ := (step_eq_succeed_iff found).mp step
        simp only [Instruction.perform, opcode, Opcode.action, Action.perform, asks,
          evaluate_error] at performed
        cases performed
  · next opcode => rw [(step_channels found).1, Instruction.perform_input rfl opcode]; rfl

/-- A run has taken as many lines as it has executed readings. -/
theorem input_of_stateAt? (reached : m.stateAt? n = some x) :
    x.input = m.input.after (m.linesRead n) := by
  induction n generalizing x with
  | zero =>
      obtain ⟨-, rfl⟩ := stateAt?_zero_iff.mp reached
      rfl
  | succ n ih =>
      obtain ⟨before, reachedBefore, advance⟩ := stateAt?_succ_iff.mp reached
      obtain ⟨index, pc, -⟩ := advance?_eq_some_iff.mp advance
      obtain ⟨instr, found⟩ := Program.get?_of_lt_size (pc_lt_of_stateAt? reachedBefore pc)
      have program := (setting_of_stateAt? reachedBefore).1
      have opcode : m.opcodeAt? n = some instr.opcode := by
        simp [opcodeAt?, reachedBefore, pc, found]
      rw [input_of_advance? pc (program ▸ found) advance, ih reachedBefore, linesRead_succ, opcode]
      by_cases reads : instr.opcode = .read
      · simp only [reads, if_true]
        rfl
      · simp only [reads, Option.some.injEq, if_false]
        rfl

theorem inputValue_line (text : String) (count : Nat) :
    inputValue .string ((Input.segments (Text.encode text))[count]?.map Input.content) =
      .ok (lineValue text count) := by
  have line : (Input.segments (Text.encode text))[count]?.map Input.content =
      (Text.lines text.toList)[count]?.map fun line => Text.encode (String.ofList line) := by
    rw [← List.getElem?_map, ← List.getElem?_map, ← Text.map_content_segments, String.ofList_toList]
  rw [line, lineValue]
  cases (Text.lines text.toList)[count]? with
  | none => rfl
  | some chars =>
      simp only [inputValue, Option.map_some, Option.bind_some, Text.decode?_encode,
        Option.getD_some]
      rfl

/-- In the state `x` the step number `n` of the run of `m` is to read a string into a variable that
is declared. -/
def AsksForLine (m : Machine) (n : Nat) (x : Machine) (var : Variable) : Prop :=
  m.stateAt? n = some x ∧ (x.frames.slot? var).isSome ∧
    ∃ index instr, x.pc = some index ∧ m.program.get? index = some instr ∧
      instr.opcode = .read ∧ instr.argument? 1 = some (.variable var) ∧
        instr.argument? 2 = some (.typeName .string)

/-- A reading stores the line that comes next. -/
theorem stored_of_asksForLine {text : String} (given : m.input = ⟨Text.encode text, none⟩)
    (asks : m.AsksForLine n x var) :
    ∃ y, m.stateAt? (n + 1) = some y ∧
      x.frames.SetsSlot var (some (lineValue text (m.linesRead n))) y.frames := by
  obtain ⟨reached, declared, index, instr, pc, found, opcode, destination, type⟩ := asks
  have found' : x.program.get? index = some instr := (setting_of_stateAt? reached).1 ▸ found
  have target : instr.destination = .ok var := by
    unfold Instruction.destination
    rw [destination]
  have performed : instr.perform (x.poised index) = (x.poised index).readInto instr .string := by
    have inputType : instr.inputType = .ok .string := by
      unfold Instruction.inputType
      rw [type]
    simp only [Instruction.perform, opcode, Opcode.action, Action.perform, inputType, evaluate_ok]
  have read : (x.poised index).input.readLine =
      (.ok ((Input.segments (Text.encode text))[m.linesRead n]?.map Input.content),
        (x.poised index).input.readLine.2) := by
    have line := @Input.readLine_after m.input (by rw [given]) (m.linesRead n)
    rw [← input_of_stateAt? reached, given] at line
    exact Prod.ext line rfl
  obtain ⟨frames, sets, stored⟩ :=
    readInto_of_line read (inputValue_line text (m.linesRead n)) target declared
  rw [← performed] at stored
  have step := (step_eq_succeed_iff found').mpr ⟨_, stored, rfl⟩
  refine ⟨_, stateAt?_succ_iff.mpr ⟨x, reached, advance?_eq_some_iff.mpr ⟨index, pc, step⟩⟩, sets⟩

/-- Reading loses and invents nothing. From bytes that do not break off, each reading returns the
next segment without its line end, and nothing once they are used up; what it has consumed until
then are the segments returned, line ends included. If the bytes encode a text, a run that reads
strings stores the lines of that text, each reading the next line, and then nil. -/
theorem reading_in_order (bytes : Bytes) :
    (∀ count, (Input.after ⟨bytes, none⟩ count).readLine.1 =
          .ok ((Input.segments bytes)[count]?.map Input.content) ∧
        bytes = ((Input.segments bytes).take count).flatten ++
          (Input.after ⟨bytes, none⟩ count).pending) ∧
      ∀ (text : String) (m : Machine), bytes = Text.encode text → m.input = ⟨bytes, none⟩ →
        ∀ n x var, m.AsksForLine n x var →
          ∃ y, m.stateAt? (n + 1) = some y ∧
            x.frames.SetsSlot var (some (lineValue text (m.linesRead n))) y.frames := by
  constructor
  · intro count
    refine ⟨Input.readLine_after rfl count, ?_⟩
    rw [(Input.after_eq rfl count).1, ← List.flatten_append, List.take_append_drop,
      Input.flatten_segments]
  · rintro text m rfl given n x var asks
    exact stored_of_asksForLine given asks

/-- A program that reads strings into one variable for ever. Of its three lines the first one ends
with a carriage return and a line feed, the second one is empty, and the last one is not ended. -/
def readsForever : Machine where
  program :=
    { instructions := #[.of 1 .defVar [.variable ⟨.global, "x"⟩], .of 2 .label [.label "next"],
        .of 3 .read [.variable ⟨.global, "x"⟩, .typeName .string],
        .of 4 .jump [.label "next"]] }
  input := ⟨Text.encode "é\r\n\n\rz\r", none⟩

/-- The third reading keeps the carriage returns of the last line, and the fourth one gives nil. -/
theorem readsForever_reads :
    (∃ x y, readsForever.AsksForLine 6 x ⟨.global, "x"⟩ ∧ readsForever.stateAt? 7 = some y ∧
        x.frames.SetsSlot ⟨.global, "x"⟩ (some (.string "\rz\r")) y.frames) ∧
      ∃ x y, readsForever.AsksForLine 8 x ⟨.global, "x"⟩ ∧ readsForever.stateAt? 9 = some y ∧
        x.frames.SetsSlot ⟨.global, "x"⟩ (some .nil) y.frames := by
  have stored := (reading_in_order readsForever.input.pending).2 "é\r\n\n\rz\r" readsForever rfl rfl
  have asks (n : Nat) (late : n = 6 ∨ n = 8) :
      ∃ x, readsForever.AsksForLine n x ⟨.global, "x"⟩ := by
    rcases late with rfl | rfl
    · exact ⟨_, rfl, rfl, 2, _, rfl, rfl, rfl, rfl, rfl⟩
    · exact ⟨_, rfl, rfl, 2, _, rfl, rfl, rfl, rfl, rfl⟩
  constructor
  · obtain ⟨x, third⟩ := asks 6 (.inl rfl)
    obtain ⟨y, next, sets⟩ := stored 6 x _ third
    exact ⟨x, y, third, next, sets⟩
  · obtain ⟨x, fourth⟩ := asks 8 (.inr rfl)
    obtain ⟨y, next, sets⟩ := stored 8 x _ fourth
    exact ⟨x, y, fourth, next, sets⟩

end Machine

end FrameCode
