import FrameCode.Proofs.InputLocality
import FrameCode.Proofs.Numerals
import FrameCode.Proofs.SuccessEffects
import FrameCode.Proofs.Text.Utf8
import FrameCode.Text.Lines

/-!
Reading undoes writing. The text that a program writes for an integer or a truth value is read as
that value, and a string is read as it is, if it can be a line: a line feed would end it, and a
carriage return at its end would be taken for a part of the line end. In bytes this is the same
condition, because in UTF-8 a byte below 128 stands for a character of its own
(`toNat_eq_of_mem`).
-/

namespace FrameCode

open Text (Bytes)

/-! ### Values on a line -/

namespace Text

theorem isWhite_of_isDigit {c : Char} (digit : c.isDigit = true) : isWhite c = false := by
  have range : 48 ≤ c.toNat ∧ c.toNat ≤ 57 := by
    simpa [Char.isDigit, UInt32.le_iff_toNat_le] using digit
  simp only [isWhite, whiteRanges, List.any_cons, List.any_nil, Bool.or_false,
    Bool.or_eq_false_iff, Bool.and_eq_false_imp, decide_eq_true_eq, decide_eq_false_iff_not,
    Nat.not_le]
  omega

theorem trim_of_solid {text : List Char} (solid : ∀ c ∈ text, isWhite c = false) :
    trim text = text := by
  have self {chars : List Char} (solid : ∀ c ∈ chars, isWhite c = false) :
      chars.dropWhile isWhite = chars := by
    cases chars with
    | nil => rfl
    | cons c rest => exact List.dropWhile_cons_of_neg (by simp [solid c])
  rw [trim, self solid, self fun c mem => solid c (List.mem_reverse.mp mem), List.reverse_reverse]

variable {text : String}

theorem encode_append (front back : List Char) :
    encode (String.ofList (front ++ back)) =
      encode (String.ofList front) ++ encode (String.ofList back) := by
  simp [encode_eq_flatMap]

/-- A text without line feeds is encoded without them. -/
theorem lineFeed_notMem_encode (whole : '\n' ∉ text.toList) : Input.lineFeed ∉ encode text := by
  intro mem
  obtain ⟨c, inText, code⟩ := exists_mem_of_mem_encode (by decide) mem
  have feed : c = '\n' := Char.toNat_inj.mp code
  exact whole (feed ▸ inText)

/-- One carriage return is dropped from the end of a text or of its encoding alike. -/
theorem dropReturn_encode (text : String) :
    Input.dropReturn (encode text) = encode (String.ofList (dropReturn text.toList)) := by
  by_cases ends : text.toList.getLast? = some '\r'
  · obtain ⟨front, chars⟩ := List.getLast?_eq_some_iff.mp ends
    have whole : text = String.ofList (front ++ ['\r']) := by rw [← chars, String.ofList_toList]
    have last : encode (String.ofList ['\r']) = [Input.carriageReturn] := by decide
    rw [dropReturn, if_pos ends, chars, List.dropLast_concat, whole, encode_append, last,
      Input.dropReturn, List.getLast?_concat, if_pos rfl, List.dropLast_concat]
  · have ends' : (encode text).getLast? ≠ some Input.carriageReturn := by
      intro last
      obtain ⟨c, final, code⟩ := exists_getLast?_of_getLast?_encode (by decide) last
      have carriageReturn : c = '\r' := Char.toNat_inj.mp code
      exact ends (carriageReturn ▸ final)
    rw [Input.dropReturn, if_neg ends', dropReturn, if_neg ends, String.ofList_toList]

end Text

namespace Value

/-- The value is an integer, a truth value, or a string that can be a line of input. -/
def FitsLine : Value → Prop
  | .int _ | .bool _ => True
  | .string s => '\n' ∉ s.toList ∧ s.toList.getLast? ≠ some '\r'
  | .nil | .float _ => False

variable {value : Value}

theorem solid_toString (n : Int) : ∀ c ∈ (toString n).toList, Text.isWhite c = false := by
  have digits (k : Nat) : ∀ c ∈ Nat.toDigits 10 k, Text.isWhite c = false := by
    intro c mem
    exact Text.isWhite_of_isDigit (Nat.isDigit_of_mem_toDigits (by decide) (by decide) mem)
  rw [Numeral.toList_toString]
  split
  · exact digits _
  · exact List.forall_mem_cons.mpr ⟨by decide, digits _⟩

/-- A value that fits on a line is written without a line end. -/
theorem FitsLine.text (fits : value.FitsLine) :
    '\n' ∉ value.text.toList ∧ value.text.toList.getLast? ≠ some '\r' := by
  have solid (text : String) (h : ∀ c ∈ text.toList, Text.isWhite c = false) :
      '\n' ∉ text.toList ∧ text.toList.getLast? ≠ some '\r' := by
    constructor
    · intro mem
      cases h _ mem
    · intro last
      cases h _ (List.mem_of_getLast? last)
  cases value with
  | int n => exact solid _ (solid_toString n.toInt)
  | bool b => cases b <;> decide
  | string s => exact fits
  | nil => exact fits.elim
  | float x => exact fits.elim

/-- A value that fits on a line is read back from its text. -/
theorem FitsLine.ofInput_text (fits : value.FitsLine) : ofInput value.type value.text = value := by
  cases value with
  | int n =>
      have trimmed : Text.trim (toString n.toInt).toList = (toString n.toInt).toList :=
        Text.trim_of_solid (solid_toString n.toInt)
      change ((Numeral.int? (Text.trim (toString n.toInt).toList)).map int).getD nil = int n
      rw [trimmed, Numeral.int?_toString]
      rfl
  | bool b => cases b <;> decide
  | string s => rfl
  | nil => exact fits.elim
  | float x => exact fits.elim

end Value

/-! ### Reading and writing -/

namespace Sink

/-- A chunk that is taken is added whole. -/
theorem written_of_write {sink : Sink} {chunk : Bytes} (taken : (sink.write chunk).1 = .ok ()) :
    (sink.write chunk).2.written = sink.written ++ chunk := by
  unfold write at taken ⊢
  split
  · next empty => rw [List.isEmpty_iff.mp empty, List.append_nil]
  · next offered =>
    rw [if_neg offered] at taken
    split
    · exact Transcript.bytes_append _ _
    · next refusal refused =>
      rw [refused] at taken
      cases taken

end Sink

namespace Machine

variable {m : Machine} {value : Value} {bytes rest : Bytes} {var : Variable} {instr : Instruction}

/-- The bytes are what an instruction that writes the value adds to the output. -/
def Emits (value : Value) (bytes : Bytes) : Prop :=
  ∃ (m out : Machine) (instr : Instruction), instr.opcode = .write ∧
    m.source instr 1 = .ok value ∧ instr.perform m = out.succeed ∧
      out.output.written = m.output.written ++ bytes

/-- What is written for a value is the encoding of its text. -/
theorem Emits.eq_encode (emits : Emits value bytes) : bytes = Text.encode value.text := by
  obtain ⟨m, out, instr, opcode, source, performed, added⟩ := emits
  have action : instr.opcode.action = .write := Opcode.action_eq_write_iff.mpr opcode
  have emitted : instr.perform m = m.emit value.text := by
    unfold Instruction.perform
    rw [action, Action.perform, source, evaluate_ok]
  rw [emitted] at performed
  have result : ((m.output.write (Text.encode value.text)).1.mapError Fault.output) = .ok () :=
    congrArg Outcome.result performed
  have output : (m.output.write (Text.encode value.text)).2 = out.output :=
    congrArg (·.machine.output) performed
  have taken : (m.output.write (Text.encode value.text)).1 = .ok () := by
    cases written : (m.output.write (Text.encode value.text)).1 with
    | ok _ => rfl
    | error message =>
        rw [written] at result
        cases result
  have whole := Sink.written_of_write taken
  rw [output, added] at whole
  exact List.append_cancel_left whole

/-- A value that fits on a line is what the bytes of its text stand for. -/
theorem inputValue_encode (fits : value.FitsLine) :
    inputValue value.type (some (Text.encode value.text)) = .ok value := by
  have notNil : value.isNil = false := by
    cases value with
    | nil => exact fits.elim
    | _ => rfl
  simp only [inputValue, Option.bind_some, Text.decode?_encode, Option.map_some, fits.ofInput_text,
    Option.getD_some, notNil, Bool.false_eq_true, if_false, Value.expect, if_true]
  rfl

theorem lineFeed_notMem_encode (fits : value.FitsLine) :
    Input.lineFeed ∉ Text.encode value.text :=
  Text.lineFeed_notMem_encode fits.text.1

theorem dropReturn_encode (fits : value.FitsLine) :
    Input.dropReturn (Text.encode value.text) = Text.encode value.text := by
  rw [Text.dropReturn_encode, Text.dropReturn, if_neg fits.text.2, String.ofList_toList]

/-- The value of a line, or of its absence, is stored in a declared variable. -/
theorem readInto_of_line {input : Input} {type : DataType} {line : Option Bytes}
    (read : m.input.readLine = (.ok line, input))
    (valued : inputValue type line = .ok value) (target : instr.destination = .ok var)
    (declared : (m.frames.slot? var).isSome) :
    ∃ frames, m.frames.SetsSlot var (some value) frames ∧
      m.readInto instr type = { m with frames, input }.succeed := by
  cases stored : committed (m.frames.write var value) with
  | error fault =>
      have missing := (m.frames.write_ensures var value).error stored
      rw [missing] at declared
      cases declared
  | ok frames =>
      have written := committed_eq_ok_iff.mp stored
      refine ⟨frames, (Frames.setsSlot_of_write written).2, ?_⟩
      simp only [readInto, read, valued, evaluate_ok, assign, target, written]
      rfl

/-- Reading undoes writing. Where the bytes that are written for a value that fits on a line stand
in the input, with a line feed behind them, an instruction that reads a value of its type succeeds.
It gives the value to its variable and leaves the input behind the line feed, and nothing else of
the machine changes. -/
theorem read_undoes_write (fits : value.FitsLine) (emits : Emits value bytes)
    (opcode : instr.opcode = .read) (destination : instr.argument? 1 = some (.variable var))
    (type : instr.argument? 2 = some (.typeName value.type))
    (declared : (m.frames.slot? var).isSome)
    (pending : m.input.pending = bytes ++ Input.lineFeed :: rest) :
    ∃ frames, m.frames.SetsSlot var (some value) frames ∧
      instr.perform m =
        { m with frames, input := { m.input with pending := rest } }.succeed := by
  have action : instr.opcode.action = .read := Opcode.action_eq_read_iff.mpr opcode
  have inputType : instr.inputType = .ok value.type := by
    unfold Instruction.inputType
    rw [type]
    cases value with
    | nil => exact fits.elim
    | _ => rfl
  have target : instr.destination = .ok var := by
    unfold Instruction.destination
    rw [destination]
  have performed : instr.perform m = m.readInto instr value.type := by
    unfold Instruction.perform
    rw [action, Action.perform, inputType, evaluate_ok]
  have line := Input.readLine_of_line (lineFeed_notMem_encode fits) (emits.eq_encode ▸ pending)
  rw [dropReturn_encode fits] at line
  rw [performed]
  exact readInto_of_line line (inputValue_encode fits) target declared

/-- A machine that has declared a variable, with two lines of input that end in both ways. -/
def awaiting : Machine where
  program := { instructions := #[.of 1 .defVar [.variable ⟨.global, "s"⟩]] }
  frames := { global := Frame.set {} "s" none }
  input := { pending := [195, 169, 13, 33, 10, 50, 13, 10] }

/-- It reads a string with a carriage return inside and leaves the other line. -/
theorem awaiting_reads :
    Value.FitsLine (.string "é\r!") ∧ Emits (.string "é\r!") [195, 169, 13, 33] ∧
      ∃ frames, awaiting.frames.SetsSlot ⟨.global, "s"⟩ (some (.string "é\r!")) frames ∧
        (Instruction.of 2 .read [.variable ⟨.global, "s"⟩, .typeName .string]).perform awaiting =
          { awaiting with frames, input := { pending := [50, 13, 10] } }.succeed := by
  have fits : Value.FitsLine (.string "é\r!") := ⟨by decide, by decide⟩
  have emits : Emits (.string "é\r!") [195, 169, 13, 33] :=
    ⟨awaiting, { awaiting with output := (awaiting.output.write [195, 169, 13, 33]).2 },
      .of 3 .write [.literal "é\\013!" (.string "é\r!")], rfl, rfl, rfl, rfl⟩
  exact ⟨fits, emits, read_undoes_write fits emits rfl rfl rfl rfl rfl⟩

end Machine

end FrameCode
