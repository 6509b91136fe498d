import FrameCode.Proofs.Program
import FrameCode.Proofs.Source.Statements
import FrameCode.Proofs.Text.Pieces
import FrameCode.Source.Load
import Mathlib.Data.List.TakeWhile

/-!
Writing a program undoes loading it. A loaded program is written with the words of its source text,
one instruction on a line; from these lines the same statements are found, and from the statements
the same instructions.
-/

namespace FrameCode.Source

open Text (IsSolid)

/-- A word that can stand in a source line: it has no white space and starts no comment. -/
def IsSourceWord (word : List Char) : Prop :=
  IsSolid word ∧ '#' ∉ word

theorem of_mem_lineWords {line word : List Char} (mem : word ∈ lineWords line) :
    IsSourceWord word := by
  obtain ⟨solid, inside⟩ := Text.of_mem_words mem
  refine ⟨solid, fun sign => ?_⟩
  have before := List.all_eq_true.mp List.all_takeWhile '#' (inside '#' sign)
  cases before

theorem isSourceWord_mnemonic (op : Opcode) : IsSourceWord op.mnemonic.toList := by
  have all : (Opcode.all.all fun op => !op.mnemonic.toList.isEmpty &&
      op.mnemonic.toList.all fun c => !Text.isWhite c && c != '#') = true := by
    decide +kernel
  have here := List.all_eq_true.mp all op op.mem_all
  simp only [Bool.and_eq_true, List.all_eq_true, Bool.not_eq_true', bne_iff_ne] at here
  obtain ⟨nonempty, inside⟩ := here
  refine ⟨⟨List.isEmpty_eq_false_iff.mp nonempty, fun c mem => (inside c mem).1⟩, ?_⟩
  exact fun sign => (inside '#' sign).2 rfl

def IsWritable (instr : Instruction) : Prop :=
  ∀ word ∈ instr.words, IsSourceWord word

theorem toList_text (instr : Instruction) : instr.text.toList = [' '].intercalate instr.words := by
  rw [Instruction.text, String.toList_intercalate, List.map_cons, List.map_map]
  rfl

namespace IsWritable

variable {instr : Instruction}

/-- All the characters of a written instruction are in its words or between them. -/
theorem of_mem_text (writable : IsWritable instr) {c : Char} (mem : c ∈ instr.text.toList) :
    c ≠ '#' ∧ (c = ' ' ∨ Text.isWhite c = false) := by
  rw [toList_text] at mem
  rcases Text.mem_intercalate mem with rfl | ⟨word, inWords, inWord⟩
  · exact ⟨by decide, .inl rfl⟩
  · obtain ⟨⟨-, solid⟩, plain⟩ := writable word inWords
    refine ⟨?_, .inr (solid c inWord)⟩
    rintro rfl
    exact plain inWord

theorem lineWords_text (writable : IsWritable instr) :
    lineWords instr.text.toList = instr.words := by
  have whole : instr.text.toList.takeWhile (· != '#') = instr.text.toList := by
    refine List.takeWhile_eq_self_iff.mpr fun c mem => ?_
    simpa using (writable.of_mem_text mem).1
  rw [lineWords, whole, toList_text]
  exact Text.words_intercalate fun word mem => (writable word mem).1

/-- A written instruction fits on a line. -/
theorem unbroken (writable : IsWritable instr) :
    instr.text.toList ≠ [] ∧ '\n' ∉ instr.text.toList ∧ '\r' ∉ instr.text.toList := by
  refine ⟨fun empty => ?_, fun mem => ?_, fun mem => ?_⟩
  · have words := writable.lineWords_text
    rw [empty] at words
    cases words
  · rcases (writable.of_mem_text mem).2 with eq | solid
    · cases eq
    · cases solid
  · rcases (writable.of_mem_text mem).2 with eq | solid
    · cases eq
    · cases solid

end IsWritable

/-! ### Statements and instructions -/

theorem words_of_mem_statementsFrom {line : Nat} {chars : List (List Char)} {statement : Statement}
    (mem : statement ∈ statementsFrom line chars) :
    ∀ word ∈ statement.words, IsSourceWord word := by
  induction chars generalizing line with
  | nil => cases mem
  | cons first rest ih =>
      rw [statementsFrom] at mem
      split at mem
      · exact ih mem
      · rcases List.mem_cons.mp mem with rfl | mem
        · exact fun word inLine => of_mem_lineWords inLine
        · exact ih mem

/-- Written instructions are statements with their words. -/
theorem statementsFrom_cons_text {instr : Instruction} (writable : IsWritable instr) (line : Nat)
    (rest : List (List Char)) :
    statementsFrom line (instr.text.toList :: rest) =
      ⟨line, instr.words⟩ :: statementsFrom (line + 1) rest := by
  rw [statementsFrom, writable.lineWords_text]
  rfl

/-- What is read from statements is numbered in their order, and so are its operands. -/
theorem instructionsFrom_numbered {order : Nat} {statements : List Statement}
    {instrs : List Instruction} (read : instructionsFrom order statements = .ok instrs) :
    instrs.map (·.order) = List.range' order instrs.length ∧ ∀ instr ∈ instrs, instr.Numbered := by
  induction statements generalizing order instrs with
  | nil =>
      cases read
      exact ⟨rfl, by simp⟩
  | cons statement rest ih =>
      obtain ⟨instr, made, tail⟩ := bind_eq_ok_iff.mp read
      obtain ⟨others, othersRead, eq⟩ := bind_eq_ok_iff.mp tail
      cases eq
      obtain ⟨-, -, ordered, numbered⟩ := toInstruction_words made
      obtain ⟨orders, numbereds⟩ := ih othersRead
      refine ⟨?_, List.forall_mem_cons.mpr ⟨numbered, numbereds⟩⟩
      rw [List.map_cons, ordered, orders, List.length_cons, List.range'_succ]

/-- What is read from statements is writable, and is read again from what is written. -/
theorem instructionsFrom_text {order : Nat} {statements : List Statement}
    {instrs : List Instruction} (read : instructionsFrom order statements = .ok instrs)
    (words : ∀ statement ∈ statements, ∀ word ∈ statement.words, IsSourceWord word) :
    (∀ instr ∈ instrs, IsWritable instr) ∧
      ∀ line, instructionsFrom order (statementsFrom line (instrs.map (·.text.toList))) =
        .ok instrs := by
  induction statements generalizing order instrs with
  | nil =>
      cases read
      exact ⟨by simp, fun line => rfl⟩
  | cons statement rest ih =>
      obtain ⟨wordsHere, wordsLater⟩ := List.forall_mem_cons.mp words
      obtain ⟨instr, made, tail⟩ := bind_eq_ok_iff.mp read
      obtain ⟨others, othersRead, eq⟩ := bind_eq_ok_iff.mp tail
      cases eq
      obtain ⟨again, kept, -, -⟩ := toInstruction_words made
      obtain ⟨writables, anyLine⟩ := ih othersRead wordsLater
      have writable : IsWritable instr := by
        refine List.forall_mem_cons.mpr ⟨isSourceWord_mnemonic instr.opcode, ?_⟩
        exact fun word mem => wordsHere word (kept word mem)
      refine ⟨List.forall_mem_cons.mpr ⟨writable, writables⟩, fun line => ?_⟩
      rw [List.map_cons, statementsFrom_cons_text writable]
      refine bind_eq_ok_iff.mpr ⟨instr, again line, ?_⟩
      exact bind_eq_ok_iff.mpr ⟨others, anyLine (line + 1), rfl⟩

/-! ### Programs -/

/-- Instructions that are read from statements make up a program as they stand. -/
theorem ofInstructions_of_read {statements : List Statement} {instrs : List Instruction}
    (read : instructionsFrom 1 statements = .ok instrs) :
    ∃ program, Program.ofInstructions instrs = .ok program ∧ program.toList = instrs := by
  obtain ⟨orders, numbered⟩ := instructionsFrom_numbered read
  refine Program.ofInstructions_of_ascending (fun instr mem => ?_) ?_ numbered
  · have counted : instr.order ∈ List.range' 1 instrs.length :=
      orders ▸ List.mem_map_of_mem mem
    exact (List.mem_range'_1.mp counted).1
  · have ascending : (instrs.map (·.order)).Pairwise (· < ·) := by
      rw [orders]
      exact List.pairwise_lt_range'
    exact List.pairwise_map.mp ascending

theorem body_eq_ok_iff {statements : List Statement} {instrs : List Instruction} :
    body statements = .ok instrs ↔
      ∃ first rest, statements = first :: rest ∧ first.recognize = .ok [.header] ∧
        instructionsFrom 1 rest = .ok instrs := by
  constructor
  · intro read
    cases statements with
    | nil => cases read
    | cons first rest =>
        obtain ⟨recognized, headed, tail⟩ := bind_eq_ok_iff.mp read
        split at tail
        · next isHeader => exact ⟨first, rest, rfl, isHeader ▸ headed, tail⟩
        · cases tail
  · rintro ⟨first, rest, rfl, headed, read⟩
    exact bind_eq_ok_iff.mpr ⟨_, headed, read⟩

/-- A text is loaded when its first statement is the header and the others make up the program. -/
theorem load_eq_ok_iff {text : String} {program : Program} :
    load text = .ok program ↔
      ∃ first rest, statementsFrom 1 (Text.lines text.toList) = first :: rest ∧
        first.recognize = .ok [.header] ∧ instructionsFrom 1 rest = .ok program.toList := by
  rw [← body_eq_ok_iff]
  constructor
  · intro loaded
    obtain ⟨instrs, read, made⟩ := bind_eq_ok_iff.mp loaded
    obtain ⟨_, _, _, _, instrsRead⟩ := body_eq_ok_iff.mp read
    obtain ⟨program', made', same⟩ := ofInstructions_of_read instrsRead
    rw [made'] at made
    cases made
    rw [same, read]
  · intro read
    refine bind_eq_ok_iff.mpr ⟨_, read, ?_⟩
    rw [Program.ofInstructions_toList]
    rfl

def renderedLines (program : Program) : List (List Char) :=
  header.toList :: program.toList.map (·.text.toList)

theorem toList_render (program : Program) :
    (render program).toList = ['\n'].intercalate (renderedLines program) := by
  rw [render, String.toList_intercalate, List.map_cons, List.map_map]
  rfl

theorem of_mem_renderedLines {program : Program}
    (writable : ∀ instr ∈ program.toList, IsWritable instr) {line : List Char}
    (mem : line ∈ renderedLines program) : line ≠ [] ∧ '\n' ∉ line ∧ '\r' ∉ line := by
  rcases List.mem_cons.mp mem with rfl | mem
  · decide
  · obtain ⟨instr, inProgram, rfl⟩ := List.mem_map.mp mem
    exact (writable instr inProgram).unbroken

/-- The header line is a statement of its own. -/
theorem statementsFrom_renderedLines (program : Program) :
    statementsFrom 1 (renderedLines program) =
      ⟨1, [header.toList]⟩ :: statementsFrom 2 (program.toList.map (·.text.toList)) := by
  have words : lineWords header.toList = [header.toList] := by decide
  rw [renderedLines, statementsFrom, words]

/-- Writing a program undoes loading it, with or without a line feed behind the last line. -/
theorem load_render {text : String} {program : Program} (loaded : load text = .ok program) :
    load (render program) = .ok program ∧ load (render program ++ "\n") = .ok program := by
  obtain ⟨first, rest, statements, -, read⟩ := load_eq_ok_iff.mp loaded
  have words : ∀ statement ∈ rest, ∀ word ∈ statement.words, IsSourceWord word := by
    intro statement mem
    have found : statement ∈ statementsFrom 1 (Text.lines text.toList) := by
      rw [statements]
      exact List.mem_cons_of_mem _ mem
    exact words_of_mem_statementsFrom found
  obtain ⟨writable, again⟩ := instructionsFrom_text read words
  have full : ∀ line ∈ renderedLines program, line ≠ [] ∧ '\n' ∉ line ∧ '\r' ∉ line :=
    fun line mem => of_mem_renderedLines writable mem
  have reload : ∀ written : String, Text.lines written.toList = renderedLines program →
      load written = .ok program := by
    intro written lines
    have headed : (⟨1, [header.toList]⟩ : Statement).recognize = .ok [.header] := rfl
    refine load_eq_ok_iff.mpr ⟨_, _, ?_, headed, again 2⟩
    rw [lines, statementsFrom_renderedLines]
  constructor
  · refine reload _ ?_
    rw [toList_render]
    exact Text.lines_intercalate full
  · refine reload _ ?_
    rw [String.toList_append, toList_render]
    exact Text.lines_intercalate_append (List.cons_ne_nil _ _) fun line mem => (full line mem).2

def untidy : String :=
  "\n .ippCODE22 # header\r\n\tWrite  string@a\\032b#c\n\nmove GF@x int@0x1F"

/-- Nothing of the untidiness is written back, while the literals keep their spelling. -/
theorem untidy_load_render :
    ∃ program, load untidy = .ok program ∧
      render program = ".IPPcode22\nWRITE string@a\\032b\nMOVE GF@x int@0x1F" ∧
        load (render program) = .ok program := by
  have written : (load untidy).map render =
      .ok ".IPPcode22\nWRITE string@a\\032b\nMOVE GF@x int@0x1F" := by
    decide +kernel
  cases loaded : load untidy with
  | error e =>
      rw [loaded] at written
      cases written
  | ok program =>
      rw [loaded] at written
      exact ⟨program, rfl, Except.ok.inj written, (load_render loaded).1⟩

end FrameCode.Source
