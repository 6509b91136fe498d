import FrameCode.Proofs.Check.Exactness
import FrameCode.Proofs.Source.RoundTrip

/-!
What is known of a program because it was loaded. The signature of an opcode is read twice: loading
takes words by it, and the static check compares arguments with it. Whatever the one takes the other
accepts (`accepts_of_argument?`), so a loaded instruction has the operands that it should have. With
the order numbers and positions that loading gives out, instructions always make up a program, and
what the static check can still find is wrong between instructions: labels and global variables.
-/

namespace FrameCode

/-! ### The static check of well-formed instructions -/

namespace Check

/-- The findings on labels and variables, as opposed to those on the operands of an instruction. -/
def Finding.isOnNames : Finding → Bool
  | .labelRedefinition _ _ | .undefinedLabel _ _ | .variableRedefinition _ _ => true
  | .arityMismatch _ _ _ _ | .incompatibleOperand _ _ _ _ _ => false

theorem isOnNames_of_repetition? {earlier : List Instruction} {instr : Instruction}
    {finding : Finding} (found : repetition? earlier instr = some finding) :
    finding.isOnNames = true := by
  unfold repetition? at found
  split at found
  · split at found
    · cases found
      rfl
    · cases found
  · split at found
    · cases found
      rfl
    · cases found
  · cases found

theorem isOnNames_of_undefinedTarget? {instrs : List Instruction} {instr : Instruction}
    {finding : Finding} (found : undefinedTarget? instrs instr = some finding) :
    finding.isOnNames = true := by
  unfold undefinedTarget? at found
  split at found
  · split at found
    · split at found
      · cases found
      · cases found
        rfl
    · cases found
  · cases found

/-- Where every instruction has the right operands, all findings are on names. -/
theorem isOnNames_of_accepted {program : Program}
    (accepted : ∀ instr ∈ program.toList, signatureFindings instr = []) {finding : Finding}
    (found : finding ∈ findings program) : finding.isOnNames = true := by
  rw [findings, (visitAll_program program).1, targetFindings_program, List.mem_append] at found
  rcases found with onInstruction | onTarget
  · obtain ⟨⟨instr, index⟩, at_index, here⟩ := List.mem_flatMap.mp onInstruction
    have mem : instr ∈ program.toList := List.fst_mem_of_mem_zipIdx at_index
    have wellFormed := (signatureFindings_eq_nil_iff (program.numbered instr mem)).mp
      (accepted instr mem)
    change finding ∈ findingsOn (program.toList.take index) instr at here
    rw [findingsOn_of_wellFormed wellFormed, Option.mem_toList] at here
    exact isOnNames_of_repetition? here
  · obtain ⟨instr, -, here⟩ := List.mem_filterMap.mp onTarget
    exact isOnNames_of_undefinedTarget? here

end Check

namespace Source

/-! ### Operands -/

/-- A literal that is read is accepted as one of its type. -/
theorem accepts_of_literal? {type : DataType} {content : List Char} {argument : Argument}
    (read : literal? type content = some argument) :
    OperandKind.symb.accepts argument = true ∧
      (OperandKind.literal type).accepts argument = true := by
  obtain ⟨value, valued, rfl⟩ := Option.map_eq_some_iff.mp read
  exact ⟨rfl, beq_iff_eq.mpr (Value.type_of_ofLiteral? valued)⟩

/-- A word is taken only as an argument of the kind that is asked for. -/
theorem accepts_of_argument? {kind : OperandKind} {word : Word} {argument : Argument}
    (taken : argument? kind word = some argument) : kind.accepts argument = true := by
  unfold argument? at taken
  split at taken
  · cases taken
    rfl
  · cases taken
    rfl
  · exact (accepts_of_literal? taken).1
  · split at taken
    · next same =>
      subst same
      exact (accepts_of_literal? taken).2
    · cases taken
  · split at taken
    · cases taken
      rfl
    · cases taken
  · obtain ⟨type, -, rfl⟩ := Option.map_eq_some_iff.mp taken
    rfl
  · cases taken

/-- Operands match the kinds that they were taken for, one by one. -/
theorem accepts_of_operands {line position : Nat} {kinds : List OperandKind} {words : List Word}
    {taken : List Operand} (ok : operands line position kinds words = .ok taken)
    (length : words.length = kinds.length) :
    taken.length = kinds.length ∧
      ∀ entry ∈ taken.zip kinds, entry.2.accepts entry.1.argument = true := by
  induction kinds generalizing position words taken with
  | nil =>
      cases List.eq_nil_of_length_eq_zero length
      cases ok
      simp
  | cons kind kinds ih =>
      cases words with
      | nil => cases length
      | cons word words =>
          rw [operands] at ok
          split at ok
          · cases ok
          · next argument argued =>
            obtain ⟨rest, restOk, eq⟩ := bind_eq_ok_iff.mp ok
            cases eq
            obtain ⟨count, accepted⟩ := ih restOk (Nat.succ.inj length)
            refine ⟨congrArg Nat.succ count, ?_⟩
            rw [List.zip_cons_cons]
            exact List.forall_mem_cons.mpr ⟨accepts_of_argument? argued, accepted⟩

/-- The static check has nothing to say on the operands of an instruction that was read. -/
theorem signatureFindings_of_toInstruction {statement : Statement} {order : Nat}
    {instr : Instruction} (made : statement.toInstruction order = .ok instr) :
    Check.signatureFindings instr = [] := by
  obtain ⟨words, -, ok⟩ := bind_eq_ok_iff.mp made
  obtain ⟨first, rest, -, -, length, -, taken⟩ := instruction_eq_ok_iff.mp ok
  obtain ⟨count, accepted⟩ := accepts_of_operands taken length
  have arity : instr.operands.length = instr.opcode.arity := count
  rw [Check.signatureFindings, if_pos arity, List.filterMap_eq_nil_iff]
  exact fun entry mem => if_pos (accepted entry mem)

/-! ### Errors -/

def Error.line? : Error → Option Nat
  | .missingHeader line => some line
  | .unknownOpcode line _ => some line
  | .invalidOperand line _ => some line
  | .operandCount line _ _ _ => some line
  | .program _ => none

def FailsInLine {α : Type} (x : Except Error α) : Prop :=
  Ensures (fun _ => True) (fun e => e.line?.isSome = true) x

theorem FailsInLine.bind {α β : Type} {x : Except Error α} {next : α → Except Error β}
    (first : FailsInLine x) (rest : ∀ a, FailsInLine (next a)) : FailsInLine (x >>= next) :=
  Ensures.bind first fun a _ => rest a

def RefusesWord {α : Type} (line : Nat) (x : Except Error α) : Prop :=
  Ensures (fun _ => True) (fun e => ∃ word, e = .invalidOperand line word) x

/-- Recognizing fails for a word of the line. -/
theorem recognize_refusesWord (statement : Statement) :
    RefusesWord statement.line statement.recognize := by
  obtain ⟨line, words⟩ := statement
  induction words with
  | nil => exact True.intro
  | cons first rest ih =>
      cases recognized : Word.ofChars? first with
      | none =>
          rw [recognize_cons_of_none recognized]
          exact ⟨_, rfl⟩
      | some word =>
          rw [recognize_cons_of_some recognized]
          exact .map ih

/-- Operands are refused for a word of the line. -/
theorem operands_refusesWord (line position : Nat) (kinds : List OperandKind)
    (words : List Word) : RefusesWord line (operands line position kinds words) := by
  fun_induction operands line position kinds words with
  | case1 position kind kinds word words refused => exact ⟨_, rfl⟩
  | case2 position kind kinds word words argument taken ih =>
      exact Ensures.bind ih fun _ _ => True.intro
  | case3 => exact True.intro

theorem RefusesWord.failsInLine {α : Type} {line : Nat} {x : Except Error α}
    (refuses : RefusesWord line x) : FailsInLine x := by
  refine Ensures.mono refuses (fun _ done => done) ?_
  rintro _ ⟨word, rfl⟩
  rfl

theorem recognize_failsInLine (statement : Statement) : FailsInLine statement.recognize :=
  (recognize_refusesWord statement).failsInLine

theorem operands_failsInLine (line position : Nat) (kinds : List OperandKind)
    (words : List Word) : FailsInLine (operands line position kinds words) :=
  (operands_refusesWord line position kinds words).failsInLine

/-- Whatever is wrong with an instruction is in its line. -/
theorem instruction_failsInLine (line order : Nat) (words : List Word) :
    FailsInLine (instruction line order words) := by
  unfold instruction
  split
  · exact rfl
  · split
    · exact rfl
    · split
      · exact (operands_failsInLine _ _ _ _).bind fun _ => True.intro
      · exact rfl

theorem instructionsFrom_failsInLine (order : Nat) (statements : List Statement) :
    FailsInLine (instructionsFrom order statements) := by
  induction statements generalizing order with
  | nil => exact True.intro
  | cons statement rest ih =>
      refine FailsInLine.bind ?_ fun instr => (ih (order + 1)).bind fun _ => True.intro
      exact (recognize_failsInLine statement).bind fun words => instruction_failsInLine _ _ words

theorem body_failsInLine (statements : List Statement) : FailsInLine (body statements) := by
  cases statements with
  | nil => exact rfl
  | cons first rest =>
      refine (recognize_failsInLine first).bind fun words => ?_
      split
      · exact instructionsFrom_failsInLine 1 rest
      · exact rfl

/-- Loading fails for what stands in some line, never for the program as a whole. -/
theorem load_failsInLine (text : String) : FailsInLine (load text) := by
  have lines := body_failsInLine (statementsFrom 1 (Text.lines text.toList))
  unfold load
  cases read : body (statementsFrom 1 (Text.lines text.toList)) with
  | error e => exact lines.error read
  | ok instrs =>
      obtain ⟨_, _, _, _, instrsRead⟩ := body_eq_ok_iff.mp read
      obtain ⟨program, made, -⟩ := ofInstructions_of_read instrsRead
      change FailsInLine ((Program.ofInstructions instrs).mapError Error.program)
      rw [made]
      exact True.intro

/-! ### Instructions and their lines -/

/-- Each statement gives one instruction, with the order number that its place has. -/
theorem toInstruction_of_instructionsFrom {order : Nat} {statements : List Statement}
    {instrs : List Instruction} (read : instructionsFrom order statements = .ok instrs) :
    instrs.length = statements.length ∧ ∀ k instr, instrs[k]? = some instr →
      ∃ statement : Statement, statements[k]? = some statement ∧
        statement.toInstruction (order + k) = .ok instr := by
  induction statements generalizing order instrs with
  | nil =>
      cases read
      simp
  | cons statement rest ih =>
      obtain ⟨first, made, tail⟩ := bind_eq_ok_iff.mp read
      obtain ⟨others, othersRead, eq⟩ := bind_eq_ok_iff.mp tail
      cases eq
      obtain ⟨count, later⟩ := ih othersRead
      refine ⟨congrArg Nat.succ count, fun k instr at_k => ?_⟩
      cases k with
      | zero =>
          cases at_k
          exact ⟨statement, rfl, made⟩
      | succ k =>
          obtain ⟨other, at_other, makes⟩ := later k instr at_k
          exact ⟨other, at_other, by rwa [Nat.add_assoc, Nat.add_comm 1 k] at makes⟩

/-- The lines of a text with words on them, behind the header. -/
def instructionLines (text : String) : List Statement :=
  (statementsFrom 1 (Text.lines text.toList)).tail

/-- What a program is that has been loaded from a text. -/
structure LoadedFrom (text : String) (program : Program) : Prop where
  /-- The order numbers count from one. -/
  orders : program.toList.map (·.order) = List.range' 1 program.size
  /-- There are as many instructions as there are lines with instructions. -/
  size : program.size = (instructionLines text).length
  /-- The instructions stand in the order of their lines. -/
  lines : ∀ k instr, program.get? k = some instr →
    ∃ statement, (instructionLines text)[k]? = some statement ∧
      statement.toInstruction (k + 1) = .ok instr
  /-- Order numbers of not too many lines fit into a word of 32 bits. -/
  fits : (instructionLines text).length < UInt32.size - 1 →
    ∀ instr ∈ program.toList, instr.order < UInt32.size
  numbered : ∀ instr ∈ program.toList, instr.Numbered
  /-- The static check has nothing to say on the operands. -/
  accepted : ∀ instr ∈ program.toList, Check.signatureFindings instr = []
  /-- So what it finds is on labels and global variables. -/
  findings : ∀ finding ∈ Check.findings program, finding.isOnNames = true

/-- Loaded programs are structurally sound: loading never fails for the program as a whole, and a
loaded program has its instructions in the order of the lines, counted from one, each with operands
that the static check accepts. -/
theorem load_sound (text : String) :
    (∀ cause, load text ≠ .error (.program cause)) ∧
      ∀ program, load text = .ok program → LoadedFrom text program := by
  constructor
  · intro cause failed
    cases (load_failsInLine text).error failed
  · intro program loaded
    obtain ⟨header, rest, statements, -, read⟩ := load_eq_ok_iff.mp loaded
    have lines : instructionLines text = rest := by
      rw [instructionLines, statements, List.tail_cons]
    obtain ⟨orders, numbered⟩ := instructionsFrom_numbered read
    obtain ⟨count, made⟩ := toInstruction_of_instructionsFrom read
    have accepted : ∀ instr ∈ program.toList, Check.signatureFindings instr = [] := by
      intro instr mem
      obtain ⟨k, at_k⟩ := List.getElem?_of_mem mem
      obtain ⟨statement, -, makes⟩ := made k instr at_k
      exact signatureFindings_of_toInstruction makes
    refine ⟨orders, ?_, ?_, ?_, numbered, accepted, ?_⟩
    · rw [lines, ← count]
      rfl
    · intro k instr found
      rw [← Program.getElem?_toList] at found
      rw [lines, Nat.add_comm k 1]
      exact made k instr found
    · intro few instr mem
      have counted : instr.order ∈ List.range' 1 program.toList.length :=
        orders ▸ List.mem_map_of_mem mem
      have bound := (List.mem_range'_1.mp counted).2
      rw [lines, ← count] at few
      omega
    · exact fun finding found => Check.isOnNames_of_accepted accepted found

/-- A source text that repeats a label and a variable and jumps to a label that is not there. -/
def repetitive : String :=
  ".IPPcode22\nLABEL a # once\n\nlabel a\nDEFVAR GF@x\nDEFVAR GF@x\nJUMPIFEQ b GF@x int@1"

/-- It is loaded nonetheless, and the static check has three findings, all on names. -/
theorem repetitive_loaded :
    ∃ program, load repetitive = .ok program ∧ (Check.findings program).length = 3 ∧
      LoadedFrom repetitive program := by
  have checked :
      (load repetitive).map (fun program => (Check.findings program).length) = .ok 3 := by
    decide +kernel
  cases loaded : load repetitive with
  | error e =>
      rw [loaded] at checked
      cases checked
  | ok program =>
      rw [loaded] at checked
      exact ⟨program, rfl, Except.ok.inj checked, (load_sound repetitive).2 program loaded⟩

end Source

end FrameCode
