import FrameCode.Proofs.Source.LoadedPrograms
import FrameCode.Proofs.Source.Loading

/-!
Statements that stand elsewhere. Line numbers count all lines and order numbers only those with an
instruction, and both depend on what comes before. Apart from these numbers a statement is read in
the same way wherever it stands (`toInstruction_moved`). A consequence is that an error names the
line of the statement that it is met in (`line?_of_body`): it moves with that line.
-/

namespace FrameCode

def Instruction.shifted (offset : Nat) (instr : Instruction) : Instruction :=
  { instr with order := offset + instr.order }

namespace Source

/-! ### Moving a statement -/

def Error.moved (place : Nat → Nat) : Error → Error
  | .missingHeader line => .missingHeader (place line)
  | .unknownOpcode line word => .unknownOpcode (place line) word
  | .invalidOperand line word => .invalidOperand (place line) word
  | .operandCount line opcode expected found => .operandCount (place line) opcode expected found
  | .program cause => .program cause

def Error.atLine (line : Nat) (e : Error) : Error :=
  e.moved fun _ => line

def Statement.moved (place : Nat → Nat) (statement : Statement) : Statement :=
  { statement with line := place statement.line }

def relocate {α β : Type} (place : Nat → Nat) (f : α → β) : Except Error α → Except Error β
  | .ok a => .ok (f a)
  | .error e => .error (e.moved place)

section Moved

variable {α β γ δ : Type} (place : Nat → Nat)

theorem relocate_bind {place : Nat → Nat} {f : α → γ} {g : β → δ} {x : Except Error α}
    {next : α → Except Error β} {next' : γ → Except Error δ}
    (rest : ∀ a, next' (f a) = relocate place g (next a)) :
    relocate place f x >>= next' = relocate place g (x >>= next) := by
  cases x with
  | ok a => exact rest a
  | error e => rfl

/-- Recognizing words does not depend on the line. -/
theorem recognize_moved (statement : Statement) :
    (statement.moved place).recognize = relocate place id statement.recognize := by
  obtain ⟨line, words⟩ := statement
  induction words with
  | nil => rfl
  | cons first rest ih =>
      change (⟨place line, first :: rest⟩ : Statement).recognize = _
      cases recognized : Word.ofChars? first with
      | none =>
          rw [recognize_cons_of_none recognized, recognize_cons_of_none recognized]
          rfl
      | some word =>
          change (⟨place line, rest⟩ : Statement).recognize = _ at ih
          rw [recognize_cons_of_some recognized, recognize_cons_of_some recognized, ih]
          cases (⟨line, rest⟩ : Statement).recognize with
          | ok words => rfl
          | error e => rfl

theorem operands_moved (line position : Nat) (kinds : List OperandKind) (words : List Word) :
    operands (place line) position kinds words =
      relocate place id (operands line position kinds words) := by
  fun_induction operands line position kinds words with
  | case1 position kind kinds word words refused =>
      rw [operands, refused]
      rfl
  | case2 position kind kinds word words argument taken ih =>
      rw [operands, taken]
      simp only [ih]
      exact relocate_bind fun _ => rfl
  | case3 position kinds words short =>
      rw [operands]
      · rfl
      · exact short

/-- The instruction of a moved line comes later by as much, and its errors name the new line. -/
theorem instruction_moved (line offset order : Nat) (words : List Word) :
    instruction (place line) (offset + order) words =
      relocate place (Instruction.shifted offset) (instruction line order words) := by
  cases words with
  | nil => rfl
  | cons first words =>
      rw [instruction, instruction]
      cases opcode? first with
      | none => rfl
      | some opcode =>
          dsimp only
          split
          · rw [operands_moved]
            exact relocate_bind fun _ => rfl
          · rfl

/-- A statement that stands in another line, behind more instructions, is read in the same way. -/
theorem toInstruction_moved (statement : Statement) (offset order : Nat) :
    (statement.moved place).toInstruction (offset + order) =
      relocate place (Instruction.shifted offset) (statement.toInstruction order) := by
  unfold Statement.toInstruction
  rw [recognize_moved]
  exact relocate_bind fun words => instruction_moved place statement.line offset order words

/-- Moved lines give the same instructions, shifted, or the same error, moved. -/
theorem instructionsFrom_moved (offset order : Nat) (statements : List Statement) :
    instructionsFrom (offset + order) (statements.map (·.moved place)) =
      relocate place (·.map (Instruction.shifted offset)) (instructionsFrom order statements) := by
  induction statements generalizing order with
  | nil => rfl
  | cons statement rest ih =>
      rw [List.map_cons, instructionsFrom, instructionsFrom, toInstruction_moved]
      refine relocate_bind fun instr => ?_
      rw [Nat.add_assoc, ih]
      exact relocate_bind fun instrs => rfl

/-- Lines with other numbers have the same statements in other places. -/
theorem statementsFrom_moved {line line' : Nat}
    (moves : ∀ k, place (line + k) = line' + k) (lines : List (List Char)) :
    statementsFrom line' lines = (statementsFrom line lines).map (·.moved place) := by
  induction lines generalizing line line' with
  | nil => rfl
  | cons chars rest ih =>
      have later : ∀ k, place (line + 1 + k) = line' + 1 + k := by
        intro k
        rw [Nat.add_assoc, moves, Nat.add_assoc]
      have here : place line = line' := moves 0
      rw [statementsFrom, statementsFrom, ih later]
      cases lineWords chars with
      | nil => rfl
      | cons word words =>
          rw [List.map_cons, Statement.moved, here]

end Moved

/-! ### Lines that errors name -/

section Named

variable {e : Error} {line : Nat}

theorem Error.line?_moved (place : Nat → Nat) (e : Error) :
    (e.moved place).line? = e.line?.map place := by
  cases e <;> rfl

theorem Error.moved_of_line? (place : Nat → Nat) (named : e.line? = some line) :
    e.moved place = e.atLine (place line) := by
  cases e <;> cases named <;> rfl

/-- An error that stays the same when everything is moved to one line names that line. -/
theorem Error.line?_of_fixed (fixed : e.atLine line = e) (names : e.line?.isSome) :
    e.line? = some line := by
  obtain ⟨other, named⟩ := Option.isSome_iff_exists.mp names
  rw [← fixed, Error.atLine, Error.line?_moved, named, Option.map_some]

theorem toInstruction_failsInLine (statement : Statement) (order : Nat) :
    FailsInLine (statement.toInstruction order) :=
  (recognize_failsInLine statement).bind fun words => instruction_failsInLine _ _ words

theorem line?_of_recognize {statement : Statement} (failed : statement.recognize = .error e) :
    e.line? = some statement.line := by
  obtain ⟨word, rfl⟩ := (recognize_refusesWord statement).error failed
  rfl

theorem line?_of_toInstruction {statement : Statement} {order : Nat}
    (failed : statement.toInstruction order = .error e) : e.line? = some statement.line := by
  have moved := toInstruction_moved (fun _ => statement.line) statement 0 order
  change statement.toInstruction (0 + order) = _ at moved
  rw [Nat.zero_add, failed] at moved
  exact Error.line?_of_fixed (Except.error.inj moved).symm
    ((toInstruction_failsInLine statement order).error failed)

/-- An error that is met in some statement names its line. -/
theorem line?_of_body {first : Statement} {rest : List Statement}
    (failed : body (first :: rest) = .error e) :
    ∃ statement ∈ first :: rest, e.line? = some statement.line := by
  obtain ⟨e', recognized, blocked⟩ | ⟨-, headed⟩ | ⟨_, -, -, missing⟩ := body_cases first
  · rw [blocked] at failed
    cases failed
    exact ⟨first, List.mem_cons_self, line?_of_recognize recognized⟩
  · rw [headed] at failed
    obtain ⟨earlier, culprit, later, _, rfl, -, fails⟩ := instructionsFrom_eq_error failed
    exact ⟨culprit, by simp, line?_of_toInstruction fails⟩
  · rw [missing] at failed
    cases failed
    exact ⟨first, List.mem_cons_self, rfl⟩

end Named

end Source

end FrameCode
