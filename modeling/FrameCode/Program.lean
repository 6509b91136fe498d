import FrameCode.Instruction
import FrameCode.SortByKey

/-!
A program is a sequence of instructions in the order of their order numbers. The order numbers are
positive and distinct, and every instruction has its operands numbered from one: both are part of
the type. `ofInstructions` puts instructions in any order into sequence, or says why it cannot.
-/

namespace FrameCode

structure Program where
  instructions : Array Instruction
  positive : ∀ instr ∈ instructions.toList, 0 < instr.order := by decide
  ascending : instructions.toList.Pairwise (fun a b => a.order < b.order) := by decide
  numbered : ∀ instr ∈ instructions.toList, instr.Numbered := by decide
deriving DecidableEq

/-- Why instructions do not make a program. -/
inductive StructureError where
  | zeroOrder (opcode : Opcode)
  | operandNumbering (opcode : Opcode) (order expected found : Nat)
  | duplicateOrder (order : Nat) (first second : Opcode)
deriving DecidableEq, Repr

namespace StructureError

def message : StructureError → String
  | .zeroOrder opcode =>
      s!"instruction {opcode.mnemonic} has order 0 (orders must be positive)"
  | .operandNumbering opcode order expected found =>
      s!"{opcode.mnemonic} (order {order}): operand at slot {found} "
        ++ s!"where slot {expected} was expected"
  | .duplicateOrder order first second =>
      s!"duplicate order {order} (instructions {first.mnemonic} and {second.mnemonic})"

def exitCode (_ : StructureError) : Nat := 32

end StructureError

namespace Instruction

/-- The instruction with its operands in the order of their positions. -/
def sortOperands (instr : Instruction) : Instruction :=
  { instr with operands := sortByKey Operand.position instr.operands }

/-- The first operand whose position is not the one counted from `expected`, with the count. -/
def misnumbered? : Nat → List Operand → Option (Nat × Nat)
  | _, [] => none
  | expected, operand :: rest =>
      if operand.position = expected then misnumbered? (expected + 1) rest
      else some (expected, operand.position)

/-- Sorts the operands and checks what an instruction can be checked for on its own. -/
def arrange (instr : Instruction) : Except StructureError Instruction :=
  if instr.order = 0 then .error (.zeroOrder instr.opcode)
  else
    let sorted := instr.sortOperands
    match misnumbered? 1 sorted.operands with
    | some (expected, found) =>
        .error (.operandNumbering instr.opcode instr.order expected found)
    | none => .ok sorted

theorem misnumbered?_eq_none_iff {expected : Nat} {operands : List Operand} :
    misnumbered? expected operands = none ↔
      operands.map (·.position) = List.range' expected operands.length := by
  induction operands generalizing expected with
  | nil => simp [misnumbered?]
  | cons operand rest ih =>
    by_cases h : operand.position = expected <;> simp [misnumbered?, h, ih, List.range'_succ]

theorem arrange_eq_ok {instr result : Instruction} (h : instr.arrange = .ok result) :
    0 < result.order ∧ result.Numbered := by
  unfold arrange at h
  split at h
  · cases h
  · next order =>
    dsimp only at h
    split at h
    · cases h
    · next numbered =>
      cases h
      exact ⟨Nat.pos_of_ne_zero order, misnumbered?_eq_none_iff.1 numbered⟩

end Instruction

namespace Program

/-- The first two neighbours with one order number. -/
def duplicate? : List Instruction → Option (Instruction × Instruction)
  | first :: second :: rest =>
      if first.order = second.order then some (first, second) else duplicate? (second :: rest)
  | _ => none

/-- Brings arranged instructions into sequence. -/
def sequence (instructions : List Instruction) : Except StructureError (List Instruction) :=
  let sorted := sortByKey Instruction.order instructions
  match duplicate? sorted with
  | some (first, second) => .error (.duplicateOrder first.order first.opcode second.opcode)
  | none => .ok sorted

theorem ascending_of_duplicate?_eq_none {instructions : List Instruction}
    (sorted : instructions.Pairwise (fun a b => a.order ≤ b.order))
    (distinct : duplicate? instructions = none) :
    instructions.Pairwise (fun a b => a.order < b.order) := by
  induction instructions with
  | nil => exact .nil
  | cons first rest ih =>
    cases rest with
    | nil => simp
    | cons second rest =>
      rw [duplicate?] at distinct
      split at distinct
      · cases distinct
      · next differ =>
        have ⟨low, tail⟩ := List.pairwise_cons.1 sorted
        have strict := ih tail distinct
        refine List.pairwise_cons.2 ⟨fun instr mem => ?_, strict⟩
        have step : first.order < second.order :=
          Nat.lt_of_le_of_ne (low second (by simp)) differ
        rcases List.mem_cons.1 mem with rfl | mem
        · exact step
        · exact Nat.lt_trans step ((List.pairwise_cons.1 strict).1 instr mem)

theorem sequence_eq_ok {instructions result : List Instruction}
    (h : sequence instructions = .ok result) :
    result.Perm instructions ∧ result.Pairwise (fun a b => a.order < b.order) := by
  unfold sequence at h
  dsimp only at h
  split at h
  · cases h
  · next distinct =>
    cases h
    exact ⟨sortByKey_perm _ _,
      ascending_of_duplicate?_eq_none (pairwise_sortByKey _ _) distinct⟩

theorem arrange_of_mem_mapM {instructions arranged : List Instruction}
    (h : instructions.mapM Instruction.arrange = .ok arranged) :
    ∀ instr ∈ arranged, 0 < instr.order ∧ instr.Numbered := by
  induction instructions generalizing arranged with
  | nil =>
    cases h
    simp
  | cons instr rest ih =>
    rw [List.mapM_cons] at h
    cases first : instr.arrange with
    | error e => simp [first, bind, Except.bind] at h
    | ok result =>
      cases tail : rest.mapM Instruction.arrange with
      | error e => simp [first, tail, bind, Except.bind] at h
      | ok results =>
        simp only [first, tail, bind, Except.bind, pure, Except.pure, Except.ok.injEq] at h
        subst h
        intro x mem
        rcases List.mem_cons.1 mem with rfl | mem
        · exact Instruction.arrange_eq_ok first
        · exact ih tail x mem

/-- The program made of the given instructions. An instruction that is wrong on its own is reported
before two that share an order number, and the first such instruction first. -/
def ofInstructions (instructions : List Instruction) : Except StructureError Program :=
  match arranging : instructions.mapM Instruction.arrange with
  | .error e => .error e
  | .ok arranged =>
      match sequencing : sequence arranged with
      | .error e => .error e
      | .ok sorted => .ok
          { instructions := sorted.toArray
            positive := fun instr mem =>
              (arrange_of_mem_mapM arranging instr
                ((sequence_eq_ok sequencing).1.mem_iff.1 (by simpa using mem))).1
            ascending := by simpa using (sequence_eq_ok sequencing).2
            numbered := fun instr mem =>
              (arrange_of_mem_mapM arranging instr
                ((sequence_eq_ok sequencing).1.mem_iff.1 (by simpa using mem))).2 }

def toList (program : Program) : List Instruction :=
  program.instructions.toList

def size (program : Program) : Nat :=
  program.instructions.size

def get? (program : Program) (index : Nat) : Option Instruction :=
  program.instructions[index]?

end Program

end FrameCode
