import FrameCode.Opcode

/-!
An instruction is an opcode with operands and an order number, which says where in the program it
stands.
-/

namespace FrameCode

structure Instruction where
  opcode : Opcode
  order : Nat
  operands : List Operand
deriving DecidableEq

namespace Instruction

/-- The first operand at a position. -/
def operand? (instr : Instruction) (position : Nat) : Option Operand :=
  instr.operands.find? (·.position == position)

def argument? (instr : Instruction) (position : Nat) : Option Argument :=
  (instr.operand? position).map (·.argument)

/-- The label that the instruction defines or may pass control to. -/
def label? (instr : Instruction) : Option String :=
  if instr.opcode = .label ∨ instr.opcode.isJump then
    (instr.argument? 1).bind Argument.label?
  else none

/-- The instruction as it stands in a source line. -/
def text (instr : Instruction) : String :=
  " ".intercalate (instr.opcode.mnemonic :: instr.operands.map (·.argument.text))

/-- The operands stand in the order of their positions, which count from one. -/
def Numbered (instr : Instruction) : Prop :=
  instr.operands.map (·.position) = List.range' 1 instr.operands.length

instance (instr : Instruction) : Decidable instr.Numbered :=
  inferInstanceAs (Decidable (_ = _))

end Instruction

end FrameCode
