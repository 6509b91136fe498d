import FrameCode.Program

/-!
What can be wrong with a source text. Every cause but the last names the line where it shows,
counted from one.
-/

namespace FrameCode.Source

inductive Error where
  | missingHeader (line : Nat)
  | unknownOpcode (line : Nat) (word : String)
  | invalidOperand (line : Nat) (word : String)
  | operandCount (line : Nat) (opcode : Opcode) (expected found : Nat)
  | program (cause : StructureError)
deriving DecidableEq, Repr

namespace Error

def message : Error → String
  | .missingHeader line => s!"line {line}: expected the .IPPcode22 header"
  | .unknownOpcode line word => s!"line {line}: unknown opcode '{word}'"
  | .invalidOperand line word => s!"line {line}: invalid operand '{word}'"
  | .operandCount line opcode expected found =>
      s!"line {line}: {opcode.mnemonic} expects {expected} operand(s), found {found}"
  | .program cause => cause.message

def exitCode : Error → Nat
  | .missingHeader _ => 21
  | .unknownOpcode _ _ => 22
  | .invalidOperand _ _ | .operandCount _ _ _ _ => 23
  | .program cause => cause.exitCode

end Error

end FrameCode.Source
