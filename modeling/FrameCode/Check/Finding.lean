import FrameCode.Program

/-!
Findings of the static check. Each names the order number of the instruction it was found in.
-/

namespace FrameCode.Check

inductive Finding where
  | arityMismatch (order : Nat) (opcode : Opcode) (expected found : Nat)
  | incompatibleOperand (order : Nat) (opcode : Opcode) (position : Nat)
      (expected : OperandKind) (found : Argument)
  | labelRedefinition (order : Nat) (label : String)
  /-- A jump or a call to a label that is nowhere defined. -/
  | undefinedLabel (order : Nat) (label : String)
  | variableRedefinition (order : Nat) (var : Variable)
deriving DecidableEq

namespace Finding

def order : Finding → Nat
  | .arityMismatch order _ _ _ => order
  | .incompatibleOperand order _ _ _ _ => order
  | .labelRedefinition order _ => order
  | .undefinedLabel order _ => order
  | .variableRedefinition order _ => order

def message : Finding → String
  | .arityMismatch order opcode expected found =>
      s!"{opcode.mnemonic} at order {order} takes {expected} operand(s), found {found}"
  | .incompatibleOperand order opcode position expected found =>
      s!"{opcode.mnemonic} at order {order}: operand {position} must be a {expected.name}, "
        ++ s!"found {found.kindName}"
  | .labelRedefinition order label => s!"label {label} redefined at order {order}"
  | .undefinedLabel order label => s!"undefined label {label} used at order {order}"
  | .variableRedefinition order var => s!"variable {var.text} redefined at order {order}"

def exitCode : Finding → Nat
  | .arityMismatch .. => 32
  | .incompatibleOperand .. | .labelRedefinition .. | .undefinedLabel ..
  | .variableRedefinition .. => 52

end Finding

end FrameCode.Check
