import FrameCode.Source.Error
import FrameCode.Source.Word

/-!
A statement is a source line with words on it. All its words are recognised before any of them is
interpreted; then the first one selects the opcode, whose signature says how to take the others.
-/

namespace FrameCode.Source

/-- A line that is not blank, with its number and its words. -/
structure Statement where
  line : Nat
  words : List (List Char)
deriving DecidableEq

namespace Statement

/-- Recognises every word, or reports the first that cannot be. -/
def recognize (statement : Statement) : Except Error (List Word) :=
  statement.words.mapM fun chars =>
    match Word.ofChars? chars with
    | some word => .ok word
    | none => .error (.invalidOperand statement.line (String.ofList chars))

end Statement

def literal? (type : DataType) (content : List Char) : Option Argument :=
  (Value.ofLiteral? type content).map (.literal (String.ofList content))

/-- Takes a word as an argument of the given kind. -/
def argument? : OperandKind → Word → Option Argument
  | .var, .variable var => some (.variable var)
  | .symb, .variable var => some (.variable var)
  | .symb, .literal type content => literal? type content
  | .literal expected, .literal type content =>
      if type = expected then literal? type content else none
  | .label, .bare text => if isName text then some (.label (String.ofList text)) else none
  | .typeName, .bare text => (DataType.ofName? (String.ofList text)).map .typeName
  | _, _ => none

/-- Takes words as operands of the given kinds, at positions counted from `position`. -/
def operands (line : Nat) : Nat → List OperandKind → List Word → Except Error (List Operand)
  | position, kind :: kinds, word :: words =>
      match argument? kind word with
      | none => .error (.invalidOperand line word.text)
      | some argument => do
          let rest ← operands line (position + 1) kinds words
          return ⟨position, argument⟩ :: rest
  | _, _, _ => .ok []

def opcode? : Word → Option Opcode
  | .bare text => Opcode.ofMnemonic? (String.ofList text)
  | _ => none

/-- The instruction that recognised words make, with the given order number. -/
def instruction (line order : Nat) : List Word → Except Error Instruction
  | [] => .error (.unknownOpcode line "")
  | first :: words =>
      match opcode? first with
      | none => .error (.unknownOpcode line first.text)
      | some opcode =>
          if words.length = opcode.arity then do
            return ⟨opcode, order, ← operands line 1 opcode.signature words⟩
          else .error (.operandCount line opcode opcode.arity words.length)

namespace Statement

def toInstruction (order : Nat) (statement : Statement) : Except Error Instruction := do
  instruction statement.line order (← statement.recognize)

end Statement

end FrameCode.Source
