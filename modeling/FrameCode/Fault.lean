import FrameCode.Instruction

/-!
What can go wrong when an instruction is executed. A fault is the cause; a runtime error adds the
instruction in which it arose.
-/

namespace FrameCode

/-- Where a value is missing. -/
inductive MissingValue where
  | uninitialized (var : Variable)
  | emptyStack (name : String)
deriving DecidableEq, Repr

/-- Why a value of the right type cannot be used. -/
inductive BadValue where
  | divisionByZero
  | noInteger (value : Float)
  | readNil
  | exitCode (code : Int64)
deriving DecidableEq

/-- Why a string or a code cannot be used. -/
inductive BadString where
  | notCodePoint (code : Int64)
  | indexOutOfRange (index : Int64) (length : Nat)
  | noCharacter (index : Int64)
  | emptyReplacement
deriving DecidableEq, Repr

inductive Fault where
  /-- The types that the operation met, in the order of its operands. -/
  | badTypes (operation : Opcode) (found : List DataType)
  | noVariable (var : Variable)
  | noFrame (frame : FrameTag)
  | missingValue (what : MissingValue)
  | badValue (reason : BadValue)
  | badString (reason : BadString)
  | labelRedefinition (label : String)
  | undefinedLabel (label : String)
  | variableRedefinition (var : Variable)
  /-- An operand is missing or of the wrong kind. -/
  | operand (position : Nat) (expected : OperandKind)
  | input (message : String)
  | output (message : String)
  | internal (cause : Mismatch)
deriving DecidableEq

def MissingValue.message : MissingValue → String
  | .uninitialized var => s!"variable {var.text} is uninitialized"
  | .emptyStack name => s!"{name} stack is empty"

def BadValue.message : BadValue → String
  | .divisionByZero => "division by zero"
  | .noInteger value => s!"{(Value.float value).text} has no integer value"
  | .readNil => "READ cannot read a nil value"
  | .exitCode code => s!"exit code {code.toInt} is outside 0..=49"

def BadString.message : BadString → String
  | .notCodePoint code => s!"{code.toInt} is not a Unicode code point"
  | .indexOutOfRange index length =>
      s!"index {index.toInt} out of range for string of length {length}"
  | .noCharacter index => s!"index {index.toInt} out of range"
  | .emptyReplacement => "replacement string is empty"

namespace Fault

def message : Fault → String
  | .badTypes operation found =>
      s!"bad operand types for {operation.mnemonic}: " ++ " and ".intercalate (found.map (·.name))
  | .noVariable var => s!"variable {var.text} does not exist"
  | .noFrame frame => s!"frame {frame.name} does not exist"
  | .missingValue what => s!"missing value: {what.message}"
  | .badValue reason => s!"bad operand value: {reason.message}"
  | .badString reason => s!"invalid string operation: {reason.message}"
  | .labelRedefinition label => s!"label {label} is defined more than once"
  | .undefinedLabel label => s!"label {label} is not defined"
  | .variableRedefinition var => s!"variable {var.text} is already defined"
  | .operand position expected => s!"operand {position} must be a {expected.name}"
  | .input message => s!"cannot read input: {message}"
  | .output message => s!"cannot write output: {message}"
  | .internal cause => cause.message

def exitCode : Fault → Nat
  | .input _ => 11
  | .output _ => 12
  | .operand _ _ => 32
  | .labelRedefinition _ | .undefinedLabel _ | .variableRedefinition _ => 52
  | .badTypes _ _ => 53
  | .noVariable _ => 54
  | .noFrame _ => 55
  | .missingValue _ => 56
  | .badValue _ => 57
  | .badString _ => 58
  | .internal cause => cause.exitCode

end Fault

/-- The instruction that an error arose in. -/
structure Site where
  opcode : Opcode
  order : Nat
deriving DecidableEq, Repr

def Instruction.site (instr : Instruction) : Site :=
  ⟨instr.opcode, instr.order⟩

def Site.text (site : Site) : String :=
  s!"{site.opcode.mnemonic} (order {site.order})"

/-- A fault with its site, if it arose in an instruction. -/
structure RuntimeError where
  fault : Fault
  site : Option Site
deriving DecidableEq

namespace RuntimeError

def message (e : RuntimeError) : String :=
  match e.site with
  | some site => s!"{site.text}: {e.fault.message}"
  | none => e.fault.message

def exitCode (e : RuntimeError) : Nat :=
  e.fault.exitCode

end RuntimeError

end FrameCode
