import FrameCode.Value

/-!
Operands of instructions: a variable of one of the three frames, a literal, a label or the name of a
type, at a numbered position. An opcode states for each position which kind it takes.
-/

namespace FrameCode

/-- The frame that a variable lives in. -/
inductive FrameTag where
  | global | local | temporary
deriving DecidableEq, Repr

namespace FrameTag

def name : FrameTag → String
  | .global => "GF"
  | .local => "LF"
  | .temporary => "TF"

def ofName? : String → Option FrameTag
  | "GF" => some .global
  | "LF" => some .local
  | "TF" => some .temporary
  | _ => none

@[simp] theorem ofName?_name (tag : FrameTag) : ofName? tag.name = some tag := by
  cases tag <;> rfl

end FrameTag

structure Variable where
  frame : FrameTag
  name : String
deriving DecidableEq, Repr

def Variable.text (v : Variable) : String :=
  s!"{v.frame.name}@{v.name}"

/-- What an operand denotes. A literal keeps the text it was written with, which need not be the
only way to write its value. -/
inductive Argument where
  | variable (var : Variable)
  | literal (content : String) (value : Value)
  | label (name : String)
  | typeName (type : DataType)
deriving DecidableEq

namespace Argument

/-- The argument as written, a literal without the name of its type. -/
def content : Argument → String
  | .variable var => var.text
  | .literal content _ => content
  | .label name => name
  | .typeName type => type.name

/-- The argument as it stands in a source line. -/
def text : Argument → String
  | .variable var => var.text
  | .literal content value => s!"{value.type.name}@{content}"
  | .label name => name
  | .typeName type => type.name

/-- The word for the argument's kind; a literal goes by the name of its type. -/
def kindName : Argument → String
  | .variable _ => "var"
  | .literal _ value => value.type.name
  | .label _ => "label"
  | .typeName _ => "type"

def var? : Argument → Option Variable
  | .variable var => some var
  | _ => none

def label? : Argument → Option String
  | .label name => some name
  | _ => none

end Argument

/-- An argument at a position; the positions of an instruction are meant to count from one. -/
structure Operand where
  position : Nat
  argument : Argument
deriving DecidableEq

/-- The kinds of argument that an operand position can ask for. -/
inductive OperandKind where
  | var
  /-- A variable or a literal of any type. -/
  | symb
  | label
  | typeName
  /-- A literal of exactly this type. -/
  | literal (type : DataType)
deriving DecidableEq, Repr

namespace OperandKind

def name : OperandKind → String
  | .var => "var"
  | .symb => "symb"
  | .label => "label"
  | .typeName => "type"
  | .literal type => type.name

def accepts : OperandKind → Argument → Bool
  | .var, .variable _ => true
  | .symb, .variable _ => true
  | .symb, .literal _ _ => true
  | .label, .label _ => true
  | .typeName, .typeName _ => true
  | .literal type, .literal _ value => value.type == type
  | _, _ => false

end OperandKind

end FrameCode
