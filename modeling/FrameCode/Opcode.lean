import FrameCode.Operand

/-!
The instruction vocabulary. Every opcode has a mnemonic, which is found in any letter case, and a
signature: the kinds of its operands in order. Many operations come in two forms, one on operands
and one, with a final `s`, on the data stack.
-/

namespace FrameCode

inductive Opcode where
  -- frames and calls
  | move | createFrame | pushFrame | popFrame | defVar | call | ret
  -- data stack
  | pushs | pops | clears
  -- arithmetic
  | add | sub | mul | div | idiv | adds | subs | muls | divs | idivs
  -- comparison
  | lt | gt | eq | lts | gts | eqs
  -- logic
  | and | or | not | ands | ors | nots
  -- conversion
  | int2char | stri2int | int2float | float2int
  | int2chars | stri2ints | int2floats | float2ints
  -- input and output
  | read | write
  -- strings
  | concat | strlen | getChar | setChar
  -- introspection
  | typeOf
  -- control flow
  | label | jump | jumpIfEq | jumpIfNeq | jumpIfEqs | jumpIfNeqs | exit
  -- debugging
  | dprint | breakpoint
  | nop
deriving DecidableEq, Repr

/-- How a run treats an opcode. -/
inductive OpcodeClass where
  /-- Marks a jump target and does nothing when it is executed. -/
  | label
  /-- Writes diagnostics only, and is not counted as executed. -/
  | debug
  | executable
deriving DecidableEq, Repr

namespace Opcode

def all : List Opcode :=
  [.move, .createFrame, .pushFrame, .popFrame, .defVar, .call, .ret,
   .pushs, .pops, .clears,
   .add, .sub, .mul, .div, .idiv, .adds, .subs, .muls, .divs, .idivs,
   .lt, .gt, .eq, .lts, .gts, .eqs,
   .and, .or, .not, .ands, .ors, .nots,
   .int2char, .stri2int, .int2float, .float2int,
   .int2chars, .stri2ints, .int2floats, .float2ints,
   .read, .write,
   .concat, .strlen, .getChar, .setChar,
   .typeOf,
   .label, .jump, .jumpIfEq, .jumpIfNeq, .jumpIfEqs, .jumpIfNeqs, .exit,
   .dprint, .breakpoint,
   .nop]

theorem mem_all (op : Opcode) : op ∈ all := by
  cases op <;> decide

def mnemonic : Opcode → String
  | .move => "MOVE"
  | .createFrame => "CREATEFRAME"
  | .pushFrame => "PUSHFRAME"
  | .popFrame => "POPFRAME"
  | .defVar => "DEFVAR"
  | .call => "CALL"
  | .ret => "RETURN"
  | .pushs => "PUSHS"
  | .pops => "POPS"
  | .clears => "CLEARS"
  | .add => "ADD"
  | .sub => "SUB"
  | .mul => "MUL"
  | .div => "DIV"
  | .idiv => "IDIV"
  | .adds => "ADDS"
  | .subs => "SUBS"
  | .muls => "MULS"
  | .divs => "DIVS"
  | .idivs => "IDIVS"
  | .lt => "LT"
  | .gt => "GT"
  | .eq => "EQ"
  | .lts => "LTS"
  | .gts => "GTS"
  | .eqs => "EQS"
  | .and => "AND"
  | .or => "OR"
  | .not => "NOT"
  | .ands => "ANDS"
  | .ors => "ORS"
  | .nots => "NOTS"
  | .int2char => "INT2CHAR"
  | .stri2int => "STRI2INT"
  | .int2float => "INT2FLOAT"
  | .float2int => "FLOAT2INT"
  | .int2chars => "INT2CHARS"
  | .stri2ints => "STRI2INTS"
  | .int2floats => "INT2FLOATS"
  | .float2ints => "FLOAT2INTS"
  | .read => "READ"
  | .write => "WRITE"
  | .concat => "CONCAT"
  | .strlen => "STRLEN"
  | .getChar => "GETCHAR"
  | .setChar => "SETCHAR"
  | .typeOf => "TYPE"
  | .label => "LABEL"
  | .jump => "JUMP"
  | .jumpIfEq => "JUMPIFEQ"
  | .jumpIfNeq => "JUMPIFNEQ"
  | .jumpIfEqs => "JUMPIFEQS"
  | .jumpIfNeqs => "JUMPIFNEQS"
  | .exit => "EXIT"
  | .dprint => "DPRINT"
  | .breakpoint => "BREAK"
  | .nop => "NOP"

/-- The opcode with the given mnemonic, in any letter case. -/
def ofMnemonic? (text : String) : Option Opcode :=
  all.find? fun op => Text.sameLetters op.mnemonic.toList text.toList

theorem ofMnemonic?_mnemonic_of_mem : ∀ op ∈ all, ofMnemonic? op.mnemonic = some op := by
  decide +kernel

@[simp] theorem ofMnemonic?_mnemonic (op : Opcode) : ofMnemonic? op.mnemonic = some op :=
  ofMnemonic?_mnemonic_of_mem op (mem_all op)

def signature : Opcode → List OperandKind
  | .createFrame | .pushFrame | .popFrame | .ret | .clears
  | .adds | .subs | .muls | .divs | .idivs | .lts | .gts | .eqs | .ands | .ors | .nots
  | .int2chars | .stri2ints | .int2floats | .float2ints
  | .breakpoint | .nop => []
  | .defVar | .pops => [.var]
  | .pushs | .write | .exit | .dprint => [.symb]
  | .call | .label | .jump | .jumpIfEqs | .jumpIfNeqs => [.label]
  | .move | .not | .int2char | .int2float | .float2int | .strlen | .typeOf => [.var, .symb]
  | .read => [.var, .typeName]
  | .add | .sub | .mul | .div | .idiv | .lt | .gt | .eq | .and | .or
  | .stri2int | .concat | .getChar | .setChar => [.var, .symb, .symb]
  | .jumpIfEq | .jumpIfNeq => [.label, .symb, .symb]

def arity (op : Opcode) : Nat :=
  op.signature.length

def kind : Opcode → OpcodeClass
  | .label => .label
  | .dprint | .breakpoint => .debug
  | _ => .executable

/-- Whether the first operand names a label that control may pass to. -/
def isJump : Opcode → Bool
  | .call | .jump | .jumpIfEq | .jumpIfNeq | .jumpIfEqs | .jumpIfNeqs => true
  | _ => false

/-- Whether the first operand is a variable that comes into being. -/
def declaresVariable : Opcode → Bool
  | .defVar => true
  | _ => false

end Opcode

end FrameCode
