import FrameCode.Machine.Report
import FrameCode.Operation

/-!
What each opcode does to a machine. An action reads its operands by position: a destination or a
label at the first, sources after it. Actions on the data stack take the right argument from the
top and the left one from below it.
-/

namespace FrameCode

inductive Action where
  | nothing
  -- frames and calls
  | move | createFrame | pushFrame | popFrame | defVar | call | ret
  -- data stack
  | push | pop | clear
  -- operations, on operands and on the data stack
  | unary (op : UnaryOp)
  | binary (op : BinaryOp)
  | unaryStack (op : UnaryOp)
  | binaryStack (op : BinaryOp)
  | setChar | typeOf
  -- channels
  | read | write | print | report
  -- control flow
  | jump
  | jumpIf (whenEqual : Bool)
  | jumpIfStack (whenEqual : Bool)
  | exit
deriving DecidableEq, Repr

def Opcode.action : Opcode → Action
  | .label | .nop => .nothing
  | .move => .move
  | .createFrame => .createFrame
  | .pushFrame => .pushFrame
  | .popFrame => .popFrame
  | .defVar => .defVar
  | .call => .call
  | .ret => .ret
  | .pushs => .push
  | .pops => .pop
  | .clears => .clear
  | .add => .binary .add
  | .sub => .binary .sub
  | .mul => .binary .mul
  | .div => .binary .div
  | .idiv => .binary .idiv
  | .adds => .binaryStack .add
  | .subs => .binaryStack .sub
  | .muls => .binaryStack .mul
  | .divs => .binaryStack .div
  | .idivs => .binaryStack .idiv
  | .lt => .binary .lt
  | .gt => .binary .gt
  | .eq => .binary .eq
  | .lts => .binaryStack .lt
  | .gts => .binaryStack .gt
  | .eqs => .binaryStack .eq
  | .and => .binary .and
  | .or => .binary .or
  | .not => .unary .not
  | .ands => .binaryStack .and
  | .ors => .binaryStack .or
  | .nots => .unaryStack .not
  | .int2char => .unary .int2char
  | .stri2int => .binary .stri2int
  | .int2float => .unary .int2float
  | .float2int => .unary .float2int
  | .int2chars => .unaryStack .int2char
  | .stri2ints => .binaryStack .stri2int
  | .int2floats => .unaryStack .int2float
  | .float2ints => .unaryStack .float2int
  | .read => .read
  | .write => .write
  | .concat => .binary .concat
  | .strlen => .unary .strlen
  | .getChar => .binary .getChar
  | .setChar => .setChar
  | .typeOf => .typeOf
  | .jump => .jump
  | .jumpIfEq => .jumpIf true
  | .jumpIfNeq => .jumpIf false
  | .jumpIfEqs => .jumpIfStack true
  | .jumpIfNeqs => .jumpIfStack false
  | .exit => .exit
  | .dprint => .print
  | .breakpoint => .report

namespace Instruction

/-- The variable that a value is stored in. -/
def destination (instr : Instruction) : Except Fault Variable :=
  match instr.argument? 1 with
  | some (.variable var) => .ok var
  | _ => .error (.operand 1 .var)

/-- The label that control may pass to. -/
def target (instr : Instruction) : Except Fault String :=
  match instr.argument? 1 with
  | some (.label name) => .ok name
  | _ => .error (.operand 1 .label)

/-- The type that a line of input is read as, which is not nil. -/
def inputType (instr : Instruction) : Except Fault DataType :=
  match instr.argument? 2 with
  | some (.typeName .nil) => .error (.badValue .readNil)
  | some (.typeName type) => .ok type
  | _ => .error (.operand 2 .typeName)

end Instruction

namespace Machine

/-- The value of a source operand, if it has one. -/
def lookup (m : Machine) (instr : Instruction) (position : Nat) : Except Fault (Option Value) :=
  match instr.argument? position with
  | some (.literal _ value) => .ok (some value)
  | some (.variable var) => m.frames.lookup var
  | _ => .error (.operand position .symb)

/-- The value of a source operand. -/
def source (m : Machine) (instr : Instruction) (position : Nat) : Except Fault Value :=
  match instr.argument? position with
  | some (.literal _ value) => .ok value
  | some (.variable var) => m.frames.read var
  | _ => .error (.operand position .symb)

/-- Goes on with a value that is found without a change to the machine. -/
def evaluate {α : Type} (m : Machine) (value : Except Fault α) (next : α → Outcome Fault) :
    Outcome Fault :=
  match value with
  | .ok a => next a
  | .error fault => m.fail fault

/-- Takes over the frames that an operation on them leaves, whether it succeeds or fails. -/
def withFrames (m : Machine) (change : Except Fault Unit × Frames) : Outcome Fault :=
  ⟨change.1, { m with frames := change.2 }⟩

/-- Stores a value in the destination. -/
def assign (m : Machine) (instr : Instruction) (value : Value) : Outcome Fault :=
  m.evaluate instr.destination fun var => m.withFrames (m.frames.write var value)

def jumpTo (m : Machine) (label : String) : Except Fault Machine :=
  match m.target? label with
  | some index => .ok { m with pc := some index }
  | none => .error (.undefinedLabel label)

/-- Goes on at the label if the two values compare as the jump asks for. -/
def jumpWhen (m : Machine) (whenEqual : Bool) (label : String) (a b : Value) :
    Except Fault Machine := do
  if (← a.equals b) = whenEqual then m.jumpTo label else .ok m

/-- Takes the top of the data stack and goes on with it; it stays taken if that fails. -/
def popThen (m : Machine) (next : Value → Machine → Outcome Fault) : Outcome Fault :=
  match m.dataStack.pop (Fault.missingValue (.emptyStack "data")) with
  | .ok (value, dataStack) => next value { m with dataStack }
  | .error fault => m.fail fault

/-- Takes the two topmost values, first the right one and then the left one. -/
def popTwoThen (m : Machine) (next : Value → Value → Machine → Outcome Fault) : Outcome Fault :=
  m.popThen fun b m => m.popThen fun a m => next a b m

def push (m : Machine) (value : Value) : Machine :=
  { m with dataStack := m.dataStack.push value }

/-- Saves where to return to before control passes to the label. -/
def enter (m : Machine) (label : String) : Outcome Fault :=
  let record := ⟨m.pc.getD m.program.size, m.function⟩
  let saved := { m with callStack := m.callStack.push record, function := none }
  saved.attempt do
    let m ← saved.jumpTo label
    return { m with function := some label }

def leave (m : Machine) : Except Fault Machine := do
  let (record, callStack) ← m.callStack.pop (Fault.missingValue (.emptyStack "call"))
  return { m with callStack, pc := some record.returnTo, function := record.function }

/-- The value that a line of input stands for; no line, or a line that is no text, is nil. -/
def inputValue (type : DataType) (line : Option Text.Bytes) : Except Fault Value :=
  let value := ((line.bind Text.decode?).map (Value.ofInput type)).getD .nil
  if value.isNil then .ok .nil else (value.expect type).mapError .internal

/-- Reads a line and stores its value; the line stays read if that fails. -/
def readInto (m : Machine) (instr : Instruction) (type : DataType) : Outcome Fault :=
  let (line, input) := m.input.readLine
  let m := { m with input }
  match line with
  | .error message => m.fail (.input message)
  | .ok line => m.evaluate (inputValue type line) (m.assign instr)

def emit (m : Machine) (text : String) : Outcome Fault :=
  let (result, output) := m.output.write (Text.encode text)
  ⟨result.mapError .output, { m with output }⟩

def emitDiagnostic (m : Machine) (text : String) : Outcome Fault :=
  let (result, diagnostics) := m.diagnostics.write (Text.encode text)
  ⟨result.mapError .output, { m with diagnostics }⟩

/-- Programs end themselves with a code from 0 to 49. -/
def exitCode? : Value → Except Fault Nat
  | .int code =>
      if 0 ≤ code.toInt ∧ code.toInt ≤ 49 then .ok code.toInt.toNat
      else .error (.badValue (.exitCode code))
  | value => .error (.badTypes .exit [value.type])

end Machine

namespace Action

open Machine

/-- Performs an action for an instruction that supplies the operands. -/
def perform (action : Action) (instr : Instruction) (m : Machine) : Outcome Fault :=
  match action with
  | .nothing => m.succeed
  | .move => m.evaluate (m.source instr 2) (m.assign instr)
  | .createFrame => succeed { m with frames := m.frames.createTemporary }
  | .pushFrame => m.withFrames m.frames.pushTemporary
  | .popFrame => m.withFrames m.frames.popTemporary
  | .defVar => m.evaluate instr.destination fun var => m.withFrames (m.frames.declare var)
  | .call => m.evaluate instr.target m.enter
  | .ret => m.attempt m.leave
  | .push => m.attempt do return m.push (← m.source instr 1)
  | .pop => m.popThen fun value m => m.assign instr value
  | .clear => succeed { m with dataStack := {} }
  | .unary op =>
      let value := do op.apply (← m.source instr 2)
      m.evaluate value (m.assign instr)
  | .binary op =>
      let value := do op.apply (← m.source instr 2) (← m.source instr 3)
      m.evaluate value (m.assign instr)
  | .unaryStack op => m.popThen fun a m => m.attempt do return m.push (← op.apply a)
  | .binaryStack op => m.popTwoThen fun a b m => m.attempt do return m.push (← op.apply a b)
  | .setChar =>
      let value := do
        let target ← m.frames.read (← instr.destination)
        target.setChar (← m.source instr 2) (← m.source instr 3)
      m.evaluate value (m.assign instr)
  | .typeOf => m.evaluate (m.lookup instr 2) fun value => m.assign instr (Value.typeName value)
  | .read => m.evaluate instr.inputType (m.readInto instr)
  | .write => m.evaluate (m.source instr 1) fun value => m.emit value.text
  | .print => m.evaluate (m.source instr 1) fun value => m.emitDiagnostic value.text
  | .report => m.emitDiagnostic (m.report instr.order)
  | .jump => m.attempt do m.jumpTo (← instr.target)
  | .jumpIf whenEqual => m.attempt do
      let label ← instr.target
      let a ← m.source instr 2
      let b ← m.source instr 3
      m.jumpWhen whenEqual label a b
  | .jumpIfStack whenEqual => m.evaluate instr.target fun label =>
      m.popTwoThen fun a b m => m.attempt (m.jumpWhen whenEqual label a b)
  | .exit => m.attempt do
      let code ← exitCode? (← m.source instr 1)
      return { m with exitCode := some code, pc := none }

end Action

/-- Performs what the opcode of an instruction stands for. -/
def Instruction.perform (instr : Instruction) (m : Machine) : Outcome Fault :=
  instr.opcode.action.perform instr m

end FrameCode
