import FrameCode.Proofs.Frames
import FrameCode.Proofs.Machine.Control
import FrameCode.Proofs.StackForms

/-!
What an instruction that fails has done before it failed. Most actions do all or nothing. The others
have taken values from the data stack, used a channel or saved where to return to, and none of this
is undone: `Action.Leaves` lists the machines that can be left, and `perform_leaves` goes through
the actions. Everything that a failing instruction does not change is read off that list.
-/

namespace FrameCode

open Machine

namespace Action

def takes : Action → Nat
  | .pop | .unaryStack _ => 1
  | .binaryStack _ | .jumpIfStack _ => 2
  | _ => 0

/-- The machines that an action can leave behind when it fails. -/
inductive Leaves (action : Action) (instr : Instruction) (m : Machine) : Machine → Prop where
  | same : Leaves action instr m m
  | taken {values rest : List Value} (items : m.dataStack.items = values ++ rest)
      (nonempty : values ≠ []) (count : values.length ≤ action.takes) :
      Leaves action instr m { m with dataStack := ⟨rest⟩ }
  | read (reads : action = .read) : Leaves action instr m { m with input := m.input.readLine.2 }
  | written (writes : action = .write) (text : String) :
      Leaves action instr m { m with output := (m.output.write (Text.encode text)).2 }
  | diagnosed (diagnoses : action = .print ∨ action = .report) (text : String) :
      Leaves action instr m { m with diagnostics := (m.diagnostics.write (Text.encode text)).2 }
  | called {label : String} (calls : action = .call) (named : instr.target = .ok label)
      (missing : m.target? label = none) :
      Leaves action instr m
        { m with
          callStack := m.callStack.push ⟨m.pc.getD m.program.size, m.function⟩
          function := none }

end Action

def Outcome.FailsInto (left : Machine → Prop) (outcome : Outcome Fault) : Prop :=
  outcome.Ensures (fun _ => True) (fun _ => left)

namespace Machine

variable {m : Machine} {instr : Instruction} {action : Action} {left : Machine → Prop}

theorem attempt_failsInto (x : Except Fault Machine) (start : left m) :
    (m.attempt x).FailsInto left :=
  .attempt_of_ok Ensures.trivial fun _ => start

/-- A value that cannot be found leaves the machine as it was. -/
theorem evaluate_failsInto {α : Type} {value : Except Fault α} {next : α → Outcome Fault}
    (start : left m) (h : ∀ a, value = .ok a → (next a).FailsInto left) :
    (m.evaluate value next).FailsInto left :=
  evaluate_ensures (fun _ _ => start) h

/-- An operation on the frames that fails leaves the machine as it was. -/
theorem withFrames_failsInto {change : Except Fault Unit × Frames}
    (unharmed : m.frames.Unharmed change) (start : left m) : (m.withFrames change).FailsInto left :=
  withFrames_ensures unharmed (fun _ _ => True.intro) fun _ _ => start

theorem assign_failsInto (start : left m) (value : Value) : (m.assign instr value).FailsInto left :=
  assign_ensures (fun _ _ _ _ => True.intro) fun _ => start

/-- A value that is taken stays taken. -/
theorem popThen_leaves {next : Value → Machine → Outcome Fault} (one : action.takes = 1)
    (h : ∀ value m', action.Leaves instr m m' →
      (next value m').FailsInto (action.Leaves instr m)) :
    (m.popThen next).FailsInto (action.Leaves instr m) := by
  refine popThen_ensures .same fun value rest items => h _ _ ?_
  have taken : m.dataStack.items = [value] ++ rest := items
  exact .taken taken (List.cons_ne_nil _ _) (Nat.le_of_eq one.symm)

/-- Where the second value is missing, the first one is gone all the same. -/
theorem popTwoThen_leaves {next : Value → Value → Machine → Except Fault Machine}
    (two : action.takes = 2) :
    (m.popTwoThen fun a b m => m.attempt (next a b m)).FailsInto (action.Leaves instr m) := by
  refine popThen_ensures .same fun b rest items => popThen_ensures ?_ fun a rest' items' => ?_
  · have taken : m.dataStack.items = [b] ++ rest := items
    exact .taken taken (List.cons_ne_nil _ _) (by simp [two])
  · refine attempt_failsInto _ ?_
    change rest = a :: rest' at items'
    have taken : m.dataStack.items = [b, a] ++ rest' := by rw [items, items']; rfl
    exact .taken taken (List.cons_ne_nil _ _) (Nat.le_of_eq two.symm)

/-- A call of a label without a target has saved its record. -/
theorem enter_leaves {label : String} (calls : action = .call) (named : instr.target = .ok label) :
    (m.enter label).FailsInto (action.Leaves instr m) := by
  refine .attempt (.bind ((jumpTo_ensures label).mono (fun _ h => h) fun _ missing => ?_) ?_)
  · exact .called calls named missing
  · exact fun _ _ => True.intro

/-- The line stays read, whether its value is stored or not. -/
theorem readInto_leaves (reads : action = .read) (type : DataType) :
    (m.readInto instr type).FailsInto (action.Leaves instr m) := by
  have left : action.Leaves instr m { m with input := m.input.readLine.2 } := .read reads
  unfold readInto
  generalize m.input.readLine = result at left ⊢
  rcases result with ⟨message | line, input⟩
  · exact .fail left
  · exact evaluate_failsInto left fun value _ => assign_failsInto left value

/-- A chunk that is refused may be taken in part. -/
theorem emit_leaves (writes : action = .write) (text : String) :
    (m.emit text).FailsInto (action.Leaves instr m) := by
  have left : action.Leaves instr m
      { m with output := (m.output.write (Text.encode text)).2 } := .written writes text
  unfold emit
  generalize m.output.write (Text.encode text) = result at left ⊢
  rcases result with ⟨message | _, output⟩
  · exact .fail left
  · exact .succeed True.intro

theorem emitDiagnostic_leaves (diagnoses : action = .print ∨ action = .report) (text : String) :
    (m.emitDiagnostic text).FailsInto (action.Leaves instr m) := by
  have left : action.Leaves instr m
      { m with diagnostics := (m.diagnostics.write (Text.encode text)).2 } :=
    .diagnosed diagnoses text
  unfold emitDiagnostic
  generalize m.diagnostics.write (Text.encode text) = result at left ⊢
  rcases result with ⟨message | _, diagnostics⟩
  · exact .fail left
  · exact .succeed True.intro

end Machine

/-- An action that fails leaves one of the listed machines. -/
theorem Action.perform_leaves (action : Action) (instr : Instruction) (m : Machine) :
    (action.perform instr m).FailsInto (action.Leaves instr m) := by
  cases action with
  | nothing | createFrame | clear => exact .succeed True.intro
  | ret | push | jump | jumpIf _ | exit => exact attempt_failsInto _ .same
  | move | unary _ | binary _ | setChar =>
      exact evaluate_failsInto .same fun value _ => assign_failsInto .same value
  | pushFrame => exact withFrames_failsInto m.frames.pushTemporary_unharmed .same
  | popFrame => exact withFrames_failsInto m.frames.popTemporary_unharmed .same
  | defVar =>
      exact evaluate_failsInto .same fun var _ =>
        withFrames_failsInto (m.frames.declare_unharmed var) .same
  | call => exact evaluate_failsInto .same fun label named => enter_leaves rfl named
  | pop => exact popThen_leaves rfl fun value _ left => assign_failsInto left value
  | unaryStack op => exact popThen_leaves rfl fun a _ left => attempt_failsInto _ left
  | binaryStack op => exact popTwoThen_leaves rfl
  | jumpIfStack whenEqual =>
      exact evaluate_failsInto .same fun label _ => popTwoThen_leaves rfl
  | typeOf => exact evaluate_failsInto .same fun value _ => assign_failsInto .same _
  | read => exact evaluate_failsInto .same fun type _ => readInto_leaves rfl type
  | write => exact evaluate_failsInto .same fun value _ => emit_leaves rfl value.text
  | print =>
      exact evaluate_failsInto .same fun value _ => emitDiagnostic_leaves (.inl rfl) value.text
  | report =>
      rw [perform]
      exact emitDiagnostic_leaves (.inr rfl) _

/-! ### What is read off the list -/

namespace Action.Leaves

variable {action : Action} {instr : Instruction} {m m' : Machine}

/-- No failing action changes the program, the labels, the current index or the count. -/
theorem setting (leaves : action.Leaves instr m m') : SameSetting m m' := by
  cases leaves <;> exact ⟨rfl, rfl, rfl, rfl⟩

/-- No failing action changes the frames, the counter or the exit code. -/
theorem untouched (leaves : action.Leaves instr m m') :
    m'.frames = m.frames ∧ m'.pc = m.pc ∧ m'.exitCode = m.exitCode := by
  cases leaves <;> exact ⟨rfl, rfl, rfl⟩

/-- A failing action has taken nothing from the data stack, or values from its top. -/
theorem dataStack (leaves : action.Leaves instr m m') :
    m'.dataStack = m.dataStack ∨ ∃ values, values ≠ [] ∧ values.length ≤ action.takes ∧
      m.dataStack.items = values ++ m'.dataStack.items := by
  cases leaves with
  | taken items nonempty count => exact .inr ⟨_, nonempty, count, items⟩
  | _ => exact .inl rfl

/-- A failing action has left the calls alone, unless it calls a label without a target. -/
theorem calls (leaves : action.Leaves instr m m') :
    (m'.callStack = m.callStack ∧ m'.function = m.function) ∨
      ∃ label, action = .call ∧ instr.target = .ok label ∧ m.target? label = none ∧
        m'.function = none ∧
          m'.callStack = m.callStack.push ⟨m.pc.getD m.program.size, m.function⟩ := by
  cases leaves with
  | called calls named missing => exact .inr ⟨_, calls, named, missing, rfl, rfl⟩
  | _ => exact .inl ⟨rfl, rfl⟩

/-- A failing action has read nothing, unless it reads, and then one line. -/
theorem input (leaves : action.Leaves instr m m') :
    m'.input = m.input ∨ action = .read ∧ m'.input = m.input.readLine.2 := by
  cases leaves with
  | read reads => exact .inr ⟨reads, rfl⟩
  | _ => exact .inl rfl

theorem output (leaves : action.Leaves instr m m') : m'.output = m.output ∨ action = .write := by
  cases leaves with
  | written writes => exact .inr writes
  | _ => exact .inl rfl

theorem diagnostics (leaves : action.Leaves instr m m') :
    m'.diagnostics = m.diagnostics ∨ action = .print ∨ action = .report := by
  cases leaves with
  | diagnosed diagnoses => exact .inr diagnoses
  | _ => exact .inl rfl

end Action.Leaves

/-! ### The opcodes behind the actions -/

namespace Opcode

theorem action_eq_read_iff {op : Opcode} : op.action = .read ↔ op = .read := by
  cases op <;> simp [action]

theorem action_eq_write_iff {op : Opcode} : op.action = .write ↔ op = .write := by
  cases op <;> simp [action]

/-- The actions that write diagnostics belong to the two opcodes for debugging. -/
theorem action_debug_iff {op : Opcode} :
    op.action = .print ∨ op.action = .report ↔ op = .dprint ∨ op = .breakpoint := by
  cases op <;> simp [action]

/-- No opcode takes more than two values from the data stack. -/
theorem takes_le (op : Opcode) : op.action.takes ≤ 2 := by
  cases op <;> decide

/-- Values are taken from the data stack by the pop and by the stack forms of other opcodes. -/
theorem takes_pos {op : Opcode} (takes : 0 < op.action.takes) :
    op = .pops ∨ ∃ other : Opcode, other.stackForm? = some op := by
  have all : ∀ op ∈ Opcode.all, 0 < op.action.takes →
      op = .pops ∨ ∃ other ∈ Opcode.all, other.stackForm? = some op := by
    decide +kernel
  refine (all op op.mem_all takes).imp_right ?_
  rintro ⟨other, -, form⟩
  exact ⟨other, form⟩

end Opcode

/-- What an instruction that fails may have changed all the same. -/
structure Instruction.Failed (instr : Instruction) (m m' : Machine) : Prop where
  setting : SameSetting m m'
  frames : m'.frames = m.frames
  pc : m'.pc = m.pc
  exitCode : m'.exitCode = m.exitCode
  /-- One or two values may be gone, no more than the opcode works on. -/
  dataStack : m'.dataStack = m.dataStack ∨
    (instr.opcode = .pops ∨ ∃ op : Opcode, op.stackForm? = some instr.opcode) ∧
      ∃ values, m.dataStack.items = values ++ m'.dataStack.items ∧
        (values.length = 1 ∨ values.length = 2) ∧ values.length ≤ instr.opcode.action.takes
  /-- A call of a missing label has saved where to return to, and left the running function. -/
  calls : (m'.callStack = m.callStack ∧ m'.function = m.function) ∨
    (∃ label, instr.CallsMissing m.labels label) ∧ m'.function = none ∧
      m'.callStack = m.callStack.push ⟨m.pc.getD m.program.size, m.function⟩
  /-- No more than a line is read. -/
  input : m'.input = m.input ∨ instr.opcode = .read ∧ m'.input = m.input.readLine.2
  output : m'.output = m.output ∨ instr.opcode = .write
  diagnostics : m'.diagnostics = m.diagnostics ∨
    instr.opcode = .dprint ∨ instr.opcode = .breakpoint

/-- Whatever the machine is and whatever operands an instruction has: if it fails, the frames, the
program counter, the labels, the exit code and the count of instructions are as before. It has taken
from the data stack no more than it works on, used no channel but its own, and entered no function;
the call of a missing label alone has changed the call stack. -/
theorem Instruction.failed_of_perform {instr : Instruction} {m out : Machine} {fault : Fault}
    (fails : instr.perform m = out.fail fault) : instr.Failed m out := by
  have leaves : instr.opcode.action.Leaves instr m out := by
    have ensured := instr.opcode.action.perform_leaves instr m
    rw [← Instruction.perform, fails] at ensured
    exact ensured
  obtain ⟨frames, pc, exitCode⟩ := leaves.untouched
  refine ⟨leaves.setting, frames, pc, exitCode, ?_, ?_, ?_, ?_, ?_⟩
  · refine leaves.dataStack.imp_right ?_
    rintro ⟨values, nonempty, count, items⟩
    have positive := List.length_pos_iff.mpr nonempty
    have bound := instr.opcode.takes_le
    exact ⟨Opcode.takes_pos (by omega), values, items, by omega, count⟩
  · refine leaves.calls.imp_right ?_
    rintro ⟨label, calls, named, missing, function, callStack⟩
    have opcode := Opcode.action_eq_call_iff.mp calls
    exact ⟨⟨label, opcode, named, missing⟩, function, callStack⟩
  · exact leaves.input.imp_right (And.imp_left Opcode.action_eq_read_iff.mp)
  · exact leaves.output.imp_right Opcode.action_eq_write_iff.mp
  · exact leaves.diagnostics.imp_right Opcode.action_debug_iff.mp

/-- A machine with three values on its data stack, the topmost of which is not a number, that is to
subtract and then to call. -/
def Machine.holdingMixed : Machine where
  program := { instructions := #[.of 1 .subs [], .of 2 .call [.label "f"]] }
  dataStack := ⟨[.bool true, .int 5, .int 3]⟩
  input := { pending := [] }

/-- The subtraction of a truth value fails after both values are taken, a call of a label that is
not there after the record is saved. -/
theorem Machine.holdingMixed_fails :
    (∃ (out : Machine) (fault : Fault),
      (Instruction.of 1 .subs []).perform holdingMixed = out.fail fault ∧
        out.dataStack.items = [.int 3] ∧ (Instruction.of 1 .subs []).Failed holdingMixed out) ∧
      ∃ (out : Machine) (fault : Fault),
        (Instruction.of 2 .call [.label "f"]).perform holdingMixed = out.fail fault ∧
          out.callStack.size = 1 ∧
            (Instruction.of 2 .call [.label "f"]).Failed holdingMixed out := by
  constructor
  · exact ⟨_, _, rfl, rfl, Instruction.failed_of_perform rfl⟩
  · exact ⟨_, _, rfl, rfl, Instruction.failed_of_perform rfl⟩

end FrameCode
