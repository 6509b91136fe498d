import FrameCode.Proofs.Fallible

/-!
Transport of machines. Two machines can do the same while their instructions stand at other indices,
their label tables point elsewhere and their channels are not the same. A `Transport` says how one
machine is turned into the other, and `perform_apply` says that an instruction commutes with it, as
long as the channels that it uses and the label it names are transported faithfully.
-/

namespace FrameCode

open Text (Bytes)

/-- How to turn a machine into another one that does the same. -/
structure Transport where
  program : Program
  labels : Labels
  /-- Where an index of the one program lies in the other. -/
  index : Nat → Nat
  input : Input → Input
  output : Sink → Sink
  diagnostics : Sink → Sink

def Outcome.map {ε : Type} (f : Machine → Machine) (outcome : Outcome ε) : Outcome ε :=
  ⟨outcome.result, f outcome.machine⟩

/-- The opcodes for debugging are those that write diagnostics. -/
theorem Opcode.kind_eq_debug_iff {op : Opcode} :
    op.kind = .debug ↔ op.action = .print ∨ op.action = .report := by
  cases op <;> simp [kind, action]

namespace Transport

def record (t : Transport) (saved : CallRecord) : CallRecord :=
  { saved with returnTo := t.index saved.returnTo }

def apply (t : Transport) (m : Machine) : Machine :=
  { m with
    program := t.program
    labels := t.labels
    pc := m.pc.map t.index
    current := m.current.map t.index
    callStack := ⟨m.callStack.items.map t.record⟩
    input := t.input m.input
    output := t.output m.output
    diagnostics := t.diagnostics m.diagnostics }

/-- The transport does not show in what an instruction does to a machine. -/
structure Faithful (t : Transport) (instr : Instruction) (m : Machine) : Prop where
  running : m.pc.isSome
  labels : ∀ label : String, t.labels[label]? = (m.labels[label]?).map t.index
  reads : instr.opcode.action = .read →
    (t.input m.input).readLine = (m.input.readLine.1, t.input m.input.readLine.2)
  writes : instr.opcode.action = .write → ∀ value, m.source instr 1 = .ok value →
    let chunk := Text.encode value.text
    (t.output m.output).write chunk = ((m.output.write chunk).1, t.output (m.output.write chunk).2)

variable {t : Transport} {m : Machine} {instr : Instruction} {α : Type}

/-! ### Computations that transport commutes with -/

/-- An attempt is transported with the computation in it. -/
theorem attempt_apply {x x' : Except Fault Machine} (h : x' = x.map t.apply) :
    (t.apply m).attempt x' = (m.attempt x).map t.apply := by
  subst h
  cases x with
  | ok m' => rfl
  | error fault => rfl

/-- Values are computed alike in both machines, so only the rest of a sequence matters. -/
theorem bind_apply {x : Except Fault α} {next next' : α → Except Fault Machine}
    (h : ∀ a, next' a = (next a).map t.apply) : x >>= next' = (x >>= next).map t.apply := by
  cases x with
  | ok a => exact h a
  | error fault => rfl

/-- A sequence is transported if each of its parts is. -/
theorem bind_apply_of_eq {x x' : Except Fault Machine} {next next' : Machine → Except Fault Machine}
    (eq : x' = x.map t.apply) (h : ∀ m, next' (t.apply m) = (next m).map t.apply) :
    x' >>= next' = (x >>= next).map t.apply := by
  subst eq
  cases x with
  | ok m => exact h m
  | error fault => rfl

/-- The data stack is the same in both machines. -/
theorem popThen_apply {next next' : Value → Machine → Outcome Fault}
    (h : ∀ value dataStack, next' value (t.apply { m with dataStack }) =
      (next value { m with dataStack }).map t.apply) :
    (t.apply m).popThen next' = (m.popThen next).map t.apply := by
  have same : (t.apply m).dataStack = m.dataStack := rfl
  unfold Machine.popThen
  rw [same]
  cases m.dataStack.pop (Fault.missingValue (.emptyStack "data")) with
  | ok popped => exact h popped.1 popped.2
  | error fault => rfl

theorem popTwoThen_apply {next next' : Value → Value → Machine → Outcome Fault}
    (h : ∀ a b dataStack, next' a b (t.apply { m with dataStack }) =
      (next a b { m with dataStack }).map t.apply) :
    (t.apply m).popTwoThen next' = (m.popTwoThen next).map t.apply :=
  popThen_apply fun b _ => popThen_apply fun a dataStack => h a b dataStack

/-- A value that is found alike leaves the rest to be transported. -/
theorem evaluate_apply {value : Except Fault α} {next next' : α → Outcome Fault}
    (h : ∀ a, value = .ok a → next' a = (next a).map t.apply) :
    (t.apply m).evaluate value next' = (m.evaluate value next).map t.apply := by
  cases value with
  | ok a => exact h a rfl
  | error fault => rfl

/-- The frames are the same in both machines. -/
theorem withFrames_apply (change : Except Fault Unit × Frames) :
    (t.apply m).withFrames change = (m.withFrames change).map t.apply := by
  obtain ⟨result, frames⟩ := change
  cases result with
  | ok done => rfl
  | error fault => rfl

theorem assign_apply (value : Value) :
    (t.apply m).assign instr value = (m.assign instr value).map t.apply :=
  evaluate_apply fun _ _ => withFrames_apply _

/-- A return passes control to the place that the saved one lies at. -/
theorem leave_apply : (t.apply m).leave = m.leave.map t.apply := by
  have items : (t.apply m).callStack.items = m.callStack.items.map t.record := rfl
  unfold Machine.leave Stack.pop
  rw [items]
  cases m.callStack.items with
  | nil => rfl
  | cons record rest => rfl

section Labels

variable (labels : ∀ label : String, t.labels[label]? = (m.labels[label]?).map t.index)
include labels

/-- A label has a target in both machines or in none. -/
theorem jumpTo_apply (label : String) :
    (t.apply m).jumpTo label = (m.jumpTo label).map t.apply := by
  have target : (t.apply m).target? label = (m.target? label).map t.index := labels label
  unfold Machine.jumpTo
  rw [target]
  cases m.target? label with
  | none => rfl
  | some index => rfl

/-- Conditions do not depend on where instructions stand. -/
theorem jumpWhen_apply (whenEqual : Bool) (label : String) (a b : Value) :
    (t.apply m).jumpWhen whenEqual label a b = (m.jumpWhen whenEqual label a b).map t.apply := by
  refine bind_apply fun equal => ?_
  split
  · exact jumpTo_apply labels label
  · rfl

/-- A call saves the place that the next instruction lies at. -/
theorem enter_apply (running : m.pc.isSome) (label : String) :
    (t.apply m).enter label = (m.enter label).map t.apply := by
  obtain ⟨index, pc⟩ := Option.isSome_iff_exists.mp running
  -- A running machine saves its next index, and never the size of its program in place of it.
  have saved :
      ({ t.apply m with
          callStack := (t.apply m).callStack.push ⟨(t.apply m).pc.getD t.program.size, m.function⟩
          function := none } : Machine) =
        t.apply
          { m with
            callStack := m.callStack.push ⟨m.pc.getD m.program.size, m.function⟩
            function := none } := by
    simp [apply, Stack.push, record, pc]
  refine (congrArg (fun start : Machine => start.attempt do
    let out ← start.jumpTo label
    return { out with function := some label }) saved).trans ?_
  refine attempt_apply (bind_apply_of_eq (jumpTo_apply ?_ label) fun _ => rfl)
  exact labels

end Labels

/-! ### Instructions -/

open Machine

/-- Reading is transported if the input of the other machine answers alike. -/
theorem readInto_apply (faithful : (t.input m.input).readLine =
      (m.input.readLine.1, t.input m.input.readLine.2)) (type : DataType) :
    (t.apply m).readInto instr type = (m.readInto instr type).map t.apply := by
  have input : (t.apply m).input = t.input m.input := rfl
  unfold readInto
  rw [input, faithful]
  rcases m.input.readLine with ⟨message | line, rest⟩
  · rfl
  · refine evaluate_apply (m := { m with input := rest }) fun value _ => ?_
    exact assign_apply (m := { m with input := rest }) value

/-- Writing is transported if the output of the other machine answers alike. -/
theorem emit_apply {text : String} (faithful : (t.output m.output).write (Text.encode text) =
      ((m.output.write (Text.encode text)).1, t.output (m.output.write (Text.encode text)).2)) :
    (t.apply m).emit text = (m.emit text).map t.apply := by
  have output : (t.apply m).output = t.output m.output := rfl
  unfold emit
  rw [output, faithful]
  rfl

/-- Every instruction but those for debugging commutes with transport. -/
theorem perform_apply (faithful : t.Faithful instr m) (plain : instr.opcode.kind ≠ .debug) :
    instr.perform (t.apply m) = (instr.perform m).map t.apply := by
  rw [Ne, Opcode.kind_eq_debug_iff, not_or] at plain
  unfold Instruction.perform
  cases action : instr.opcode.action with
  | nothing | createFrame | clear => rfl
  | move | unary op | binary op | setChar => exact evaluate_apply fun value _ => assign_apply value
  | pushFrame | popFrame => exact withFrames_apply _
  | defVar => exact evaluate_apply fun var _ => withFrames_apply _
  | call =>
      exact evaluate_apply fun label _ => enter_apply faithful.labels faithful.running label
  | ret => exact attempt_apply leave_apply
  | push => exact attempt_apply (bind_apply fun value => rfl)
  | pop =>
      unfold Action.perform
      refine popThen_apply fun value dataStack => ?_
      exact assign_apply (m := { m with dataStack }) value
  | unaryStack op =>
      unfold Action.perform
      refine popThen_apply fun a dataStack => ?_
      exact attempt_apply (m := { m with dataStack }) (bind_apply fun value => rfl)
  | binaryStack op =>
      refine popTwoThen_apply fun a b dataStack => ?_
      exact attempt_apply (m := { m with dataStack }) (bind_apply fun value => rfl)
  | typeOf => exact evaluate_apply fun value _ => assign_apply _
  | read => exact evaluate_apply fun type _ => readInto_apply (faithful.reads action) type
  | write => exact evaluate_apply fun value found => emit_apply (faithful.writes action value found)
  | print => exact absurd action plain.1
  | report => exact absurd action plain.2
  | jump => exact attempt_apply (bind_apply fun label => jumpTo_apply faithful.labels label)
  | jumpIf whenEqual =>
      exact attempt_apply (bind_apply fun label => bind_apply fun a => bind_apply fun b =>
        jumpWhen_apply faithful.labels whenEqual label a b)
  | jumpIfStack whenEqual =>
      refine evaluate_apply fun label _ => popTwoThen_apply fun a b dataStack => ?_
      refine attempt_apply (m := { m with dataStack }) (jumpWhen_apply ?_ whenEqual label a b)
      exact faithful.labels
  | exit => exact attempt_apply (bind_apply fun value => bind_apply fun code => rfl)

end Transport

end FrameCode
