import FrameCode.Proofs.FailureEffects
import FrameCode.Proofs.Machine.Variables

/-!
What an instruction that succeeds may change. Each component of a machine belongs to a few opcodes
and is left alone by all others: `Opcode.Restacks` is the list for the data stack, which says as
well how each opcode changes it, and `Reframes` the one for the variables. For the data stack and
the channels the actions are gone through here (`perform_footprint`); where control goes and what
becomes of the variables is known already.
-/

namespace FrameCode

open Machine

/-! ### Opcodes and the data stack -/

/-- What an opcode does to the data stack, which is given with the top first. -/
def Opcode.Restacks (op : Opcode) (before after : List Value) : Prop :=
  match op with
  | .pushs => ∃ value, after = value :: before
  | .pops => ∃ value, before = value :: after
  | .clears => after = []
  | .adds | .subs | .muls | .divs | .idivs | .lts | .gts | .eqs | .ands | .ors | .stri2ints =>
      ∃ a b value rest, before = b :: a :: rest ∧ after = value :: rest
  | .nots | .int2chars | .int2floats | .float2ints =>
      ∃ a value rest, before = a :: rest ∧ after = value :: rest
  | .jumpIfEqs | .jumpIfNeqs => ∃ a b, before = b :: a :: after
  | _ => after = before

namespace Action

def Restacks (action : Action) (before after : List Value) : Prop :=
  match action with
  | .push => ∃ value, after = value :: before
  | .pop => ∃ value, before = value :: after
  | .clear => after = []
  | .binaryStack _ => ∃ a b value rest, before = b :: a :: rest ∧ after = value :: rest
  | .unaryStack _ => ∃ a value rest, before = a :: rest ∧ after = value :: rest
  | .jumpIfStack _ => ∃ a b, before = b :: a :: after
  | _ => after = before

/-- What an action that succeeds does to the data stack and to the channels. -/
structure Footprint (action : Action) (m m' : Machine) : Prop where
  dataStack : action.Restacks m.dataStack.items m'.dataStack.items
  input : m'.input = m.input ∨ action = .read ∧ m'.input = m.input.readLine.2
  output : m'.output = m.output ∨ action = .write
  diagnostics : m'.diagnostics = m.diagnostics ∨ action = .print ∨ action = .report

def isQuiet : Action → Bool
  | .push | .pop | .clear | .unaryStack _ | .binaryStack _ | .jumpIfStack _ => false
  | .read | .write | .print | .report => false
  | _ => true

end Action

/-- What an opcode does to the data stack is what its action does. -/
theorem Opcode.restacks_of_action {op : Opcode} {before after : List Value}
    (restacks : op.action.Restacks before after) : op.Restacks before after := by
  cases op <;> exact restacks

/-! ### Actions -/

structure Quiet (m m' : Machine) : Prop where
  dataStack : m'.dataStack = m.dataStack
  input : m'.input = m.input
  output : m'.output = m.output
  diagnostics : m'.diagnostics = m.diagnostics

def Outcome.SucceedsInto (left : Machine → Prop) (outcome : Outcome Fault) : Prop :=
  outcome.Ensures left (fun _ _ => True)

namespace Quiet

variable {action : Action} {m m' : Machine}

/-- What an action has done to the data stack before the rest of it was quiet. -/
theorem footprint {dataStack : Stack Value} (quiet : Quiet { m with dataStack } m')
    (restacks : action.Restacks m.dataStack.items dataStack.items) : action.Footprint m m' := by
  refine ⟨?_, .inl quiet.input, .inl quiet.output, .inl quiet.diagnostics⟩
  rw [quiet.dataStack]
  exact restacks

end Quiet

namespace Machine

variable {m : Machine} {instr : Instruction} {action : Action}

/-- A computation that leaves the data stack and the channels as they are. -/
def Hushes (m : Machine) (x : Except Fault Machine) : Prop :=
  Ensures (Quiet m) (fun _ => True) x

/-- A jump uses neither the data stack nor a channel. -/
theorem jumpTo_hushes (label : String) : m.Hushes (m.jumpTo label) := by
  refine (jumpTo_ensures label).mono ?_ fun _ _ => True.intro
  rintro m' ⟨index, -, rfl⟩
  exact ⟨rfl, rfl, rfl, rfl⟩

theorem jumpWhen_hushes (whenEqual : Bool) (label : String) (a b : Value) :
    m.Hushes (m.jumpWhen whenEqual label a b) := by
  refine .last fun equal => ?_
  split
  · exact jumpTo_hushes label
  · exact ⟨rfl, rfl, rfl, rfl⟩

/-- A return uses neither the data stack nor a channel. -/
theorem leave_hushes : m.Hushes m.leave := by
  refine leave_ensures.mono ?_ fun _ _ => True.intro
  rintro m' ⟨record, rest, -, rfl⟩
  exact ⟨rfl, rfl, rfl, rfl⟩

theorem evaluate_succeedsInto {α : Type} {value : Except Fault α} {next : α → Outcome Fault}
    {left : Machine → Prop} (h : ∀ a, (next a).SucceedsInto left) :
    (m.evaluate value next).SucceedsInto left :=
  evaluate_ensures (fun _ _ => True.intro) fun a _ => h a

/-- Operations on the frames use neither the data stack nor a channel. -/
theorem withFrames_quiet (change : Except Fault Unit × Frames) :
    (m.withFrames change).SucceedsInto (Quiet m) := by
  obtain ⟨_ | _, frames⟩ := change
  · exact .fail True.intro
  · exact .succeed ⟨rfl, rfl, rfl, rfl⟩

theorem assign_quiet (value : Value) : (m.assign instr value).SucceedsInto (Quiet m) :=
  evaluate_succeedsInto fun _ => withFrames_quiet _

/-- A call uses neither the data stack nor a channel. -/
theorem enter_quiet (label : String) : (m.enter label).SucceedsInto (Quiet m) := by
  refine .attempt_of_ok (.bind (jumpTo_hushes label) ?_) fun _ => True.intro
  rintro m' ⟨dataStack, input, output, diagnostics⟩
  exact ⟨dataStack, input, output, diagnostics⟩

theorem attempt_quiet {x : Except Fault Machine} (hushes : m.Hushes x) :
    (m.attempt x).SucceedsInto (Quiet m) :=
  .attempt_of_ok hushes fun _ => True.intro

end Machine

/-- Actions that use neither the data stack nor a channel leave them as they are. -/
theorem Action.perform_quiet {action : Action} (quiet : action.isQuiet = true)
    (instr : Instruction) (m : Machine) : (action.perform instr m).SucceedsInto (Quiet m) := by
  cases action with
  | nothing | createFrame => exact .succeed ⟨rfl, rfl, rfl, rfl⟩
  | move | unary op | binary op | setChar =>
      exact evaluate_succeedsInto fun value => assign_quiet value
  | pushFrame | popFrame => exact withFrames_quiet _
  | defVar => exact evaluate_succeedsInto fun var => withFrames_quiet _
  | call => exact evaluate_succeedsInto fun label => enter_quiet label
  | ret => exact attempt_quiet leave_hushes
  | typeOf => exact evaluate_succeedsInto fun value => assign_quiet _
  | jump => exact attempt_quiet (.last fun label => jumpTo_hushes label)
  | jumpIf whenEqual =>
      exact attempt_quiet (.last fun label => .last fun a => .last fun b =>
        jumpWhen_hushes whenEqual label a b)
  | exit => exact attempt_quiet (.last fun value => .last fun code => ⟨rfl, rfl, rfl, rfl⟩)
  | push | pop | clear | unaryStack _ | binaryStack _ | jumpIfStack _ | read | write | print
  | report => cases quiet

namespace Machine

variable {m : Machine} {instr : Instruction} {action : Action}

/-- What is left to show once the top of the data stack is taken. -/
theorem popThen_footprint {next : Value → Machine → Outcome Fault}
    (h : ∀ value rest, m.dataStack.items = value :: rest →
      (next value { m with dataStack := ⟨rest⟩ }).SucceedsInto (action.Footprint m)) :
    (m.popThen next).SucceedsInto (action.Footprint m) :=
  popThen_ensures True.intro h

/-- What is left to show once the two topmost values are taken. -/
theorem popTwoThen_footprint {next : Value → Value → Machine → Except Fault Machine}
    (h : ∀ a b rest, m.dataStack.items = b :: a :: rest →
      Ensures (action.Footprint m) (fun _ => True) (next a b { m with dataStack := ⟨rest⟩ })) :
    (m.popTwoThen fun a b m => m.attempt (next a b m)).SucceedsInto (action.Footprint m) := by
  refine popThen_ensures True.intro fun b below items => ?_
  refine popThen_ensures True.intro fun a rest items' => ?_
  change below = a :: rest at items'
  subst items'
  exact .attempt_of_ok (h a b rest items) fun _ => True.intro

/-- Reading takes one line and leaves the data stack and the other channels alone. -/
theorem readInto_footprint (reads : action = .read) (type : DataType) :
    (m.readInto instr type).SucceedsInto (action.Footprint m) := by
  subst reads
  unfold readInto
  generalize result : m.input.readLine = read
  obtain ⟨message | line, input⟩ := read
  · exact .fail True.intro
  · have rest : input = m.input.readLine.2 := by rw [result]
    refine evaluate_succeedsInto fun value => (assign_quiet value).mono ?_ fun _ _ h => h
    intro m' quiet
    refine ⟨?_, .inr ⟨rfl, quiet.input.trans rest⟩, .inl quiet.output, .inl quiet.diagnostics⟩
    exact congrArg Stack.items quiet.dataStack

/-- Writing changes the output alone. -/
theorem emit_footprint (writes : action = .write) (text : String) :
    (m.emit text).SucceedsInto (action.Footprint m) := by
  subst writes
  unfold emit
  obtain ⟨message | _, output⟩ := m.output.write (Text.encode text)
  · exact .fail True.intro
  · exact .succeed ⟨rfl, .inl rfl, .inr rfl, .inl rfl⟩

theorem emitDiagnostic_footprint (diagnoses : action = .print ∨ action = .report) (text : String) :
    (m.emitDiagnostic text).SucceedsInto (action.Footprint m) := by
  refine (emitDiagnostic_ensures text).mono ?_ fun _ _ _ => True.intro
  rintro m' ⟨diagnostics, rfl⟩
  refine ⟨?_, .inl rfl, .inl rfl, .inr diagnoses⟩
  rcases diagnoses with rfl | rfl
  · exact rfl
  · exact rfl

end Machine

theorem Action.Restacks.of_isQuiet {action : Action} (quiet : action.isQuiet = true)
    (items : List Value) : action.Restacks items items := by
  cases action with
  | push | pop | clear | unaryStack _ | binaryStack _ | jumpIfStack _ => cases quiet
  | _ => exact rfl

/-- What an action that succeeds does to the data stack and to the channels. -/
theorem Action.perform_footprint (action : Action) (instr : Instruction) (m : Machine) :
    (action.perform instr m).SucceedsInto (action.Footprint m) := by
  cases quiet : action.isQuiet with
  | true =>
      refine (Action.perform_quiet quiet instr m).mono ?_ fun _ _ h => h
      intro m' same
      exact same.footprint (.of_isQuiet quiet _)
  | false =>
      cases action with
      | push =>
          refine .attempt_of_ok (.last fun value => ?_) fun _ => True.intro
          exact ⟨⟨value, rfl⟩, .inl rfl, .inl rfl, .inl rfl⟩
      | pop =>
          refine popThen_footprint fun value rest items => ?_
          refine (assign_quiet value).mono ?_ fun _ _ h => h
          exact fun m' same => same.footprint ⟨value, items⟩
      | clear => exact .succeed ⟨rfl, .inl rfl, .inl rfl, .inl rfl⟩
      | unaryStack op =>
          refine popThen_footprint fun a rest items => ?_
          refine .attempt_of_ok (.last fun value => ?_) fun _ => True.intro
          exact ⟨⟨a, value, rest, items, rfl⟩, .inl rfl, .inl rfl, .inl rfl⟩
      | binaryStack op =>
          refine popTwoThen_footprint fun a b rest items => .last fun value => ?_
          exact ⟨⟨a, b, value, rest, items, rfl⟩, .inl rfl, .inl rfl, .inl rfl⟩
      | jumpIfStack whenEqual =>
          refine evaluate_succeedsInto fun label => popTwoThen_footprint fun a b rest items => ?_
          refine (jumpWhen_hushes whenEqual label a b).mono ?_ fun _ h => h
          exact fun m' same => same.footprint ⟨a, b, items⟩
      | read => exact evaluate_succeedsInto fun type => readInto_footprint rfl type
      | write => exact evaluate_succeedsInto fun value => emit_footprint rfl value.text
      | print =>
          exact evaluate_succeedsInto fun value => emitDiagnostic_footprint (.inl rfl) value.text
      | report =>
          rw [perform]
          exact emitDiagnostic_footprint (.inr rfl) _
      | _ => cases quiet

/-! ### Variables -/

/-- Exactly one slot is set. All other slots are as before, in the frames that can be reached and in
those below the local one, and so is which frames there are. -/
structure Frames.SetsSlot (var : Variable) (slot : Option Value) (frames frames' : Frames) :
    Prop where
  slots : ∀ other, frames'.slot? other = if other = var then some slot else frames.slot? other
  present : ∀ tag, (frames'.frame? tag).isSome = (frames.frame? tag).isSome
  hidden : frames'.locals.items.tail = frames.locals.items.tail

namespace Frames

variable {frames frames' : Frames} {var : Variable}

/-- Setting a name in a frame that is there sets one slot. -/
theorem setsSlot_setFrame {frame : Frame} (present : frames.frame? var.frame = some frame)
    (slot : Option Value) :
    SetsSlot var slot frames (frames.setFrame var.frame (frame.set var.name slot)) where
  slots := slot?_setFrame present slot
  present tag := by
    rw [frame?_setFrame]
    split
    · next same => rw [same, present, Option.isSome_some, Option.isSome_some]
    · rfl
  hidden := by
    cases var.frame <;> rfl

/-- A declaration sets a slot that was not there, to no value. -/
theorem setsSlot_of_declare (declared : frames.declare var = (.ok (), frames')) :
    frames.slot? var = none ∧ SetsSlot var none frames frames' := by
  obtain ⟨frame, present, free, rfl⟩ := declare_eq_ok_iff.mp declared
  exact ⟨(slot?_of_frame? present).trans free, setsSlot_setFrame present none⟩

/-- Storing sets a slot that was there already. -/
theorem setsSlot_of_write {value : Value} (written : frames.write var value = (.ok (), frames')) :
    (frames.slot? var).isSome ∧ SetsSlot var (some value) frames frames' := by
  obtain ⟨frame, present, held, rfl⟩ := write_eq_ok_iff.mp written
  exact ⟨by rwa [slot?_of_frame? present], setsSlot_setFrame present (some value)⟩

end Frames

namespace Opcode

def hasDestination (op : Opcode) : Bool :=
  op.signature.head? = some .var && !op.declaresVariable

/-- The opcode replaces, takes away or brings back a whole frame. -/
def movesFrame : Opcode → Bool
  | .createFrame | .pushFrame | .popFrame => true
  | _ => false

/-- The actions that store belong to the opcodes with a destination. -/
theorem stores_action (op : Opcode) : op.action.stores = op.hasDestination := by
  cases op <;> rfl

/-- The actions that arrange belong to the opcodes that move a frame or declare. -/
theorem arranges_action (op : Opcode) :
    op.action.arranges = (op.movesFrame || op.declaresVariable) := by
  cases op <;> rfl

end Opcode

/-- What an instruction that succeeds does to the variables. -/
inductive Instruction.Reframes (instr : Instruction) (frames frames' : Frames) : Prop where
  | same (opcode : instr.opcode.hasDestination = false ∧ instr.opcode.movesFrame = false ∧
      instr.opcode ≠ .defVar) (eq : frames' = frames)
  | moved (opcode : instr.opcode.movesFrame = true)
  | declared {var : Variable} (opcode : instr.opcode = .defVar)
      (named : instr.argument? 1 = some (.variable var)) (new : frames.slot? var = none)
      (sets : frames.SetsSlot var none frames')
  | stored {var : Variable} {value : Value} (opcode : instr.opcode.hasDestination = true)
      (named : instr.argument? 1 = some (.variable var)) (old : (frames.slot? var).isSome)
      (sets : frames.SetsSlot var (some value) frames')

/-- What an instruction that succeeds has done to the variables. -/
theorem Instruction.reframes_of_perform {instr : Instruction} {m out : Machine}
    (succeeds : instr.perform m = out.succeed) : instr.Reframes m.frames out.frames := by
  have result := congrArg Outcome.result succeeds
  cases stores : instr.opcode.action.stores with
  | true =>
      have stored := (Action.perform_stores stores instr m).ok result
      rw [← Instruction.perform, succeeds] at stored
      obtain ⟨var, value, destination, written⟩ := stored
      obtain ⟨old, sets⟩ := Frames.setsSlot_of_write written
      rw [Opcode.stores_action] at stores
      exact .stored stores (destination_eq_ok_iff.mp destination) old sets
  | false =>
      cases arranges : instr.opcode.action.arranges with
      | false =>
          have kept := (Action.perform_keepsFrames stores arranges instr m).ok result
          rw [← Instruction.perform, succeeds] at kept
          rw [Opcode.arranges_action, Bool.or_eq_false_iff] at arranges
          rw [Opcode.stores_action] at stores
          refine .same ⟨stores, arranges.1, fun opcode => ?_⟩ kept
          rw [opcode] at arranges
          cases arranges.2
      | true =>
          have touches := (instr.perform_touches m).ok result
          rw [succeeds] at touches
          rw [Opcode.arranges_action, Bool.or_eq_true] at arranges
          rcases arranges with moves | declares
          · exact .moved moves
          · -- Where a variable is declared, nothing else is possible.
            have opcode : instr.opcode = .defVar := by
              cases op : instr.opcode with
              | defVar => rfl
              | _ =>
                  rw [op] at declares
                  cases declares
            cases touches with
            | keep other | store other => exact absurd opcode other
            | declare _ destination declared =>
                obtain ⟨new, sets⟩ := Frames.setsSlot_of_declare declared
                exact .declared opcode (destination_eq_ok_iff.mp destination) new sets
            | create other | push other | pop other => cases opcode.symm.trans other

/-! ### Instructions -/

/-- What an instruction that succeeds may have changed, and what it has not. -/
structure Instruction.Succeeded (instr : Instruction) (m m' : Machine) : Prop where
  setting : SameSetting m m'
  dataStack : instr.opcode.Restacks m.dataStack.items m'.dataStack.items
  frames : instr.Reframes m.frames m'.frames
  calls : (m'.callStack = m.callStack ∧ m'.function = m.function) ∨
    instr.opcode = .call ∨ instr.opcode = .ret
  pc : m'.pc = m.pc ∨
    instr.opcode.isJump = true ∨ instr.opcode = .ret ∨ instr.opcode = .exit
  exitCode : m'.exitCode = m.exitCode ∨ instr.opcode = .exit
  /-- No more than a line is read. -/
  input : m'.input = m.input ∨ instr.opcode = .read ∧ m'.input = m.input.readLine.2
  output : m'.output = m.output ∨ instr.opcode = .write
  diagnostics : m'.diagnostics = m.diagnostics ∨
    instr.opcode = .dprint ∨ instr.opcode = .breakpoint

/-- Whatever the machine is and whatever operands an instruction has: if it succeeds, it has changed
only what belongs to its opcode. The data stack is changed by the opcodes that work on it, each in
its own way and with the values below untouched; of the variables exactly the one in the first
operand, unless a whole frame is moved; calls, control and the exit code by the opcodes for control
flow; each channel by its own; and the labels, the current index and the count of instructions by
none. -/
theorem Instruction.succeeded_of_perform {instr : Instruction} {m out : Machine}
    (succeeds : instr.perform m = out.succeed) : instr.Succeeded m out := by
  have result := congrArg Outcome.result succeeds
  have footprint : instr.opcode.action.Footprint m out := by
    have ensured := (instr.opcode.action.perform_footprint instr m).ok result
    rw [← Instruction.perform, succeeds] at ensured
    exact ensured
  obtain ⟨setting, moves⟩ : SameSetting m out ∧ Moves instr m out := by
    have ensured := (instr.perform_steers m).ok result
    rw [succeeds] at ensured
    exact ensured
  refine ⟨setting, Opcode.restacks_of_action footprint.dataStack, reframes_of_perform succeeds,
    ?_, ?_, ?_, ?_, ?_, ?_⟩
  · cases moves with
    | onward _ same | jump _ _ _ same | exit _ _ same => exact .inl ⟨same.callStack, same.function⟩
    | call opcode => exact .inr (.inl opcode)
    | ret opcode => exact .inr (.inr opcode)
  · cases moves with
    | onward _ same => exact .inl same.pc
    | jump opcode => exact .inr (.inl opcode.1)
    | call opcode => exact .inr (.inl (by rw [opcode]; rfl))
    | ret opcode => exact .inr (.inr (.inl opcode))
    | exit opcode => exact .inr (.inr (.inr opcode))
  · cases moves with
    | onward _ same | jump _ _ _ same | call _ _ _ same | ret _ _ same => exact .inl same.exitCode
    | exit opcode => exact .inr opcode
  · exact footprint.input.imp_right (And.imp_left Opcode.action_eq_read_iff.mp)
  · exact footprint.output.imp_right Opcode.action_eq_write_iff.mp
  · exact footprint.diagnostics.imp_right Opcode.action_debug_iff.mp

/-- A machine in a function, with a variable in the local frame, three values on its data stack and
a line of input. -/
def Machine.inFunction : Machine where
  program := { instructions := #[.of 1 .subs [], .of 2 .pops [.variable ⟨.local, "x"⟩],
    .of 3 .read [.variable ⟨.local, "x"⟩, .typeName .int], .of 4 .ret []] }
  frames := { locals := ⟨[({} : Frame).set "x" none, ({} : Frame).set "x" (some (.int 1))]⟩ }
  dataStack := ⟨[.int 5, .int 3, .bool true]⟩
  callStack := ⟨[⟨0, none⟩]⟩
  pc := some 1
  function := some "f"
  input := { pending := [55, 10, 56] }

/-- A subtraction replaces the two topmost values and a pop takes one away, which it stores as the
variable of the function and not as that of the caller. Reading takes a line, and a return the
record of the call. -/
theorem Machine.inFunction_succeeds :
    (∃ out : Machine, (Instruction.of 1 .subs []).perform inFunction = out.succeed ∧
        out.dataStack.items = [.int (-2), .bool true] ∧
          (Instruction.of 1 .subs []).Succeeded inFunction out) ∧
      (∃ out : Machine,
        (Instruction.of 2 .pops [.variable ⟨.local, "x"⟩]).perform inFunction = out.succeed ∧
          out.dataStack.items = [.int 3, .bool true] ∧
            out.frames.read ⟨.local, "x"⟩ = .ok (.int 5) ∧
              (Instruction.of 2 .pops [.variable ⟨.local, "x"⟩]).Succeeded inFunction out) ∧
        (∃ out : Machine, (Instruction.of 3 .read
            [.variable ⟨.local, "x"⟩, .typeName .int]).perform inFunction = out.succeed ∧
          out.input.pending = [56] ∧ (Instruction.of 3 .read
            [.variable ⟨.local, "x"⟩, .typeName .int]).Succeeded inFunction out) ∧
          ∃ out : Machine, (Instruction.of 4 .ret []).perform inFunction = out.succeed ∧
            out.callStack.size = 0 ∧ out.pc = some 0 ∧
              (Instruction.of 4 .ret []).Succeeded inFunction out := by
  refine ⟨?_, ?_, ?_, ?_⟩
  · exact ⟨_, rfl, rfl, Instruction.succeeded_of_perform rfl⟩
  · exact ⟨_, rfl, rfl, rfl, Instruction.succeeded_of_perform rfl⟩
  · exact ⟨_, rfl, rfl, Instruction.succeeded_of_perform rfl⟩
  · exact ⟨_, rfl, rfl, rfl, Instruction.succeeded_of_perform rfl⟩

end FrameCode
