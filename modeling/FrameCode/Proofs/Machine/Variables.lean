import FrameCode.Proofs.Frames
import FrameCode.Proofs.Machine.Trace

/-!
What an instruction does to the variables of a machine. Most leave the frames alone
(`perform_keepsFrames`), the others store a value in their destination (`perform_stores`), declare
it, or move a whole frame. An instruction that fails leaves the frames as they were
(`perform_touches`).
-/

namespace FrameCode

open Machine

namespace Action

def stores : Action → Bool
  | .move | .pop | .unary _ | .binary _ | .setChar | .typeOf | .read => true
  | _ => false

def arranges : Action → Bool
  | .createFrame | .pushFrame | .popFrame | .defVar => true
  | _ => false

end Action

/-- What an instruction that succeeds does to the frames. -/
inductive Instruction.Touches (instr : Instruction) (frames frames' : Frames) : Prop where
  | keep (opcode : instr.opcode ≠ .defVar) (same : frames' = frames)
  | store {var : Variable} {value : Value} (opcode : instr.opcode ≠ .defVar)
      (destination : instr.destination = .ok var)
      (written : frames.write var value = (.ok (), frames'))
  | declare {var : Variable} (opcode : instr.opcode = .defVar)
      (destination : instr.destination = .ok var)
      (declared : frames.declare var = (.ok (), frames'))
  | create (opcode : instr.opcode = .createFrame) (same : frames' = frames.createTemporary)
  | push (opcode : instr.opcode = .pushFrame) (pushed : frames.pushTemporary = (.ok (), frames'))
  | pop (opcode : instr.opcode = .popFrame) (popped : frames.popTemporary = (.ok (), frames'))

def Outcome.KeepsFrames (frames : Frames) (outcome : Outcome Fault) : Prop :=
  outcome.Ensures (fun m => m.frames = frames) (fun _ m => m.frames = frames)

/-- The machine has the frames that storing a value in the destination makes of others. -/
def Instruction.Stored (instr : Instruction) (frames : Frames) (m : Machine) : Prop :=
  ∃ var value, instr.destination = .ok var ∧ frames.write var value = (.ok (), m.frames)

/-- A value is stored in the destination; if that fails, the frames are left as they are. -/
def Outcome.Stores (instr : Instruction) (frames : Frames) (outcome : Outcome Fault) : Prop :=
  outcome.Ensures (instr.Stored frames) (fun _ m => m.frames = frames)

namespace Machine

variable {m : Machine} {instr : Instruction}

/-! ### Operations that keep the frames -/

/-- An attempt that fails has not touched the frames. -/
theorem attempt_keepsFrames {x : Except Fault Machine}
    (h : Ensures (fun m' => m'.frames = m.frames) (fun _ => True) x) :
    (m.attempt x).KeepsFrames m.frames :=
  .attempt_of_ok h fun _ => rfl

/-- Finding a value does not touch the frames. -/
theorem evaluate_keepsFrames {α : Type} {value : Except Fault α} {next : α → Outcome Fault}
    (h : ∀ a, (next a).KeepsFrames m.frames) : (m.evaluate value next).KeepsFrames m.frames :=
  evaluate_ensures (fun _ _ => rfl) fun a _ => h a

/-- Taking a value from the data stack does not touch the frames. -/
theorem popThen_keepsFrames {next : Value → Machine → Outcome Fault}
    (h : ∀ value dataStack, (next value { m with dataStack }).KeepsFrames m.frames) :
    (m.popThen next).KeepsFrames m.frames :=
  popThen_ensures rfl fun value rest _ => h value ⟨rest⟩

theorem popTwoThen_keepsFrames {next : Value → Value → Machine → Outcome Fault}
    (h : ∀ a b dataStack, (next a b { m with dataStack }).KeepsFrames m.frames) :
    (m.popTwoThen next).KeepsFrames m.frames :=
  popThen_keepsFrames fun b _ => popThen_keepsFrames fun a dataStack => h a b dataStack

theorem jumpTo_keepsFrames (label : String) :
    Ensures (fun m' => m'.frames = m.frames) (fun _ => True) (m.jumpTo label) := by
  unfold jumpTo
  split
  · exact rfl
  · exact True.intro

theorem jumpWhen_keepsFrames (whenEqual : Bool) (label : String) (a b : Value) :
    Ensures (fun m' => m'.frames = m.frames) (fun _ => True) (m.jumpWhen whenEqual label a b) := by
  refine .last fun equal => ?_
  split
  · exact jumpTo_keepsFrames label
  · exact rfl

/-- A call does not touch the frames, which are pushed and popped on their own. -/
theorem enter_keepsFrames (label : String) : (m.enter label).KeepsFrames m.frames :=
  attempt_keepsFrames ((jumpTo_keepsFrames label).bind fun _ same => same)

theorem emit_keepsFrames (text : String) : (m.emit text).KeepsFrames m.frames := by
  unfold emit
  rcases m.output.write (Text.encode text) with ⟨message | _, output⟩
  · exact rfl
  · exact rfl

theorem emitDiagnostic_keepsFrames (text : String) :
    (m.emitDiagnostic text).KeepsFrames m.frames := by
  unfold emitDiagnostic
  rcases m.diagnostics.write (Text.encode text) with ⟨message | _, diagnostics⟩
  · exact rfl
  · exact rfl

/-! ### Operations that store a value -/

theorem evaluate_stores {α : Type} {value : Except Fault α} {next : α → Outcome Fault}
    (h : ∀ a, (next a).Stores instr m.frames) : (m.evaluate value next).Stores instr m.frames :=
  evaluate_ensures (fun _ _ => rfl) fun a _ => h a

/-- A value is stored as the frames store it, or the frames stay as they are. -/
theorem assign_stores (value : Value) : (m.assign instr value).Stores instr m.frames :=
  assign_ensures (fun var _ destination written => ⟨var, value, destination, written⟩) fun _ => rfl

theorem popThen_stores {next : Value → Machine → Outcome Fault}
    (h : ∀ value dataStack, (next value { m with dataStack }).Stores instr m.frames) :
    (m.popThen next).Stores instr m.frames :=
  popThen_ensures rfl fun value rest _ => h value ⟨rest⟩

/-- The value of a line is stored, or the frames stay as they are. -/
theorem readInto_stores (type : DataType) : (m.readInto instr type).Stores instr m.frames := by
  unfold readInto
  rcases m.input.readLine with ⟨message | line, input⟩
  · exact rfl
  · exact evaluate_stores (m := { m with input }) fun value => assign_stores value

end Machine

/-- Actions that neither store nor arrange leave the frames as they are. -/
theorem Action.perform_keepsFrames {action : Action} (idle : action.stores = false)
    (still : action.arranges = false) (instr : Instruction) (m : Machine) :
    (action.perform instr m).KeepsFrames m.frames := by
  cases action with
  | nothing | clear => exact .succeed rfl
  | call => exact evaluate_keepsFrames fun label => enter_keepsFrames label
  | ret => exact attempt_keepsFrames (.last fun _ => rfl)
  | push => exact attempt_keepsFrames (.last fun _ => rfl)
  | unaryStack op =>
      exact popThen_keepsFrames fun a _ => attempt_keepsFrames (.last fun _ => rfl)
  | binaryStack op =>
      exact popTwoThen_keepsFrames fun a b _ => attempt_keepsFrames (.last fun _ => rfl)
  | write => exact evaluate_keepsFrames fun value => emit_keepsFrames value.text
  | print => exact evaluate_keepsFrames fun value => emitDiagnostic_keepsFrames value.text
  | report =>
      rw [perform]
      exact emitDiagnostic_keepsFrames _
  | jump => exact attempt_keepsFrames (.last fun label => jumpTo_keepsFrames label)
  | jumpIf whenEqual =>
      exact attempt_keepsFrames (.last fun label => .last fun a => .last fun b =>
        jumpWhen_keepsFrames whenEqual label a b)
  | jumpIfStack whenEqual =>
      exact evaluate_keepsFrames fun label => popTwoThen_keepsFrames fun a b _ =>
        attempt_keepsFrames (jumpWhen_keepsFrames whenEqual label a b)
  | exit => exact attempt_keepsFrames (.last fun _ => .last fun _ => rfl)
  | move | pop | unary _ | binary _ | setChar | typeOf | read => cases idle
  | createFrame | pushFrame | popFrame | defVar => cases still

/-- Actions with a destination store one value there or nothing at all. -/
theorem Action.perform_stores {action : Action} (stores : action.stores = true)
    (instr : Instruction) (m : Machine) : (action.perform instr m).Stores instr m.frames := by
  cases action with
  | move | unary op | binary op | setChar =>
      exact evaluate_stores fun value => assign_stores value
  | pop => exact popThen_stores fun value _ => assign_stores value
  | typeOf => exact evaluate_stores fun value => assign_stores _
  | read => exact evaluate_stores fun type => readInto_stores type
  | _ => cases stores

theorem Opcode.action_eq_defVar_iff {op : Opcode} : op.action = .defVar ↔ op = .defVar := by
  cases op <;> simp [Opcode.action]

/-- What an instruction does to the frames, and that it does nothing to them if it fails. -/
theorem Instruction.perform_touches (instr : Instruction) (m : Machine) :
    (instr.perform m).Ensures (fun m' => instr.Touches m.frames m'.frames)
      (fun _ m' => m'.frames = m.frames) := by
  unfold Instruction.perform
  cases stores : instr.opcode.action.stores with
  | true =>
      have opcode : instr.opcode ≠ .defVar := by
        intro opcode
        rw [opcode] at stores
        cases stores
      refine (Action.perform_stores stores instr m).mono (fun m' stored => ?_) fun _ _ h => h
      obtain ⟨var, value, destination, written⟩ := stored
      exact .store opcode destination written
  | false =>
      cases arranges : instr.opcode.action.arranges with
      | false =>
          have opcode : instr.opcode ≠ .defVar := by
            intro opcode
            rw [opcode] at arranges
            cases arranges
          exact (Action.perform_keepsFrames stores arranges instr m).mono
            (fun _ same => .keep opcode same) fun _ _ h => h
      | true =>
          cases opcode : instr.opcode with
          | createFrame => exact .succeed (.create opcode rfl)
          | pushFrame =>
              exact withFrames_ensures m.frames.pushTemporary_unharmed
                (fun _ pushed => .push opcode pushed) fun _ _ => rfl
          | popFrame =>
              exact withFrames_ensures m.frames.popTemporary_unharmed
                (fun _ popped => .pop opcode popped) fun _ _ => rfl
          | defVar =>
              exact evaluate_ensures (fun _ _ => rfl) fun var destination =>
                withFrames_ensures (m.frames.declare_unharmed var)
                  (fun _ declared => .declare opcode destination declared) fun _ _ => rfl
          | _ =>
              rw [opcode] at arranges
              cases arranges

namespace Machine

/-- What a step does to the frames. -/
theorem advance?_touches {m m' : Machine} {index : Nat} (pc : m.pc = some index)
    (advance : m.advance? = some m') :
    (m.program.get? index = none ∧ m'.frames = m.frames) ∨
      ∃ instr, m.program.get? index = some instr ∧ instr.Touches m.frames m'.frames := by
  obtain ⟨index', pc', step⟩ := advance?_eq_some_iff.mp advance
  cases pc.symm.trans pc'
  cases found : m.program.get? index with
  | none =>
      simp only [Machine.step, found] at step
      cases step
      exact .inl ⟨rfl, rfl⟩
  | some instr =>
      obtain ⟨out, performed, rfl⟩ := (step_eq_succeed_iff found).mp step
      have touches :=
        (instr.perform_touches (m.poised index)).ok (congrArg Outcome.result performed)
      rw [performed] at touches
      exact .inr ⟨instr, rfl, touches⟩

/-- A step that fails leaves the frames as they were. -/
theorem frames_of_step_fail {m out : Machine} {index : Nat} {error : RuntimeError}
    (failed : m.step index = out.fail error) : out.frames = m.frames := by
  obtain ⟨instr, fault, -, performed, -⟩ := step_eq_fail_iff.mp failed
  have same := (instr.perform_touches (m.poised index)).error (congrArg Outcome.result performed)
  rw [performed] at same
  exact same

end Machine

end FrameCode
