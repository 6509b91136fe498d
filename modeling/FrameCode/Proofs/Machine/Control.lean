import FrameCode.Proofs.Fallible
import FrameCode.Proofs.Machine.Trace

/-!
Where an instruction leaves the control of a machine: the program counter, the call stack, the
running function and the exit code. Most actions leave it alone (`perform_onward`); the others move
it in one of five ways, and an instruction that fails leaves it alone as well, but for one kind of
call (`perform_steers`). These two statements look into the actions, and what runs do to calls and
returns is derived from them.
-/

namespace FrameCode

open Machine

def Action.isControl : Action → Bool
  | .call | .ret | .jump | .jumpIf _ | .jumpIfStack _ | .exit => true
  | _ => false

/-- Only what instructions compute with has changed: variables, the data stack and the channels. -/
def Onward (m m' : Machine) : Prop :=
  ∃ frames dataStack input output diagnostics,
    m' = { m with frames, dataStack, input, output, diagnostics }

/-- What no instruction changes, whether it succeeds or fails. -/
structure SameSetting (m m' : Machine) : Prop where
  program : m'.program = m.program
  labels : m'.labels = m.labels
  current : m'.current = m.current
  executed : m'.executed = m.executed

structure SameControl (m m' : Machine) : Prop where
  pc : m'.pc = m.pc
  callStack : m'.callStack = m.callStack
  function : m'.function = m.function
  exitCode : m'.exitCode = m.exitCode

/-- What an instruction that succeeds does to the control of a machine. -/
inductive Moves (instr : Instruction) (m m' : Machine) : Prop where
  | onward (opcode : instr.opcode ≠ .call ∧ instr.opcode ≠ .ret ∧ instr.opcode ≠ .exit)
      (same : SameControl m m')
  | jump {label : String} {index : Nat} (opcode : instr.opcode.isJump ∧ instr.opcode ≠ .call)
      (named : instr.target = .ok label) (found : m.target? label = some index)
      (same : SameControl { m with pc := some index } m')
  | call {label : String} {index : Nat} (opcode : instr.opcode = .call)
      (named : instr.target = .ok label) (found : m.target? label = some index)
      (same : SameControl
        { m with
          pc := some index
          callStack := m.callStack.push ⟨m.pc.getD m.program.size, m.function⟩
          function := some label } m')
  | ret {record : CallRecord} {rest : List CallRecord} (opcode : instr.opcode = .ret)
      (top : m.callStack.items = record :: rest)
      (same : SameControl
        { m with pc := some record.returnTo, callStack := ⟨rest⟩, function := record.function } m')
  | exit {code : Nat} (opcode : instr.opcode = .exit) (code_le : code ≤ 49)
      (same : SameControl { m with pc := none, exitCode := some code } m')

/-- The instruction calls a label that is not in the table. -/
structure Instruction.CallsMissing (instr : Instruction) (labels : Labels) (label : String) :
    Prop where
  opcode : instr.opcode = .call
  named : instr.target = .ok label
  missing : labels[label]? = none

/-- What an instruction that fails does to the control of a machine. A call of a missing label has
left the function that it was made in, and entered none. -/
inductive Stalls (instr : Instruction) (m m' : Machine) : Prop where
  | still (present : ∀ label, ¬ instr.CallsMissing m.labels label) (same : SameControl m m')
  | call {label : String} (missing : instr.CallsMissing m.labels label)
      (same : SameControl
        { m with
          callStack := m.callStack.push ⟨m.pc.getD m.program.size, m.function⟩
          function := none } m')

/-- What executing an instruction may do to a machine: where it succeeds, control moves in one of
the five ways; where it fails, it stalls. In both cases the machine stays in its program. -/
def Instruction.Steers (instr : Instruction) (m : Machine) (outcome : Outcome Fault) : Prop :=
  outcome.Ensures (fun m' => SameSetting m m' ∧ Moves instr m m')
    (fun _ m' => SameSetting m m' ∧ Stalls instr m m')

/-- Any instruction but a call stalls where control is as before. -/
theorem Stalls.of_ne_call {instr : Instruction} {m m' : Machine} (opcode : instr.opcode ≠ .call)
    (same : SameControl m m') : Stalls instr m m' :=
  .still (fun _ calls => opcode calls.opcode) same

namespace Onward

theorem refl (m : Machine) : Onward m m := ⟨_, _, _, _, _, rfl⟩

/-- Going onward leaves the program, the labels, the current index and the count as they are. -/
theorem setting {m m' : Machine} (h : Onward m m') : SameSetting m m' := by
  obtain ⟨_, _, _, _, _, rfl⟩ := h
  exact ⟨rfl, rfl, rfl, rfl⟩

/-- Going onward leaves the counter, the calls and the exit code as they are. -/
theorem control {m m' : Machine} (h : Onward m m') : SameControl m m' := by
  obtain ⟨_, _, _, _, _, rfl⟩ := h
  exact ⟨rfl, rfl, rfl, rfl⟩

end Onward

namespace Machine

variable {m : Machine} {instr : Instruction}

/-- An attempt that fails has done nothing, so only its success is to be looked at. -/
theorem attempt_onward {start : Machine} (passed : Onward start m) {x : Except Fault Machine}
    (h : Ensures (Onward m) (fun _ => True) x) :
    (m.attempt x).Ensures (Onward start) (fun _ => Onward start) := by
  refine .attempt (h.mono (fun m' onward => ?_) fun _ _ => passed)
  obtain ⟨_, _, _, _, _, rfl⟩ := passed
  obtain ⟨_, _, _, _, _, rfl⟩ := onward
  exact ⟨_, _, _, _, _, rfl⟩

/-- A value is found without a change, so only the rest is to be looked at. -/
theorem evaluate_onward {start : Machine} {α : Type} {value : Except Fault α}
    {next : α → Outcome Fault} (passed : Onward start m)
    (h : ∀ a, (next a).Ensures (Onward start) (fun _ => Onward start)) :
    (m.evaluate value next).Ensures (Onward start) (fun _ => Onward start) :=
  evaluate_ensures (fun _ _ => passed) fun a _ => h a

/-- Whatever becomes of the frames, control goes onward. -/
theorem withFrames_onward {start : Machine} (passed : Onward start m)
    (change : Except Fault Unit × Frames) :
    (m.withFrames change).Ensures (Onward start) (fun _ => Onward start) := by
  obtain ⟨_, _, _, _, _, rfl⟩ := passed
  obtain ⟨_ | _, frames⟩ := change
  · exact .fail ⟨_, _, _, _, _, rfl⟩
  · exact .succeed ⟨_, _, _, _, _, rfl⟩

/-- Whether the value is stored or not, control goes onward. -/
theorem assign_onward {start : Machine} (passed : Onward start m) (value : Value) :
    (m.assign instr value).Ensures (Onward start) (fun _ => Onward start) :=
  evaluate_onward passed fun _ => withFrames_onward passed _

/-- Taking a value does not turn control aside. -/
theorem popThen_onward {next : Value → Machine → Outcome Fault}
    (h : ∀ value m', Onward m m' → (next value m').Ensures (Onward m) (fun _ => Onward m)) :
    (m.popThen next).Ensures (Onward m) (fun _ => Onward m) :=
  popThen_ensures (Onward.refl m) fun value _ _ => h value _ ⟨_, _, _, _, _, rfl⟩

theorem popTwoThen_onward {next : Value → Value → Machine → Outcome Fault}
    (h : ∀ a b m', Onward m m' → (next a b m').Ensures (Onward m) (fun _ => Onward m)) :
    (m.popTwoThen next).Ensures (Onward m) (fun _ => Onward m) := by
  refine popThen_ensures (Onward.refl m) fun b rest _ => ?_
  refine popThen_ensures ⟨_, _, _, _, _, rfl⟩ fun a rest' _ => ?_
  exact h a b _ ⟨_, _, _, _, _, rfl⟩

/-- Reading does not turn control aside, whether a line can be read or not. -/
theorem readInto_onward (type : DataType) :
    (m.readInto instr type).Ensures (Onward m) (fun _ => Onward m) := by
  unfold readInto
  rcases m.input.readLine with ⟨message | line, input⟩
  · exact .fail ⟨_, _, _, _, _, rfl⟩
  · have passed : Onward m { m with input } := ⟨_, _, _, _, _, rfl⟩
    exact evaluate_onward passed fun value => assign_onward passed value

theorem emit_onward (text : String) : (m.emit text).Ensures (Onward m) (fun _ => Onward m) := by
  unfold emit
  rcases m.output.write (Text.encode text) with ⟨message | _, output⟩
  · exact .fail ⟨_, _, _, _, _, rfl⟩
  · exact .succeed ⟨_, _, _, _, _, rfl⟩

/-- Writing a diagnostic changes nothing but the diagnostics, whether they are taken or refused. -/
theorem emitDiagnostic_ensures (text : String) :
    (m.emitDiagnostic text).Ensures (fun m' => ∃ diagnostics, m' = { m with diagnostics })
      (fun _ m' => ∃ diagnostics, m' = { m with diagnostics }) := by
  unfold emitDiagnostic
  rcases m.diagnostics.write (Text.encode text) with ⟨message | _, diagnostics⟩
  · exact .fail ⟨diagnostics, rfl⟩
  · exact .succeed ⟨diagnostics, rfl⟩

theorem emitDiagnostic_onward (text : String) :
    (m.emitDiagnostic text).Ensures (Onward m) (fun _ => Onward m) := by
  refine (emitDiagnostic_ensures text).mono ?_ ?_
  · rintro m' ⟨diagnostics, rfl⟩
    exact ⟨_, _, _, _, _, rfl⟩
  · rintro fault m' ⟨diagnostics, rfl⟩
    exact ⟨_, _, _, _, _, rfl⟩

end Machine

theorem Opcode.action_eq_call_iff {op : Opcode} : op.action = .call ↔ op = .call := by
  cases op <;> simp [Opcode.action]

theorem Opcode.action_eq_ret_iff {op : Opcode} : op.action = .ret ↔ op = .ret := by
  cases op <;> simp [Opcode.action]

theorem Opcode.action_eq_exit_iff {op : Opcode} : op.action = .exit ↔ op = .exit := by
  cases op <;> simp [Opcode.action]

/-- The actions that jump belong to jumps that are neither calls nor returns nor exits. -/
theorem Opcode.isJump_of_action {op : Opcode}
    (h : op.action = .jump ∨ (∃ whenEqual, op.action = .jumpIf whenEqual) ∨
      ∃ whenEqual, op.action = .jumpIfStack whenEqual) :
    op.isJump ∧ op ≠ .call ∧ op ≠ .ret ∧ op ≠ .exit := by
  cases op <;> simp [Opcode.action] at h <;> simp [Opcode.isJump]

/-- Every action but those that steer control only computes. -/
theorem Action.perform_onward {action : Action} (plain : action.isControl = false)
    (instr : Instruction) (m : Machine) :
    (action.perform instr m).Ensures (Onward m) (fun _ => Onward m) := by
  cases action with
  | nothing => exact .succeed (.refl m)
  | move | unary op | binary op | setChar =>
      exact evaluate_onward (.refl m) fun value => assign_onward (.refl m) value
  | createFrame => exact .succeed ⟨_, _, _, _, _, rfl⟩
  | pushFrame | popFrame => exact withFrames_onward (.refl m) _
  | defVar => exact evaluate_onward (.refl m) fun var => withFrames_onward (.refl m) _
  | push => exact attempt_onward (.refl m) (.last fun value => ⟨_, _, _, _, _, rfl⟩)
  | pop => exact popThen_onward fun value m' passed => assign_onward passed value
  | clear => exact .succeed ⟨_, _, _, _, _, rfl⟩
  | unaryStack op =>
      exact popThen_onward fun a m' passed =>
        attempt_onward passed (.last fun value => ⟨_, _, _, _, _, rfl⟩)
  | binaryStack op =>
      exact popTwoThen_onward fun a b m' passed =>
        attempt_onward passed (.last fun value => ⟨_, _, _, _, _, rfl⟩)
  | typeOf => exact evaluate_onward (.refl m) fun value => assign_onward (.refl m) _
  | read => exact evaluate_onward (.refl m) fun type => readInto_onward type
  | write => exact evaluate_onward (.refl m) fun value => emit_onward value.text
  | print => exact evaluate_onward (.refl m) fun value => emitDiagnostic_onward value.text
  | report =>
      rw [perform]
      exact emitDiagnostic_onward _
  | call | ret | jump | jumpIf _ | jumpIfStack _ | exit => cases plain

namespace Machine

variable {m : Machine}

/-- A jump fails exactly at a label without a target. -/
theorem jumpTo_ensures (label : String) :
    Ensures (fun m' => ∃ index, m.target? label = some index ∧ m' = { m with pc := some index })
      (fun _ => m.target? label = none) (m.jumpTo label) := by
  unfold jumpTo
  cases found : m.target? label with
  | none => exact rfl
  | some index => exact ⟨index, rfl, rfl⟩

/-- A conditional jump that succeeds goes to the target or on. -/
theorem jumpWhen_ensures (whenEqual : Bool) (label : String) (a b : Value) :
    Ensures
      (fun m' => m' = m ∨ ∃ index, m.target? label = some index ∧ m' = { m with pc := some index })
      (fun _ => True) (m.jumpWhen whenEqual label a b) := by
  refine .last fun equal => ?_
  split
  · exact (jumpTo_ensures label).mono (fun _ h => .inr h) fun _ _ => True.intro
  · exact .inl rfl

/-- A return restores what the topmost record has saved. -/
theorem leave_ensures :
    Ensures
      (fun m' => ∃ record rest, m.callStack.items = record :: rest ∧
        m' = { m with
          callStack := ⟨rest⟩, pc := some record.returnTo, function := record.function })
      (fun _ => True) m.leave := by
  unfold leave Stack.pop
  cases items : m.callStack.items with
  | nil => exact True.intro
  | cons record rest => exact ⟨record, rest, rfl, rfl⟩

/-- A code that is accepted is at most 49. -/
theorem exitCode?_ensures (value : Value) :
    Ensures (· ≤ 49) (fun _ => True) (exitCode? value) := by
  cases value with
  | int code =>
      simp only [exitCode?]
      split
      · next range =>
        change code.toInt.toNat ≤ 49
        omega
      · exact True.intro
  | nil | bool _ | string _ | float _ => exact True.intro

end Machine

namespace Machine

variable {m : Machine} {instr : Instruction} {label : String}

/-- A call passes control to its target, or stalls with the record saved. -/
theorem enter_steers (opcode : instr.opcode = .call) (named : instr.target = .ok label) :
    instr.Steers m (m.enter label) := by
  -- The record is on the call stack before the label is looked up, and stays there.
  refine .attempt (.bind ((jumpTo_ensures label).mono (fun _ h => h) fun _ missing => ?_) ?_)
  · exact ⟨⟨rfl, rfl, rfl, rfl⟩, .call ⟨opcode, named, missing⟩ ⟨rfl, rfl, rfl, rfl⟩⟩
  · rintro m' ⟨index, found, rfl⟩
    exact ⟨⟨rfl, rfl, rfl, rfl⟩, .call opcode named found ⟨rfl, rfl, rfl, rfl⟩⟩

/-- A jump on the data stack takes its values first and then steers as other jumps do. -/
theorem jumpIfStack_steers (isJump : instr.opcode.isJump)
    (opcode : instr.opcode ≠ .call ∧ instr.opcode ≠ .ret ∧ instr.opcode ≠ .exit)
    (named : instr.target = .ok label) (whenEqual : Bool) :
    instr.Steers m (m.popTwoThen fun a b m => m.attempt (m.jumpWhen whenEqual label a b)) := by
  have popped (dataStack : Stack Value) :
      SameSetting m { m with dataStack } ∧ Stalls instr m { m with dataStack } :=
    ⟨⟨rfl, rfl, rfl, rfl⟩, .of_ne_call opcode.1 ⟨rfl, rfl, rfl, rfl⟩⟩
  refine popThen_ensures (popped m.dataStack) fun b rest _ => ?_
  refine popThen_ensures (popped ⟨rest⟩) fun a rest' _ => ?_
  refine .attempt_of_ok ((jumpWhen_ensures whenEqual label a b).mono (fun m' h => ?_) fun _ h => h)
    fun _ => popped ⟨rest'⟩
  obtain rfl | ⟨index, found, rfl⟩ := h
  · exact ⟨⟨rfl, rfl, rfl, rfl⟩, .onward opcode ⟨rfl, rfl, rfl, rfl⟩⟩
  · exact ⟨⟨rfl, rfl, rfl, rfl⟩, .jump ⟨isJump, opcode.1⟩ named found ⟨rfl, rfl, rfl, rfl⟩⟩

end Machine

/-- Where an instruction passes control to, action by action. -/
theorem Instruction.perform_steers (instr : Instruction) (m : Machine) :
    instr.Steers m (instr.perform m) := by
  unfold Instruction.perform
  cases plain : instr.opcode.action.isControl with
  | false =>
      have opcode : instr.opcode ≠ .call ∧ instr.opcode ≠ .ret ∧ instr.opcode ≠ .exit := by
        refine ⟨?_, ?_, ?_⟩
        all_goals
          intro opcode
          simp [opcode, Opcode.action, Action.isControl] at plain
      refine (Action.perform_onward plain instr m).mono (fun m' passed => ?_)
        fun _ m' passed => ?_
      · exact ⟨passed.setting, .onward opcode passed.control⟩
      · exact ⟨passed.setting, .of_ne_call opcode.1 passed.control⟩
  | true =>
      have here : SameSetting m m := ⟨rfl, rfl, rfl, rfl⟩
      have stays : SameControl m m := ⟨rfl, rfl, rfl, rfl⟩
      cases action : instr.opcode.action with
      | call =>
          have opcode := Opcode.action_eq_call_iff.mp action
          unfold Action.perform
          cases named : instr.target with
          | error fault =>
              refine .fail ⟨here, .still (fun label calls => ?_) stays⟩
              cases named.symm.trans calls.named
          | ok label => exact enter_steers opcode named
      | ret =>
          have opcode := Opcode.action_eq_ret_iff.mp action
          refine .attempt_of_ok (leave_ensures.mono (fun m' h => ?_) fun _ h => h)
            fun _ => ⟨here, .of_ne_call (by simp [opcode]) stays⟩
          obtain ⟨record, rest, top, rfl⟩ := h
          exact ⟨⟨rfl, rfl, rfl, rfl⟩, .ret opcode top ⟨rfl, rfl, rfl, rfl⟩⟩
      | jump =>
          obtain ⟨isJump, opcode⟩ := Opcode.isJump_of_action (.inl action)
          refine .attempt_of_ok (Ensures.self.bind fun label named => ?_)
            fun _ => ⟨here, .of_ne_call opcode.1 stays⟩
          refine (jumpTo_ensures label).mono (fun m' h => ?_) fun _ _ => True.intro
          obtain ⟨index, found, rfl⟩ := h
          exact ⟨⟨rfl, rfl, rfl, rfl⟩, .jump ⟨isJump, opcode.1⟩ named found ⟨rfl, rfl, rfl, rfl⟩⟩
      | jumpIf whenEqual =>
          obtain ⟨isJump, opcode⟩ := Opcode.isJump_of_action (.inr (.inl ⟨whenEqual, action⟩))
          refine .attempt_of_ok (Ensures.self.bind fun label named => ?_)
            fun _ => ⟨here, .of_ne_call opcode.1 stays⟩
          refine .last fun a => .last fun b => ?_
          refine (jumpWhen_ensures whenEqual label a b).mono (fun m' h => ?_) fun _ h => h
          obtain rfl | ⟨index, found, rfl⟩ := h
          · exact ⟨here, .onward opcode ⟨rfl, rfl, rfl, rfl⟩⟩
          · exact ⟨⟨rfl, rfl, rfl, rfl⟩,
              .jump ⟨isJump, opcode.1⟩ named found ⟨rfl, rfl, rfl, rfl⟩⟩
      | jumpIfStack whenEqual =>
          obtain ⟨isJump, opcode⟩ := Opcode.isJump_of_action (.inr (.inr ⟨whenEqual, action⟩))
          unfold Action.perform
          cases named : instr.target with
          | error fault => exact .fail ⟨here, .of_ne_call opcode.1 stays⟩
          | ok label => exact jumpIfStack_steers isJump opcode named whenEqual
      | exit =>
          have opcode := Opcode.action_eq_exit_iff.mp action
          refine .attempt_of_ok (.last fun value => ?_)
            fun _ => ⟨here, .of_ne_call (by simp [opcode]) stays⟩
          refine (exitCode?_ensures value).bind fun code code_le => ?_
          exact ⟨⟨rfl, rfl, rfl, rfl⟩, .exit opcode code_le ⟨rfl, rfl, rfl, rfl⟩⟩
      | _ => simp [action, Action.isControl] at plain

namespace Machine

/-- What a step does: it executes an instruction, which moves control and is then accounted for. An
index behind the program's end would bring the machine to rest. -/
theorem advance?_cases {m m' : Machine} (advance : m.advance? = some m') :
    ∃ index, m.pc = some index ∧
      ((m.program.get? index = none ∧ m' = { m with pc := none }) ∨
        ∃ instr out, m.program.get? index = some instr ∧ SameSetting (m.poised index) out ∧
          Moves instr (m.poised index) out ∧ m' = out.retire instr) := by
  obtain ⟨index, pc, step⟩ := advance?_eq_some_iff.mp advance
  refine ⟨index, pc, ?_⟩
  cases found : m.program.get? index with
  | none =>
      simp only [Machine.step, found] at step
      cases step
      exact .inl ⟨rfl, rfl⟩
  | some instr =>
      obtain ⟨out, performed, rfl⟩ := (step_eq_succeed_iff found).mp step
      have ensured := (instr.perform_steers (m.poised index)).ok (by rw [performed]; rfl)
      rw [performed] at ensured
      exact .inr ⟨instr, out, rfl, ensured.1, ensured.2, rfl⟩

/-- A step moves control as its instruction does, and then accounts for it. -/
theorem advance?_moves {m m' : Machine} {index : Nat} {instr : Instruction}
    (pc : m.pc = some index) (found : m.program.get? index = some instr)
    (advance : m.advance? = some m') :
    ∃ out, SameSetting (m.poised index) out ∧ Moves instr (m.poised index) out ∧
      m' = out.retire instr := by
  obtain ⟨index', pc', ⟨missing, -⟩ | ⟨instr', out, found', rest⟩⟩ := advance?_cases advance
  · cases pc.symm.trans pc'
    cases missing.symm.trans found
  · cases pc.symm.trans pc'
    cases found.symm.trans found'
    exact ⟨out, rest⟩

/-- A step that fails has executed an instruction, which has stalled. -/
theorem stalls_of_step {m m' : Machine} {index : Nat} {error : RuntimeError}
    (failed : m.step index = m'.fail error) :
    ∃ instr, m.program.get? index = some instr ∧ SameSetting (m.poised index) m' ∧
      Stalls instr (m.poised index) m' := by
  obtain ⟨instr, fault, found, performed, -⟩ := step_eq_fail_iff.mp failed
  have ensured := (instr.perform_steers (m.poised index)).error (by rw [performed]; rfl)
  rw [performed] at ensured
  exact ⟨instr, found, ensured⟩

/-- A run stays in its program, with the label table it started with. -/
theorem setting_of_stateAt? {m x : Machine} {n : Nat} (reached : m.stateAt? n = some x) :
    x.program = m.program ∧ x.labels = m.program.labels := by
  refine stateAt?_induction (P := fun x => x.program = m.program ∧ x.labels = m.program.labels)
    (fun a started => ?_) (fun a b same advance => ?_) reached
  · obtain ⟨-, rfl⟩ := start?_eq_some_iff.mp started
    exact ⟨rfl, rfl⟩
  · obtain ⟨index, -, ⟨-, rfl⟩ | ⟨instr, out, -, setting, -, rfl⟩⟩ := advance?_cases advance
    · exact same
    · exact ⟨setting.program.trans same.1, setting.labels.trans same.2⟩

end Machine

end FrameCode
