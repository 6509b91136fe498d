import FrameCode.Proofs.FailureEffects
import FrameCode.Proofs.Machine.Transport

/-!
Machines on other channels. A `Rewiring` replaces the input and the output of a machine and leaves
the rest of it as it is. An instruction does the same on the new channels if they answer it alike
(`perform_apply`), and a run whose instructions all do so goes through the same states, but for the
channels, and ends alike (`stateAt?_apply`, `finishes_apply`). Instructions that do not use a
channel do the same on any, and so they leave it as it is (`perform_input`, `perform_output`).
-/

namespace FrameCode

open Machine

/-- What the channels of a machine are replaced by. -/
structure Rewiring where
  input : Input → Input
  output : Sink → Sink

namespace Rewiring

def apply (r : Rewiring) (m : Machine) : Machine :=
  { m with input := r.input m.input, output := r.output m.output }

/-- The new channels answer an instruction as the old ones do. -/
structure Fits (r : Rewiring) (instr : Instruction) (m : Machine) : Prop where
  reads : instr.opcode = .read → ∀ type, instr.inputType = .ok type →
    (r.input m.input).readLine = (m.input.readLine.1, r.input m.input.readLine.2)
  writes : instr.opcode = .write → ∀ value, m.source instr 1 = .ok value →
    let chunk := Text.encode value.text
    (r.output m.output).write chunk = ((m.output.write chunk).1, r.output (m.output.write chunk).2)

def FitsNext (r : Rewiring) (m : Machine) : Prop :=
  ∀ index instr, m.pc = some index → m.program.get? index = some instr →
    r.Fits instr (m.poised index)

variable {r : Rewiring} {m x : Machine} {instr : Instruction} {n index : Nat}

/-! ### Instructions -/

/-- The rewiring as a transport that moves no instruction. -/
def transport (r : Rewiring) (m : Machine) : Transport where
  program := m.program
  labels := m.labels
  index := id
  input := r.input
  output := r.output
  diagnostics := id

/-- On the machines of one run, rewiring is the transport that moves nothing. -/
theorem transport_apply (setting : SameSetting m x) : (r.transport m).apply x = r.apply x := by
  have records : x.callStack.items.map (r.transport m).record = x.callStack.items :=
    List.map_id' _
  simp only [Transport.apply, records, apply]
  simp only [transport, Option.map_id_fun, id, ← setting.program, ← setting.labels]

/-- Diagnostics go to a channel that is not rewired. -/
theorem emitDiagnostic_apply (text : String) :
    (r.apply m).emitDiagnostic text = (m.emitDiagnostic text).map r.apply := rfl

/-- A report does not show the channels. -/
theorem report_apply (order : Nat) : (r.apply m).report order = m.report order := rfl

theorem perform_debug_apply (debug : instr.opcode.kind = .debug) :
    instr.perform (r.apply m) = (instr.perform m).map r.apply := by
  unfold Instruction.perform
  rcases Opcode.kind_eq_debug_iff.mp debug with action | action
  · rw [action, Action.perform, Action.perform]
    rw [show (r.apply m).source instr 1 = m.source instr 1 from rfl]
    cases m.source instr 1 with
    | ok value => exact emitDiagnostic_apply value.text
    | error fault => rfl
  · rw [action, Action.perform, Action.perform, report_apply]
    exact emitDiagnostic_apply _

/-- An instruction does the same on channels that answer it alike. -/
theorem perform_apply (running : m.pc.isSome) (fits : r.Fits instr m) :
    instr.perform (r.apply m) = (instr.perform m).map r.apply := by
  by_cases debug : instr.opcode.kind = .debug
  · exact perform_debug_apply debug
  by_cases refused : instr.opcode.action = .read ∧ ∃ fault, instr.inputType = .error fault
  · obtain ⟨action, fault, refused⟩ := refused
    simp only [Instruction.perform, action, Action.perform, refused]
    rfl
  have same : SameSetting m m := ⟨rfl, rfl, rfl, rfl⟩
  have faithful : (r.transport m).Faithful instr m := by
    refine ⟨running, fun label => (Option.map_id_apply).symm, fun action => ?_, fun action => ?_⟩
    · cases type : instr.inputType with
      | ok type' => exact fits.reads (Opcode.action_eq_read_iff.mp action) type' type
      | error fault => exact absurd ⟨action, fault, type⟩ refused
    · exact fits.writes (Opcode.action_eq_write_iff.mp action)
  have performed := Transport.perform_apply faithful debug
  rw [transport_apply same] at performed
  rw [performed]
  -- The machine that is left has the program and the labels that it started with.
  have steers := instr.perform_steers m
  generalize instr.perform m = outcome at steers
  obtain ⟨fault | _, out⟩ := outcome
  · exact congrArg (Outcome.mk _) (transport_apply steers.1)
  · exact congrArg (Outcome.mk _) (transport_apply steers.1)

/-! ### Steps and runs -/

theorem poised_apply (index : Nat) : (r.apply m).poised index = r.apply (m.poised index) := rfl

/-- A step does the same on channels that answer its instruction alike. -/
theorem step_apply (pc : m.pc = some index) (fits : r.FitsNext m) :
    (r.apply m).step index = (m.step index).map r.apply := by
  cases found : m.program.get? index with
  | none =>
      have found' : (r.apply m).program.get? index = none := found
      simp only [Machine.step, found, found']
      rfl
  | some instr =>
      have found' : (r.apply m).program.get? index = some instr := found
      have performed : instr.perform ((r.apply m).poised index) =
          (instr.perform (m.poised index)).map r.apply :=
        perform_apply rfl (fits index instr pc found)
      rw [step_of_get? found, step_of_get? found', performed]
      generalize instr.perform (m.poised index) = outcome
      obtain ⟨fault | _, out⟩ := outcome
      · rfl
      · rfl

theorem advance?_apply (fits : r.FitsNext m) : (r.apply m).advance? = m.advance?.map r.apply := by
  have pc' : (r.apply m).pc = m.pc := rfl
  unfold advance?
  cases pc : m.pc with
  | none => simp only [pc', pc, Option.map_none]
  | some index =>
      simp only [pc', pc, step_apply pc fits]
      obtain ⟨error | _, out⟩ := m.step index
      · rfl
      · rfl

/-- Collecting labels uses no channel. -/
theorem start?_apply : (r.apply m).start? = m.start?.map r.apply := by
  have collected : (r.apply m).mapLabels = m.mapLabels.map r.apply := rfl
  unfold start?
  rw [collected]
  obtain ⟨error | _, out⟩ := m.mapLabels
  · rfl
  · rfl

/-- As long as the channels answer alike, the run passes through the same states but for them. -/
theorem stateAt?_apply (fits : ∀ k < n, ∀ x, m.stateAt? k = some x → r.FitsNext x) :
    (r.apply m).stateAt? n = (m.stateAt? n).map r.apply := by
  induction n with
  | zero =>
      unfold stateAt?
      rw [start?_apply]
      cases m.start? with
      | none => rfl
      | some first => rfl
  | succ n ih =>
      rw [stateAt?_succ, stateAt?_succ, ih fun k lt => fits k (Nat.lt_succ_of_lt lt)]
      cases reached : m.stateAt? n with
      | none => rfl
      | some x => exact advance?_apply (fits n (Nat.lt_succ_self n) x reached)

/-- The last step of a run does the same on channels that answer it alike. -/
theorem endsWith_apply {outcome : Outcome RuntimeError} (fits : r.FitsNext m)
    (ends : m.EndsWith outcome) : (r.apply m).EndsWith (outcome.map r.apply) := by
  cases ends with
  | rest pc => exact .rest (m := r.apply m) pc
  | failure pc step =>
      refine .failure (m := r.apply m) pc ?_
      rw [step_apply pc fits, step]
      rfl

/-- If the channels answer alike throughout, the run ends alike. -/
theorem finishes_apply {outcome : Outcome RuntimeError}
    (fits : ∀ k x, m.stateAt? k = some x → r.FitsNext x) (finishes : m.Finishes outcome) :
    (r.apply m).Finishes (outcome.map r.apply) := by
  obtain ⟨blocked, rfl⟩ | ⟨n, x, reached, ends⟩ := finishes_iff.mp finishes
  · refine finishes_iff.mpr (.inl ⟨?_, rfl⟩)
    rw [start?_apply, blocked]
    rfl
  · refine finishes_iff.mpr (.inr ⟨n, r.apply x, ?_, endsWith_apply (fits n x reached) ends⟩)
    rw [stateAt?_apply fun k _ => fits k, reached]
    rfl

end Rewiring

/-! ### Channels that are not used -/

namespace Instruction

variable {instr : Instruction} {m : Machine}

/-- Only reading changes the input. -/
theorem perform_input (running : m.pc.isSome) (opcode : instr.opcode ≠ .read) :
    (instr.perform m).machine.input = m.input := by
  let keep : Rewiring := ⟨fun _ => m.input, id⟩
  have fits : keep.Fits instr m := ⟨fun reads => absurd reads opcode, fun _ _ _ => rfl⟩
  -- Put back after the instruction, the input is there already.
  exact congrArg (·.machine.input) (keep.perform_apply running fits)

/-- Only writing changes the output. -/
theorem perform_output (running : m.pc.isSome) (opcode : instr.opcode ≠ .write) :
    (instr.perform m).machine.output = m.output := by
  let keep : Rewiring := ⟨id, fun _ => m.output⟩
  have fits : keep.Fits instr m := ⟨fun _ _ _ => rfl, fun writes => absurd writes opcode⟩
  exact congrArg (·.machine.output) (keep.perform_apply running fits)

end Instruction

namespace Machine

variable {m : Machine} {instr : Instruction} {index : Nat}

/-- Accounting for an instruction leaves the channels as they are. -/
theorem step_channels (found : m.program.get? index = some instr) :
    (m.step index).machine.input = (instr.perform (m.poised index)).machine.input ∧
      (m.step index).machine.output = (instr.perform (m.poised index)).machine.output := by
  rw [step_of_get? found]
  obtain ⟨fault | _, out⟩ := instr.perform (m.poised index)
  · exact ⟨rfl, rfl⟩
  · exact ⟨rfl, rfl⟩

/-- The line stays read, whatever becomes of its value. -/
theorem readInto_input (type : DataType) :
    (m.readInto instr type).machine.input = m.input.readLine.2 := by
  have kept : (m.readInto instr type).Ensures (fun out => out.input = m.input.readLine.2)
      (fun _ out => out.input = m.input.readLine.2) := by
    unfold readInto
    generalize m.input.readLine = result
    obtain ⟨message | line, input⟩ := result
    · exact .fail rfl
    · refine evaluate_ensures (fun _ _ => rfl) fun value _ => ?_
      exact assign_ensures (fun _ _ _ _ => rfl) fun _ => rfl
  exact kept.machine

end Machine

end FrameCode
