import FrameCode.Proofs.RunLoop
import FrameCode.Proofs.Soundness

/-!
How a run ends that the static check has let through, and the exit code that comes of it. It ends in
one of three ways: an exit is executed and its operand is the code, control runs off the end of the
program, or an instruction fails with a dynamic fault, whose code is never that of a wrong program.
-/

namespace FrameCode

/-- The exit codes of dynamic faults. That of wrong names is among them because a variable can be
declared twice. -/
theorem Fault.exitCode_of_isDynamic {fault : Fault} (dynamic : fault.isDynamic = true) :
    fault.exitCode ∈ [11, 12, 52, 53, 54, 55, 56, 57, 58] ∧
      (fault.exitCode = 52 → ∃ var, fault = .variableRedefinition var) := by
  cases fault with
  | labelRedefinition | undefinedLabel | operand | internal => cases dynamic
  | variableRedefinition var => exact ⟨by simp [exitCode], fun _ => ⟨var, rfl⟩⟩
  | badTypes | noVariable | noFrame | missingValue | badValue | badString | input | output =>
      exact ⟨by simp [exitCode], fun code => by simp [exitCode] at code⟩

namespace Machine

theorem attempt_eq_succeed_iff {m out : Machine} {x : Except Fault Machine} :
    m.attempt x = out.succeed ↔ x = .ok out := by
  cases x with
  | ok m' => simp [attempt, succeed]
  | error fault => simp [attempt, succeed, fail]

/-- An exit code is an integer from 0 to 49. -/
theorem exitCode?_eq_ok_iff {value : Value} {code : Nat} :
    exitCode? value = .ok code ↔
      ∃ n : Int64, value = .int n ∧ (0 ≤ n.toInt ∧ n.toInt ≤ 49) ∧ code = n.toInt.toNat := by
  cases value with
  | int n =>
      by_cases range : 0 ≤ n.toInt ∧ n.toInt ≤ 49
      · simp [exitCode?, range, eq_comm]
      · simp [exitCode?, range]
  | nil | bool | string | float => simp [exitCode?]

end Machine

/-- An exit that succeeds has a whole number from 0 to 49 as its operand, and sets it. -/
theorem Instruction.perform_exit {instr : Instruction} {m out : Machine}
    (opcode : instr.opcode = .exit) (performed : instr.perform m = out.succeed) :
    ∃ n : Int64, m.source instr 1 = .ok (.int n) ∧ (0 ≤ n.toInt ∧ n.toInt ≤ 49) ∧
      out.exitCode = some n.toInt.toNat := by
  simp only [perform, opcode, Opcode.action, Action.perform] at performed
  obtain ⟨value, source, performed⟩ :=
    bind_eq_ok_iff.mp (Machine.attempt_eq_succeed_iff.mp performed)
  obtain ⟨code, accepted, performed⟩ := bind_eq_ok_iff.mp performed
  obtain ⟨n, rfl, range, rfl⟩ := Machine.exitCode?_eq_ok_iff.mp accepted
  cases performed
  exact ⟨n, source, range, rfl⟩

namespace Machine

variable {m x y : Machine} {n index : Nat} {instr : Instruction}

/-! ### Running off the end -/

/-- The run of `m` is over after `n` steps because there is no further instruction: the program is
empty, or the last step has passed control directly behind the program. -/
inductive RunsOff (m : Machine) : Nat → Prop where
  | empty (size : m.program.size = 0) : RunsOff m 0
  | behind {n index : Nat} {x out : Machine} {instr : Instruction}
      (reached : m.stateAt? n = some x) (pc : x.pc = some index)
      (found : m.program.get? index = some instr)
      (performed : instr.perform (x.poised index) = out.succeed)
      (next : out.pc = some m.program.size) : RunsOff m (n + 1)

/-- Unless it is an exit, an instruction passes control to one of the program or directly behind
the last one. -/
theorem pc_le_of_perform {out : Machine} (reached : m.stateAt? n = some x)
    (found : m.program.get? index = some instr)
    (performed : instr.perform (x.poised index) = out.succeed) (unset : out.exitCode = none) :
    ∃ next, out.pc = some next ∧ next ≤ m.program.size := by
  obtain ⟨program, labels⟩ := setting_of_stateAt? reached
  have target_le {label : String} {target : Nat} (known : x.labels[label]? = some target) :
      target ≤ m.program.size :=
    target_le_of_collected (collected_of_stateAt? reached) (labels ▸ known)
  have ensured := (instr.perform_steers (x.poised index)).ok (congrArg Outcome.result performed)
  rw [performed] at ensured
  cases ensured.2 with
  | onward _ same => exact ⟨index + 1, same.pc, Program.lt_size_of_get? found⟩
  | jump _ _ known same => exact ⟨_, same.pc, target_le known⟩
  | call _ _ known same => exact ⟨_, same.pc, target_le known⟩
  | @ret record rest _ top same =>
      have saved : record ∈ x.callStack.toList := by
        have items : x.callStack.items = record :: rest := top
        simp [Stack.toList, items]
      have within := returnTo_le_of_linked (linked_of_stateAt? reached) saved
      exact ⟨_, same.pc, program ▸ within⟩
  | exit _ _ same => cases same.exitCode.symm.trans unset

/-- A run that rests without an exit code has run off the end of its program. -/
theorem runsOff_of_rest (reached : m.stateAt? n = some x) (rest : x.pc = none)
    (unset : x.exitCode = none) : m.RunsOff n := by
  cases n with
  | zero =>
      obtain ⟨-, rfl⟩ := stateAt?_zero_iff.mp reached
      simp only [reset] at rest
      split at rest
      · next size => exact .empty size
      · cases rest
  | succ n =>
      obtain ⟨before, reachedBefore, advance⟩ := stateAt?_succ_iff.mp reached
      obtain ⟨index, pc, step⟩ := advance?_eq_some_iff.mp advance
      have program := (setting_of_stateAt? reachedBefore).1
      obtain ⟨instr, found⟩ := Program.get?_of_lt_size (pc_lt_of_stateAt? reachedBefore pc)
      obtain ⟨out, performed, rfl⟩ := (step_eq_succeed_iff (program ▸ found)).mp step
      obtain ⟨next, place, le⟩ := pc_le_of_perform reachedBefore found performed unset
      refine .behind reachedBefore pc found performed ?_
      have left : out.program = m.program := (setting_of_stateAt? reached).1
      have beyond : ¬ next < m.program.size := by
        intro within
        simp [retire, place, left, within, Option.filter] at rest
      rw [place, Nat.le_antisymm le (Nat.le_of_not_lt beyond)]

/-! ### The three ways to end -/

/-- How the run of `m` ends with an outcome, and the exit code of it. -/
inductive Ending (m : Machine) : Outcome RuntimeError → Nat → Prop where
  /-- The last step executes an exit, and its operand is the code. -/
  | exit {n index : Nat} {x out : Machine} {instr : Instruction} {code : Int64}
      (reached : m.stateAt? n = some x) (pc : x.pc = some index)
      (found : m.program.get? index = some instr) (opcode : instr.opcode = .exit)
      (operand : x.source instr 1 = .ok (.int code))
      (range : 0 ≤ code.toInt ∧ code.toInt ≤ 49) (last : m.stateAt? (n + 1) = some out)
      (set : out.exitCode = some code.toInt.toNat) : Ending m out.succeed code.toInt.toNat
  /-- The program runs off its end. -/
  | offEnd {n : Nat} {out : Machine} (runsOff : m.RunsOff n) (last : m.stateAt? n = some out)
      (unset : out.exitCode = none) : Ending m out.succeed 0
  /-- An instruction fails. -/
  | error {out : Machine} {e : RuntimeError}
      (code : e.exitCode ∈ [11, 12, 52, 53, 54, 55, 56, 57, 58])
      (redefinition : e.exitCode = 52 → ∃ var, e.fault = .variableRedefinition var) :
      Ending m (out.fail e) e.exitCode

/-- A run with an exit code has executed an exit, whose operand is the code. -/
theorem ending_of_exit {code : Nat} (reached : m.stateAt? n = some x)
    (set : x.exitCode = some code) : m.Ending x.succeed code := by
  obtain ⟨-, -, k, index, rfl, before, instr, reachedBefore, pc, found, opcode, -⟩ :=
    exit_of_stateAt? reached set
  have advance : before.advance? = some x := by
    rw [stateAt?_succ, reachedBefore] at reached
    exact reached
  have program := (setting_of_stateAt? reachedBefore).1
  obtain ⟨out, performed, rfl⟩ :=
    (step_eq_succeed_iff (program ▸ found)).mp (step_of_advance? pc advance)
  obtain ⟨operand, source, range, coded⟩ := Instruction.perform_exit opcode performed
  cases set.symm.trans coded
  exact .exit reachedBefore pc found opcode source range reached set

/-- A run of a program without findings, on whatever channels, ends in one of the three ways. -/
theorem ending_of_clean {outcome : Outcome RuntimeError} (clean : Check.findings m.program = [])
    (finishes : m.Finishes outcome) : ∃ code, m.Ending outcome code := by
  obtain ⟨blocked, -⟩ | ⟨n, x, reached, ends⟩ := finishes_iff.mp finishes
  · have started := start?_eq_some_iff.mpr ⟨collectLabels_of_clean clean, rfl⟩
    cases blocked.symm.trans started
  · cases ends with
    | rest rest =>
        cases set : x.exitCode with
        | none => exact ⟨0, .offEnd (runsOff_of_rest reached rest set) reached set⟩
        | some code => exact ⟨code, ending_of_exit reached set⟩
    | @failure index error out pc step =>
        obtain ⟨program, labels⟩ := setting_of_stateAt? reached
        obtain ⟨instr, fault, found, performed, rfl⟩ := step_eq_fail_iff.mp step
        rw [program] at found
        have dynamic : (instr.perform (x.poised index)).FailsDynamically :=
          perform_dynamic_of_clean clean (Program.mem_of_get? found) labels
        obtain ⟨code, redefinition⟩ :=
          Fault.exitCode_of_isDynamic (dynamic.error (congrArg Outcome.result performed))
        exact ⟨_, .error code redefinition⟩

end Machine

end FrameCode
