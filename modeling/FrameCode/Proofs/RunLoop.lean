import FrameCode.Proofs.CallDiscipline
import FrameCode.Proofs.Labels

/-!
What the run loop keeps to. Labels and return addresses may lie directly behind the last
instruction, but every step ends with the machine at an instruction of its program or at rest, so
there always is an instruction to execute. An exit code is there only after the step that has set
it, which is the last one, and the count of executed instructions leaves out those for debugging.
`RunInvariant` puts this together.
-/

namespace FrameCode

def Opcode.isCounted (op : Opcode) : Bool :=
  op ≠ .dprint ∧ op ≠ .breakpoint

theorem Opcode.isCounted_iff {op : Opcode} : op.isCounted = true ↔ op.kind ≠ .debug := by
  cases op <;> decide

namespace Machine

/-- The opcode that the step number `n` of the run of `m` is to execute. -/
def opcodeAt? (m : Machine) (n : Nat) : Option Opcode :=
  (m.stateAt? n).bind fun x => x.pc.bind fun index => (m.program.get? index).map (·.opcode)

/-- How many of the first `n` steps of the run of `m` execute something that counts. -/
def countedSteps (m : Machine) (n : Nat) : Nat :=
  (List.range n).countP fun k => (m.opcodeAt? k).any Opcode.isCounted

/-- What is known of the machine `x` that the run of `m` has come to after `n` steps. -/
structure RunInvariant (m : Machine) (n : Nat) (x : Machine) : Prop where
  /-- Where control is, there is an instruction of the program. -/
  pc : ∀ index, x.pc = some index → index < m.program.size ∧ (m.program.get? index).isSome
  /-- A return goes to an instruction of the program or directly behind the last one. -/
  returns : ∀ record ∈ x.callStack.toList, record.returnTo ≤ m.program.size
  /-- So does a jump. -/
  targets : ∀ label target, x.target? label = some target → target ≤ m.program.size
  /-- With an exit code the machine is at rest, and its last step has executed an exit. -/
  exit : ∀ code, x.exitCode = some code → code ≤ 49 ∧ x.pc = none ∧
    ∃ k index, n = k + 1 ∧ m.ExecutesAt k index .exit
  executed : x.executed = m.countedSteps n

variable {m x y : Machine} {n index : Nat}

/-! ### Places in the program -/

theorem pc_lt_of_advance? (advance : x.advance? = some y) (pc : y.pc = some index) :
    index < y.program.size := by
  obtain ⟨_, -, ⟨-, rfl⟩ | ⟨instr, out, -, -, -, rfl⟩⟩ := advance?_cases advance
  · cases pc
  · exact of_decide_eq_true (Option.filter_eq_some_iff.mp pc).2

/-- Between two steps the counter points at an instruction. -/
theorem pc_lt_of_stateAt? (reached : m.stateAt? n = some x) (pc : x.pc = some index) :
    index < m.program.size := by
  have program := (setting_of_stateAt? reached).1
  cases n with
  | zero =>
      obtain ⟨-, rfl⟩ := stateAt?_zero_iff.mp reached
      simp only [reset] at pc
      split at pc
      · cases pc
      · cases pc
        omega
  | succ n =>
      obtain ⟨before, -, advance⟩ := stateAt?_succ_iff.mp reached
      rw [← program]
      exact pc_lt_of_advance? advance pc

/-- A record returns to an instruction or directly behind the program. -/
theorem returnTo_le_of_linked (linked : x.Linked) {record : CallRecord}
    (saved : record ∈ x.callStack.toList) : record.returnTo ≤ x.program.size := by
  obtain ⟨index, label, eq, called⟩ := linked.returns record saved
  obtain ⟨instr, found, -⟩ := Option.bind_eq_some_iff.mp called
  rw [eq]
  exact Program.lt_size_of_get? found

/-- A label leads to an instruction or directly behind the program. -/
theorem target_le_of_collected {program : Program}
    (collected : (collectLabels 0 ∅ program.toList).1 = .ok ()) {label : String} {target : Nat}
    (known : program.labels[label]? = some target) : target ≤ program.size := by
  obtain empty | ⟨place, instr, found, -, rfl⟩ :=
    (collectLabels_getElem? collected label target).mp known
  · simp at empty
  · rw [Program.getElem?_toList] at found
    have within := Program.lt_size_of_get? found
    omega

/-! ### The exit code -/

/-- A step that sets an exit code executes an exit, after which the machine rests. -/
theorem exit_of_advance? {code : Nat} (none_before : x.exitCode = none)
    (advance : x.advance? = some y) (set : y.exitCode = some code) :
    code ≤ 49 ∧ y.pc = none ∧ ∃ index instr, x.pc = some index ∧
      x.program.get? index = some instr ∧ instr.opcode = .exit := by
  obtain ⟨index, pc, ⟨-, rfl⟩ | ⟨instr, out, found, -, moves, rfl⟩⟩ := advance?_cases advance
  · cases none_before.symm.trans set
  · have kept (same : out.exitCode = x.exitCode) : False := by
      cases (same.trans none_before).symm.trans set
    cases moves with
    | onward _ same => exact (kept same.exitCode).elim
    | jump _ _ _ same => exact (kept same.exitCode).elim
    | call _ _ _ same => exact (kept same.exitCode).elim
    | ret _ _ same => exact (kept same.exitCode).elim
    | exit opcode code_le same =>
        cases same.exitCode.symm.trans set
        refine ⟨code_le, ?_, index, instr, pc, found, opcode⟩
        simp only [retire, same.pc, Option.filter_none]

/-- An exit code is set by the last step, which executes an exit. -/
theorem exit_of_stateAt? {code : Nat} (reached : m.stateAt? n = some x)
    (set : x.exitCode = some code) :
    code ≤ 49 ∧ x.pc = none ∧ ∃ k index, n = k + 1 ∧ m.ExecutesAt k index .exit := by
  induction n generalizing x code with
  | zero =>
      obtain ⟨-, rfl⟩ := stateAt?_zero_iff.mp reached
      cases set
  | succ n ih =>
      obtain ⟨before, reachedBefore, advance⟩ := stateAt?_succ_iff.mp reached
      -- Had the code been there before this step, the machine would have been at rest.
      have none_before : before.exitCode = none := by
        cases code_before : before.exitCode with
        | none => rfl
        | some code' =>
            obtain ⟨-, rest, -⟩ := ih reachedBefore code_before
            obtain ⟨index, pc, -⟩ := advance?_eq_some_iff.mp advance
            cases rest.symm.trans pc
      obtain ⟨code_le, rest, index, instr, pc, found, opcode⟩ :=
        exit_of_advance? none_before advance set
      rw [(setting_of_stateAt? reachedBefore).1] at found
      refine ⟨code_le, rest, n, index, rfl, before, instr, reachedBefore, pc, found, opcode, ?_⟩
      rw [reached]
      rfl

/-! ### The count of executed instructions -/

theorem executed_of_advance? {instr : Instruction} (pc : x.pc = some index)
    (found : x.program.get? index = some instr) (advance : x.advance? = some y) :
    y.executed = x.executed + if instr.opcode.isCounted then 1 else 0 := by
  obtain ⟨out, setting, -, rfl⟩ := advance?_moves pc found advance
  have before : out.executed = x.executed := setting.executed
  by_cases debug : instr.opcode.kind = .debug
  · simp [retire, Opcode.isCounted_iff, debug, before]
  · simp [retire, Opcode.isCounted_iff, debug, before]

theorem countedSteps_succ (m : Machine) (n : Nat) :
    m.countedSteps (n + 1) =
      m.countedSteps n + if (m.opcodeAt? n).any Opcode.isCounted then 1 else 0 := by
  simp [countedSteps, List.range_succ, List.countP_append, List.countP_singleton]

/-- The count of a run is the number of its steps that count. -/
theorem executed_of_stateAt? (reached : m.stateAt? n = some x) :
    x.executed = m.countedSteps n := by
  induction n generalizing x with
  | zero =>
      obtain ⟨-, rfl⟩ := stateAt?_zero_iff.mp reached
      rfl
  | succ n ih =>
      obtain ⟨before, reachedBefore, advance⟩ := stateAt?_succ_iff.mp reached
      obtain ⟨index, pc, -⟩ := advance?_eq_some_iff.mp advance
      have program := (setting_of_stateAt? reachedBefore).1
      have within := pc_lt_of_stateAt? reachedBefore pc
      obtain ⟨instr, found⟩ := Program.get?_of_lt_size within
      have opcode : m.opcodeAt? n = some instr.opcode := by
        simp [opcodeAt?, reachedBefore, pc, found]
      rw [executed_of_advance? pc (program ▸ found) advance, ih reachedBefore, countedSteps_succ,
        opcode, Option.any_some]

/-- After every number of steps of every run: control is at an instruction of the program, returns
and jumps stay within it or go directly behind it, an exit code from 0 to 49 is there only when the
last step was an exit and the machine rests, and the count of executed instructions is the number
of steps so far, those for debugging left out. -/
theorem run_invariant (reached : m.stateAt? n = some x) : m.RunInvariant n x := by
  obtain ⟨program, labels⟩ := setting_of_stateAt? reached
  refine ⟨?_, ?_, ?_, ?_, executed_of_stateAt? reached⟩
  · intro index pc
    have within := pc_lt_of_stateAt? reached pc
    exact ⟨within, Option.isSome_iff_exists.mpr (Program.get?_of_lt_size within)⟩
  · intro record saved
    rw [← program]
    exact returnTo_le_of_linked (linked_of_stateAt? reached) saved
  · intro label target known
    rw [target?, labels] at known
    exact target_le_of_collected (collected_of_stateAt? reached) known
  · intro code set
    exact exit_of_stateAt? reached set

/-- A program that calls a function with an instruction for debugging and then ends itself. Its last
label is directly in front of its end. -/
def exitAfterCall : Machine where
  program :=
    { instructions := #[⟨.jump, 1, [⟨1, .label "main"⟩]⟩, ⟨.label, 2, [⟨1, .label "f"⟩]⟩,
        ⟨.dprint, 3, [⟨1, .literal "1" (.int 1)⟩]⟩, ⟨.ret, 4, []⟩,
        ⟨.label, 5, [⟨1, .label "main"⟩]⟩, ⟨.call, 6, [⟨1, .label "f"⟩]⟩,
        ⟨.exit, 7, [⟨1, .literal "49" (.int 49)⟩]⟩, ⟨.label, 8, [⟨1, .label "end"⟩]⟩] }
  input := { pending := [] }

/-- Of its five steps one does not count, and the last one sets the exit code. -/
theorem exitAfterCall_invariant :
    (∃ x, exitAfterCall.stateAt? 2 = some x ∧ x.callStack.size = 1 ∧
      exitAfterCall.RunInvariant 2 x) ∧
      ∃ x, exitAfterCall.stateAt? 5 = some x ∧ x.exitCode = some 49 ∧ x.executed = 4 ∧
        x.target? "end" = some exitAfterCall.program.size ∧ exitAfterCall.RunInvariant 5 x := by
  constructor
  · exact ⟨_, rfl, rfl, run_invariant rfl⟩
  · exact ⟨_, rfl, rfl, rfl, rfl, run_invariant rfl⟩

end Machine

end FrameCode
