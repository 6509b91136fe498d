import FrameCode.Proofs.Machine.Control
import FrameCode.Proofs.StackForms

/-!
Runs one after the other on the same machine. A machine can be used in any way before it runs its
program: it may have run before, successfully or not, and single instructions may have been
performed on it. A run begins by collecting the labels anew and by resetting the machine, and after
that nothing is left of its past but the channels (`reset_eq_reset_fresh`). Since no use of a
machine replaces its program (`program_after`), every run is one of a fresh machine for that
program (`execute_independent`).
-/

namespace FrameCode.Machine

def fresh (program : Program) (input : Input) (output diagnostics : Sink) : Machine :=
  { program, input, output, diagnostics }

/-- The unused machine with the program and the channels of this one. -/
def renewed (m : Machine) : Machine :=
  fresh m.program m.input m.output m.diagnostics

namespace Progress

def machine : Progress → Machine
  | .ended outcome => outcome.machine
  | .running m => m

/-- What a run that has ended gives back: the exit code and the number of executed instructions, or
the error. -/
def returned? : Progress → Option (Except RuntimeError (Option Nat × Nat))
  | .ended ⟨result, m⟩ => some (result.map fun _ => (m.exitCode, m.executed))
  | .running _ => none

end Progress

/-- What is seen of a run from outside of the machine. -/
structure Observation where
  returned? : Option (Except RuntimeError (Option Nat × Nat))
  input : Input
  output : Sink
  diagnostics : Sink

def Progress.observe (progress : Progress) : Observation where
  returned? := progress.returned?
  input := progress.machine.input
  output := progress.machine.output
  diagnostics := progress.machine.diagnostics

inductive Use where
  | mapLabels
  | reset
  /-- Performs an instruction that need not be one of the program. -/
  | perform (instr : Instruction)
  | execute (fuel : Nat)

/-- The machine that is left after a use, whether or not it was successful. -/
def Use.apply (m : Machine) : Use → Machine
  | .mapLabels => m.mapLabels.machine
  | .reset => m.reset
  | .perform instr => (instr.perform m).machine
  | .execute fuel => (m.execute fuel).machine

def after (m : Machine) (uses : List Use) : Machine :=
  uses.foldl Use.apply m

/-! ### The program stays -/

/-- No instruction changes the program. -/
theorem perform_program (instr : Instruction) (m : Machine) :
    (instr.perform m).machine.program = m.program := by
  have steers := instr.perform_steers m
  cases ended : (instr.perform m).result with
  | ok _ => exact (steers.ok ended).1.program
  | error fault => exact (steers.error ended).1.program

theorem step_program (m : Machine) (index : Nat) :
    (m.step index).machine.program = m.program := by
  cases found : m.program.get? index with
  | none =>
      simp only [step, found]
      rfl
  | some instr =>
      have performed := perform_program instr (m.poised index)
      rw [step_of_get? found]
      generalize instr.perform (m.poised index) = outcome at performed ⊢
      obtain ⟨_ | _, out⟩ := outcome
      · exact performed
      · exact performed

theorem resume_program (fuel : Nat) (m : Machine) :
    (resume fuel m).machine.program = m.program := by
  induction fuel generalizing m with
  | zero =>
      cases pc : m.pc with
      | none =>
          rw [resume_of_rest pc]
          rfl
      | some index =>
          simp only [resume, pc]
          rfl
  | succ fuel ih =>
      cases pc : m.pc with
      | none =>
          rw [resume_of_rest pc]
          rfl
      | some index =>
          have stepped := m.step_program index
          rcases step : m.step index with ⟨error | _, m'⟩
          · rw [step] at stepped
            rw [resume_of_failure pc step]
            exact stepped
          · rw [step] at stepped
            rw [resume_of_advance (advance?_eq_some_iff.mpr ⟨index, pc, step⟩), ih]
            exact stepped

theorem execute_program (fuel : Nat) (m : Machine) :
    (m.execute fuel).machine.program = m.program := by
  have mapped : m.mapLabels.machine.program = m.program := rfl
  unfold execute
  generalize m.mapLabels = outcome at mapped
  obtain ⟨_ | _, m'⟩ := outcome
  · exact mapped
  · exact (resume_program fuel m'.reset).trans mapped

theorem apply_program (m : Machine) (use : Use) : (use.apply m).program = m.program := by
  cases use with
  | mapLabels => rfl
  | reset => rfl
  | perform instr => exact perform_program instr m
  | execute fuel => exact execute_program fuel m

/-- However a machine is used, its program stays the same. -/
theorem program_after (m : Machine) (uses : List Use) : (m.after uses).program = m.program := by
  induction uses generalizing m with
  | nil => rfl
  | cons use rest ih => exact (ih (use.apply m)).trans (apply_program m use)

/-! ### Nothing else does -/

/-- With its labels collected anew, a machine is reset to what an unused one is reset to. -/
theorem reset_eq_reset_fresh (m : Machine) (labels : Labels) :
    { m with labels }.reset = { m.renewed with labels }.reset := rfl

/-- Whether the labels are in the way of a run depends on the program alone. -/
theorem mapLabels_result_renewed (m : Machine) :
    m.renewed.mapLabels.result = m.mapLabels.result := rfl

theorem execute_eq_resume {m : Machine} (collected : m.mapLabels.result = .ok ()) (fuel : Nat) :
    m.execute fuel = resume fuel m.mapLabels.machine.reset := by
  unfold execute
  generalize m.mapLabels = outcome at collected
  obtain ⟨_, m'⟩ := outcome
  cases collected
  rfl

/-- A run that starts is that of the unused machine, because it sets anew all that it reads. -/
theorem execute_of_collected {m : Machine} (collected : m.mapLabels.result = .ok ())
    (fuel : Nat) : m.execute fuel = m.renewed.execute fuel := by
  have collected' : m.renewed.mapLabels.result = .ok () :=
    m.mapLabels_result_renewed.trans collected
  rw [execute_eq_resume collected, execute_eq_resume collected']
  exact congrArg (resume fuel) (m.reset_eq_reset_fresh _)

/-- A run that cannot begin has used no channel. -/
theorem observe_of_blocked {m : Machine} {error : RuntimeError}
    (blocked : m.mapLabels.result = .error error) (fuel : Nat) :
    (m.execute fuel).observe = ⟨some (.error error), m.input, m.output, m.diagnostics⟩ := by
  have mapped : m.mapLabels = { m with labels := m.mapLabels.machine.labels }.fail error := by
    rw [fail, ← blocked]
    rfl
  unfold execute
  rw [mapped]
  rfl

/-- Every run is like one of a fresh machine. However a machine has been used before, a run of it
gives back the same, reads the same and writes the same as the run of an unused machine for the same
program that finds the channels in the same condition; and unless the labels are in the way, the two
are the same machine at every moment, and at the end. -/
theorem execute_independent (start : Machine) (uses : List Use) (fuel : Nat) :
    let m := start.after uses
    let unused := fresh start.program m.input m.output m.diagnostics
    (m.execute fuel).observe = (unused.execute fuel).observe ∧
      (m.mapLabels.result = .ok () → m.execute fuel = unused.execute fuel) := by
  intro m unused
  have renewed : unused = m.renewed := by
    rw [Machine.renewed, program_after]
  rw [renewed]
  refine ⟨?_, fun collected => execute_of_collected collected fuel⟩
  cases collected : m.mapLabels.result with
  | ok _ => rw [execute_of_collected collected]
  | error error =>
      rw [observe_of_blocked collected,
        observe_of_blocked (m.mapLabels_result_renewed.trans collected)]
      rfl

/-- A machine whose program declares a variable, pushes a value and calls a label that is not
there. -/
def stranded : Machine where
  program :=
    { instructions :=
        #[.of 1 .label [.label "top"], .of 2 .defVar [.variable ⟨.global, "x"⟩],
          .of 3 .pushs [.literal "1" (.int 1)], .of 4 .call [.label "nowhere"]] }
  input := { pending := [] }

/-- Its first run leaves a value and a record behind, and an exit that is then performed leaves an
exit code. None of it is there in the second run, which declares the variable once more. -/
theorem stranded_runs_again :
    let m := stranded.after [.execute 9, .perform (.of 1 .exit [.literal "7" (.int 7)])]
    m.dataStack.size = 1 ∧ m.callStack.size = 1 ∧ m.exitCode = some 7 ∧ m.executed = 3 ∧
      m.mapLabels.result = .ok () ∧
        m.execute 9 = (fresh stranded.program m.input m.output m.diagnostics).execute 9 := by
  intro m
  have collected : m.mapLabels.result = .ok () := rfl
  exact ⟨rfl, rfl, rfl, rfl, collected, (execute_independent stranded _ 9).2 collected⟩

end FrameCode.Machine
