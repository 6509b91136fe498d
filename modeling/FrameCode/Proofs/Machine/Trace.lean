import FrameCode.Machine.Run
import FrameCode.Proofs.Program

/-!
The states that a run passes through. `stateAt? n` is the machine between the steps number `n` and
`n + 1` of a run; there is none if the run does not come so far. `finishes_iff` says that a run ends
exactly as one of these states does, so what is shown of all of them, step by step, holds of runs
with any amount of fuel. A relation that every step respects holds between an earlier and a later
machine of a run, and between each of them and the one that is left at the end (`shows_chain`,
`resume_chain`).
-/

namespace FrameCode

def Program.labels (program : Program) : Labels :=
  (Machine.collectLabels 0 ∅ program.toList).2

namespace Machine

/-- The machine as an instruction at an index finds it. -/
def poised (m : Machine) (index : Nat) : Machine :=
  { m with current := some index, pc := some (index + 1) }

def advance? (m : Machine) : Option Machine :=
  match m.pc with
  | none => none
  | some index =>
      match m.step index with
      | ⟨.ok (), m'⟩ => some m'
      | ⟨.error _, _⟩ => none

def after? (m : Machine) : Nat → Option Machine
  | 0 => some m
  | n + 1 => (m.after? n).bind advance?

/-- The machine at the first instruction of its program, unless the labels are in the way. -/
def start? (m : Machine) : Option Machine :=
  match m.mapLabels with
  | ⟨.ok (), m'⟩ => some m'.reset
  | ⟨.error _, _⟩ => none

/-- The machine after so many steps of the run from the start of its program. -/
def stateAt? (m : Machine) (n : Nat) : Option Machine :=
  m.start?.bind (·.after? n)

/-- The step number `n` of the run of `m` succeeds in executing an opcode at an index. -/
def ExecutesAt (m : Machine) (n index : Nat) (op : Opcode) : Prop :=
  ∃ x instr, m.stateAt? n = some x ∧ x.pc = some index ∧ m.program.get? index = some instr ∧
    instr.opcode = op ∧ (m.stateAt? (n + 1)).isSome

/-- A machine that is seen in the run of `m` after so many steps: the one between two steps, or what
the next step leaves when it fails. -/
inductive Shows (m : Machine) (n : Nat) : Machine → Prop where
  | between {x : Machine} (reached : m.stateAt? n = some x) : Shows m n x
  | failure {x out : Machine} {index : Nat} {error : RuntimeError}
      (reached : m.stateAt? n = some x) (pc : x.pc = some index)
      (step : x.step index = out.fail error) : Shows m n out

/-- How a run ends in a state: at rest, or with an instruction that fails. -/
inductive EndsWith (m : Machine) : Outcome RuntimeError → Prop where
  | rest (pc : m.pc = none) : EndsWith m m.succeed
  | failure {index : Nat} {error : RuntimeError} {m' : Machine} (pc : m.pc = some index)
      (step : m.step index = m'.fail error) : EndsWith m (m'.fail error)

/-- A run starts if its labels can be collected, in the reset machine that has them. -/
theorem start?_eq_some_iff {m m' : Machine} :
    m.start? = some m' ↔
      (collectLabels 0 ∅ m.program.toList).1 = .ok () ∧
        m' = { m with labels := m.program.labels }.reset := by
  unfold start? mapLabels Program.labels
  rcases collectLabels 0 ∅ m.program.toList with ⟨error | _, labels⟩
  · simp
  · simp [eq_comm]

/-! ### Steps -/

/-- A step performs the instruction on the poised machine and accounts for it if that succeeds. -/
theorem step_of_get? {m : Machine} {index : Nat} {instr : Instruction}
    (found : m.program.get? index = some instr) :
    m.step index = match instr.perform (m.poised index) with
      | ⟨.ok (), m'⟩ => (m'.retire instr).succeed
      | ⟨.error fault, m'⟩ => m'.fail ⟨fault, some instr.site⟩ := by
  simp only [step, found]
  rfl

/-- What a step that succeeds has performed. -/
theorem step_eq_succeed_iff {m m' : Machine} {index : Nat} {instr : Instruction}
    (found : m.program.get? index = some instr) :
    m.step index = m'.succeed ↔
      ∃ out : Machine, instr.perform (m.poised index) = out.succeed ∧ m' = out.retire instr := by
  rw [step_of_get? found]
  generalize instr.perform (m.poised index) = performed
  obtain ⟨_ | _, out⟩ := performed
  · simp [succeed, fail]
  · simp [succeed, eq_comm]

/-- What a step that fails has performed, and where the error is reported. -/
theorem step_eq_fail_iff {m m' : Machine} {index : Nat} {error : RuntimeError} :
    m.step index = m'.fail error ↔
      ∃ instr fault, m.program.get? index = some instr ∧
        instr.perform (m.poised index) = m'.fail fault ∧ error = ⟨fault, some instr.site⟩ := by
  cases found : m.program.get? index with
  | none => simp [step, found, succeed, fail]
  | some instr =>
      rw [step_of_get? found]
      simp only [Option.some.injEq, exists_eq_left', exists_and_left]
      generalize instr.perform (m.poised index) = performed
      obtain ⟨fault | _, out⟩ := performed
      · constructor
        · intro h
          cases h
          exact ⟨fault, rfl, rfl⟩
        · rintro ⟨_, h, rfl⟩
          cases h
          rfl
      · simp [succeed, fail]

/-- A machine advances if it has a counter and the step there succeeds. -/
theorem advance?_eq_some_iff {m m' : Machine} :
    m.advance? = some m' ↔ ∃ index, m.pc = some index ∧ m.step index = m'.succeed := by
  unfold advance?
  cases m.pc with
  | none => simp
  | some index =>
      rcases result : m.step index with ⟨_ | _, out⟩ <;> simp [result, succeed]

theorem step_of_advance? {m m' : Machine} {index : Nat} (pc : m.pc = some index)
    (advance : m.advance? = some m') : m.step index = m'.succeed := by
  obtain ⟨index', pc', step⟩ := advance?_eq_some_iff.mp advance
  cases pc.symm.trans pc'
  exact step

/-! ### Runs of several steps -/

theorem after?_succ (m : Machine) (n : Nat) :
    m.after? (n + 1) = m.advance?.bind (·.after? n) := by
  induction n with
  | zero => simp [after?]
  | succ n ih =>
      rw [after?, ih]
      cases m.advance? with
      | none => rfl
      | some m' => rfl

/-- What holds at the start and is kept by every step holds after every number of steps. -/
theorem after?_induction {P : Machine → Prop} {m m' : Machine} {n : Nat} (start : P m)
    (step : ∀ a b, P a → a.advance? = some b → P b) (reached : m.after? n = some m') : P m' := by
  induction n generalizing m' with
  | zero =>
      cases reached
      exact start
  | succ n ih =>
      obtain ⟨x, before, last⟩ := Option.bind_eq_some_iff.mp reached
      exact step x m' (ih before) last

/-- The state after one more step is the next of the state before it. -/
theorem stateAt?_succ (m : Machine) (n : Nat) :
    m.stateAt? (n + 1) = (m.stateAt? n).bind advance? := by
  unfold stateAt?
  cases m.start? with
  | none => rfl
  | some _ => rfl

/-- The states of a run are those of the run that goes on from one of them. -/
theorem stateAt?_add (m : Machine) (n k : Nat) :
    m.stateAt? (n + k) = (m.stateAt? n).bind (·.after? k) := by
  induction k with
  | zero => exact (Option.bind_fun_some _).symm
  | succ k ih =>
      rw [← Nat.add_assoc, stateAt?_succ, ih, Option.bind_assoc]
      rfl

/-- A run that has come so far has been in every state before. -/
theorem exists_stateAt?_of_le {m y : Machine} {n k : Nat} (le : n ≤ k)
    (reached : m.stateAt? k = some y) : ∃ x, m.stateAt? n = some x := by
  obtain ⟨d, rfl⟩ := Nat.exists_eq_add_of_le le
  rw [stateAt?_add] at reached
  obtain ⟨x, before, -⟩ := Option.bind_eq_some_iff.mp reached
  exact ⟨x, before⟩

theorem stateAt?_succ_iff {m x : Machine} {n : Nat} :
    m.stateAt? (n + 1) = some x ↔
      ∃ before, m.stateAt? n = some before ∧ before.advance? = some x := by
  rw [stateAt?_succ, Option.bind_eq_some_iff]

/-- A run begins once the labels are collected. -/
theorem stateAt?_zero_iff {m x : Machine} :
    m.stateAt? 0 = some x ↔
      (collectLabels 0 ∅ m.program.toList).1 = .ok () ∧
        x = { m with labels := m.program.labels }.reset := by
  rw [← start?_eq_some_iff, stateAt?]
  cases m.start? <;> rfl

/-- In a run that has started the labels are collected. -/
theorem collected_of_stateAt? {m x : Machine} {n : Nat} (reached : m.stateAt? n = some x) :
    (collectLabels 0 ∅ m.program.toList).1 = .ok () := by
  obtain ⟨first, started, -⟩ := Option.bind_eq_some_iff.mp reached
  exact (start?_eq_some_iff.mp started).1

/-- Induction along a run: what holds at the start and is kept by every step holds of every state.
-/
theorem stateAt?_induction {P : Machine → Prop} {m m' : Machine} {n : Nat}
    (start : ∀ a, m.start? = some a → P a) (step : ∀ a b, P a → a.advance? = some b → P b)
    (reached : m.stateAt? n = some m') : P m' := by
  obtain ⟨first, started, rest⟩ := Option.bind_eq_some_iff.mp reached
  exact after?_induction (start first started) step rest

/-! ### Runs that end -/

/-- The run of a machine ends with an outcome, given enough fuel. -/
def Finishes (m : Machine) (outcome : Outcome RuntimeError) : Prop :=
  ∃ fuel, m.execute fuel = .ended outcome

/-- A machine without a counter has ended, however much fuel is left. -/
theorem resume_of_rest {m : Machine} (pc : m.pc = none) (fuel : Nat) :
    resume fuel m = .ended m.succeed := by
  unfold resume
  simp only [pc]

theorem resume_of_advance {m m' : Machine} (advance : m.advance? = some m') (fuel : Nat) :
    resume (fuel + 1) m = resume fuel m' := by
  obtain ⟨index, pc, step⟩ := advance?_eq_some_iff.mp advance
  rw [resume]
  simp only [pc, step, succeed]

/-- A step that fails ends the run with its error. -/
theorem resume_of_failure {m m' : Machine} {index : Nat} {error : RuntimeError}
    (pc : m.pc = some index) (step : m.step index = m'.fail error) (fuel : Nat) :
    resume (fuel + 1) m = .ended (m'.fail error) := by
  rw [resume]
  simp only [pc, step, fail]

/-- A run that ends does so in a state that its fuel suffices to reach. -/
theorem reached_of_resume {fuel : Nat} {m : Machine} {outcome : Outcome RuntimeError}
    (ended : resume fuel m = .ended outcome) :
    ∃ n x, n ≤ fuel ∧ m.after? n = some x ∧ x.EndsWith outcome := by
  induction fuel generalizing m with
  | zero =>
      cases pc : m.pc with
      | none =>
          rw [resume_of_rest pc, Progress.ended.injEq] at ended
          exact ⟨0, m, Nat.le_refl 0, rfl, ended ▸ .rest pc⟩
      | some index => simp [resume, pc] at ended
  | succ fuel ih =>
      cases pc : m.pc with
      | none =>
          rw [resume_of_rest pc, Progress.ended.injEq] at ended
          exact ⟨0, m, Nat.zero_le _, rfl, ended ▸ .rest pc⟩
      | some index =>
          rcases step : m.step index with ⟨error | _, m'⟩
          · rw [resume_of_failure pc step, Progress.ended.injEq] at ended
            exact ⟨0, m, Nat.zero_le _, rfl, ended ▸ .failure pc step⟩
          · have advance : m.advance? = some m' := advance?_eq_some_iff.mpr ⟨index, pc, step⟩
            rw [resume_of_advance advance] at ended
            obtain ⟨n, x, le, reached, ends⟩ := ih ended
            refine ⟨n + 1, x, Nat.succ_le_succ le, ?_, ends⟩
            rw [after?_succ, advance]
            exact reached

/-- A run that ends after so many steps needs fuel for one more. -/
theorem resume_of_reached {n : Nat} {m x : Machine} {outcome : Outcome RuntimeError}
    (reached : m.after? n = some x) (ends : x.EndsWith outcome) :
    resume (n + 1) m = .ended outcome := by
  induction n generalizing m with
  | zero =>
      cases reached
      cases ends with
      | rest pc => exact resume_of_rest pc 1
      | failure pc step => exact resume_of_failure pc step 0
  | succ n ih =>
      rw [after?_succ] at reached
      obtain ⟨m', advance, rest⟩ := Option.bind_eq_some_iff.mp reached
      rw [resume_of_advance advance]
      exact ih rest

/-- A run that has used up its fuel is in the state after as many steps, and still running. -/
theorem reached_of_running {fuel : Nat} {m x : Machine} (running : resume fuel m = .running x) :
    m.after? fuel = some x ∧ x.pc.isSome := by
  induction fuel generalizing m with
  | zero =>
      cases pc : m.pc with
      | none => simp [resume_of_rest pc] at running
      | some index =>
          simp only [resume, pc, Progress.running.injEq] at running
          subst running
          exact ⟨rfl, by rw [pc]; rfl⟩
  | succ fuel ih =>
      cases pc : m.pc with
      | none => simp [resume_of_rest pc] at running
      | some index =>
          rcases step : m.step index with ⟨error | _, m'⟩
          · simp [resume_of_failure pc step] at running
          · have advance : m.advance? = some m' := advance?_eq_some_iff.mpr ⟨index, pc, step⟩
            rw [resume_of_advance advance] at running
            rw [after?_succ, advance]
            exact ih running

/-- A run that has not ended has taken as many steps as the fuel allowed. -/
theorem stateAt?_of_running {fuel : Nat} {m x : Machine} (running : m.execute fuel = .running x) :
    m.stateAt? fuel = some x ∧ x.pc.isSome := by
  revert running
  unfold execute stateAt? start?
  rcases m.mapLabels with ⟨error | _, m'⟩
  · intro running
    cases running
  · exact reached_of_running

/-- A run ends before its first step when the labels are in the way, and otherwise as one of the
states that it passes through. -/
theorem finishes_iff {m : Machine} {outcome : Outcome RuntimeError} :
    m.Finishes outcome ↔
      (m.start? = none ∧ m.mapLabels = outcome) ∨
        ∃ n x, m.stateAt? n = some x ∧ x.EndsWith outcome := by
  unfold Finishes execute stateAt? start?
  rcases m.mapLabels with ⟨error | _, m'⟩
  · simp
  · simp only [reduceCtorEq, false_and, false_or, Option.bind_some]
    constructor
    · rintro ⟨fuel, ended⟩
      obtain ⟨n, x, -, reached, ends⟩ := reached_of_resume ended
      exact ⟨n, x, reached, ends⟩
    · rintro ⟨n, x, reached, ends⟩
      exact ⟨n + 1, resume_of_reached reached ends⟩

/-- A run that ends also ends when it is taken up at one of its states. -/
theorem resume_of_finishes {m x : Machine} {n : Nat} {outcome : Outcome RuntimeError}
    (finishes : m.Finishes outcome) (reached : m.stateAt? n = some x) :
    ∃ fuel, resume fuel x = .ended outcome := by
  induction n generalizing x with
  | zero =>
      obtain ⟨fuel, ended⟩ := finishes
      refine ⟨fuel, ?_⟩
      revert ended reached
      unfold execute stateAt? start?
      rcases m.mapLabels with ⟨error | _, m'⟩
      · intro reached
        cases reached
      · intro reached ended
        cases reached
        exact ended
  | succ n ih =>
      obtain ⟨before, reachedBefore, advance⟩ := stateAt?_succ_iff.mp reached
      obtain ⟨fuel, ended⟩ := ih reachedBefore
      cases fuel with
      | zero =>
          obtain ⟨index, pc, -⟩ := advance?_eq_some_iff.mp advance
          simp [resume, pc] at ended
      | succ fuel =>
          rw [resume_of_advance advance] at ended
          exact ⟨fuel, ended⟩

/-! ### Relations that steps respect -/

section Chains

variable {R : Machine → Machine → Prop} (refl : ∀ x, R x x)
  (trans : ∀ x y z, R x y → R y z → R x z) (step : ∀ x index, R x (x.step index).machine)
  {m x y : Machine} {n k index fuel : Nat} {outcome : Outcome RuntimeError}
include refl trans step

/-- Several steps do what every single one does. -/
theorem after?_chain (reached : x.after? n = some y) : R x y := by
  refine after?_induction (P := R x) (refl x) (fun a b related advance => ?_) reached
  obtain ⟨index, -, stepped⟩ := advance?_eq_some_iff.mp advance
  have last := step a index
  rw [stepped] at last
  exact trans x a b related last

/-- A relation that every step keeps, failing ones included, relates a machine to the one its run
ends in. -/
theorem resume_chain (ended : resume fuel x = .ended outcome) : R x outcome.machine := by
  obtain ⟨n, z, -, reached, ends⟩ := reached_of_resume ended
  have related := after?_chain refl trans step reached
  cases ends with
  | rest => exact related
  | @failure index _ _ pc stepped =>
      have last := step z index
      rw [stepped] at last
      exact trans x z _ related last

/-- The same from the machine behind the next step. -/
theorem resume_chain_next (ended : resume fuel x = .ended outcome) (pc : x.pc = some index) :
    R (x.step index).machine outcome.machine := by
  cases fuel with
  | zero => simp [resume, pc] at ended
  | succ fuel =>
      rcases stepped : x.step index with ⟨error | _, y⟩
      · rw [resume_of_failure pc stepped, Progress.ended.injEq] at ended
        rw [← ended]
        exact refl y
      · rw [resume_of_advance (advance?_eq_some_iff.mpr ⟨index, pc, stepped⟩)] at ended
        exact resume_chain refl trans step ended

/-- The same between a state and any machine that shows later. -/
theorem shows_chain (le : n ≤ k) (reached : m.stateAt? n = some x) (shows : m.Shows k y) :
    R x y := by
  have between {z : Machine} (reached' : m.stateAt? k = some z) : R x z := by
    obtain ⟨d, rfl⟩ := Nat.exists_eq_add_of_le le
    rw [stateAt?_add, reached] at reached'
    exact after?_chain refl trans step reached'
  cases shows with
  | between reached' => exact between reached'
  | @failure z _ index _ reached' pc stepped =>
      have last := step z index
      rw [stepped] at last
      exact trans x z y (between reached') last

end Chains

end Machine

end FrameCode
