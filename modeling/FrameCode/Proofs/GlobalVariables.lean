import FrameCode.Proofs.Check.Exactness
import FrameCode.Proofs.Machine.Variables
import FrameCode.Proofs.Soundness

/-!
Global variables over a run. A step keeps the global variables and adds the one that it declares, so
after any number of steps exactly those are declared whose declarations have been executed
(`declared_iff_executed`). The static check allows each of them one declaration; hence a declaration
can fail for a variable that is there already only where it is executed again.
-/

namespace FrameCode

def Program.declaredAt? (program : Program) (index : Nat) : Option String :=
  (program.get? index).bind Check.declaredGlobal?

/-- The global variables that are declared stay declared, and those with a value keep having one. -/
structure Frames.GlobalsGrow (frames frames' : Frames) : Prop where
  declared : ∀ name, (frames.slot? ⟨.global, name⟩).isSome → (frames'.slot? ⟨.global, name⟩).isSome
  initialized : ∀ name value, frames.slot? ⟨.global, name⟩ = some (some value) →
    ∃ value', frames'.slot? ⟨.global, name⟩ = some (some value')

theorem Frames.GlobalsGrow.refl (frames : Frames) : frames.GlobalsGrow frames :=
  ⟨fun _ declared => declared, fun _ value initialized => ⟨value, initialized⟩⟩

theorem Frames.GlobalsGrow.trans {a b c : Frames} (first : a.GlobalsGrow b)
    (second : b.GlobalsGrow c) : a.GlobalsGrow c := by
  refine ⟨fun name declared => second.declared name (first.declared name declared), ?_⟩
  intro name value initialized
  obtain ⟨value', initialized'⟩ := first.initialized name value initialized
  exact second.initialized name value' initialized'

/-! ### One step -/

/-- The variable that the check sees declared is the one that the instruction declares. -/
theorem Check.declaredGlobal?_iff_destination {instr : Instruction} {name : String} :
    declaredGlobal? instr = some name ↔
      instr.opcode = .defVar ∧ instr.destination = .ok ⟨.global, name⟩ := by
  rw [declaredGlobal?_eq_some_iff, Instruction.destination_eq_ok_iff]

namespace Check

variable {program : Program} (clean : findings program = [])
include clean

/-- In a program without findings all instructions are well-formed. -/
theorem wellFormed_of_clean {instr : Instruction} (mem : instr ∈ program.toList) :
    instr.WellFormed := by
  obtain ⟨accepted, -, -⟩ := findings_eq_nil clean
  exact (signatureFindings_eq_nil_iff (program.numbered instr mem)).mp (accepted instr mem)

/-- In a program without findings no declaration of a global variable comes before another. -/
theorem not_declared_of_clean {index : Nat} {instr : Instruction} {name : String}
    (found : program.get? index = some instr) (declares : declaredGlobal? instr = some name) :
    ¬ Declared (program.toList.take index) name := by
  have wellFormed := wellFormed_of_clean clean (Program.mem_of_get? found)
  have none_found : instructionFindings program = [] := by
    rw [← (visitAll_program program).1]
    exact (List.append_eq_nil_iff.mp clean).1
  have silent : findingsOn (program.toList.take index) instr = [] := by
    refine List.flatMap_eq_nil_iff.mp none_found (instr, index) ?_
    rw [List.mk_mem_zipIdx_iff_getElem?, Program.getElem?_toList, found]
  rw [findingsOn_of_wellFormed wellFormed, repetition?_of_declaredGlobal? declares] at silent
  intro declared
  rw [if_pos declared] at silent
  cases silent

end Check

/-- What an instruction does to the slot of a global variable: nothing, or it gives a declared
variable a value, or it declares the variable. -/
theorem Instruction.Touches.global {instr : Instruction} {frames frames' : Frames}
    (touches : instr.Touches frames frames') (name : String) :
    (Check.declaredGlobal? instr ≠ some name ∧
        frames'.slot? ⟨.global, name⟩ = frames.slot? ⟨.global, name⟩) ∨
      (Check.declaredGlobal? instr ≠ some name ∧ (frames.slot? ⟨.global, name⟩).isSome ∧
        ∃ value, frames'.slot? ⟨.global, name⟩ = some (some value)) ∨
      (Check.declaredGlobal? instr = some name ∧ frames.slot? ⟨.global, name⟩ = none ∧
        frames'.slot? ⟨.global, name⟩ = some none) := by
  have silent (opcode : instr.opcode ≠ .defVar) : Check.declaredGlobal? instr ≠ some name :=
    fun declares => opcode (Check.declaredGlobal?_iff_destination.mp declares).1
  cases touches with
  | keep opcode same => exact .inl ⟨silent opcode, by rw [same]⟩
  | @store var value opcode destination written =>
      obtain ⟨held, slots⟩ := (frames.write_ensures var value).ok (committed_eq_ok_iff.mpr written)
      by_cases same : ⟨.global, name⟩ = var
      · subst same
        exact .inr (.inl ⟨silent opcode, held, value, by rw [slots, if_pos rfl]⟩)
      · exact .inl ⟨silent opcode, by rw [slots, if_neg same]⟩
  | @declare var opcode destination declared =>
      obtain ⟨free, slots⟩ := (frames.declare_ensures var).ok (committed_eq_ok_iff.mpr declared)
      by_cases same : ⟨.global, name⟩ = var
      · subst same
        have declares := Check.declaredGlobal?_iff_destination.mpr ⟨opcode, destination⟩
        exact .inr (.inr ⟨declares, free, by rw [slots, if_pos rfl]⟩)
      · refine .inl ⟨fun declares => ?_, by rw [slots, if_neg same]⟩
        have destination' := (Check.declaredGlobal?_iff_destination.mp declares).2
        cases destination.symm.trans destination'
        exact same rfl
  | create opcode same => exact .inl ⟨silent (by simp [opcode]), by rw [same]; rfl⟩
  | push opcode pushed =>
      have kept := congrArg (·.get? name) (Frames.pushTemporary_global pushed)
      exact .inl ⟨silent (by simp [opcode]), kept⟩
  | pop opcode popped =>
      have kept := congrArg (·.get? name) (Frames.popTemporary_global popped)
      exact .inl ⟨silent (by simp [opcode]), kept⟩

/-- No instruction takes a global variable or its value away. -/
theorem Instruction.Touches.grow {instr : Instruction} {frames frames' : Frames}
    (touches : instr.Touches frames frames') : frames.GlobalsGrow frames' := by
  constructor
  · intro name declared
    obtain ⟨-, kept⟩ | ⟨-, -, value, stored⟩ | ⟨-, free, -⟩ := touches.global name
    · rwa [kept]
    · rw [stored]
      rfl
    · rw [free] at declared
      cases declared
  · intro name value initialized
    obtain ⟨-, kept⟩ | ⟨-, -, value', stored⟩ | ⟨-, free, -⟩ := touches.global name
    · exact ⟨value, kept.trans initialized⟩
    · exact ⟨value', stored⟩
    · cases free.symm.trans initialized

/-- A global variable is there if it was there before or is declared now. -/
theorem Instruction.Touches.declared_iff {instr : Instruction} {frames frames' : Frames}
    (touches : instr.Touches frames frames') (name : String) :
    (frames'.slot? ⟨.global, name⟩).isSome ↔
      (frames.slot? ⟨.global, name⟩).isSome ∨ Check.declaredGlobal? instr = some name := by
  obtain ⟨silent, kept⟩ | ⟨silent, held, value, stored⟩ | ⟨declares, -, added⟩ :=
    touches.global name
  · simp [kept, silent]
  · simp [stored, held]
  · simp [added, declares]

namespace Machine

variable {m x y : Machine} {n k index : Nat} {name : String}

theorem grow_of_advance? (advance : x.advance? = some y) : x.frames.GlobalsGrow y.frames := by
  obtain ⟨index, pc, -⟩ := advance?_eq_some_iff.mp advance
  obtain ⟨-, same⟩ | ⟨instr, -, touches⟩ := advance?_touches pc advance
  · rw [same]
    exact .refl _
  · exact touches.grow

/-- A step declares the global variable of the declaration that it executes, and no other. -/
theorem declared_of_advance? (pc : x.pc = some index) (advance : x.advance? = some y) :
    (y.frames.slot? ⟨.global, name⟩).isSome ↔
      (x.frames.slot? ⟨.global, name⟩).isSome ∨ x.program.declaredAt? index = some name := by
  unfold Program.declaredAt?
  obtain ⟨missing, same⟩ | ⟨instr, found, touches⟩ := advance?_touches pc advance
  · simp [missing, same]
  · rw [found]
    exact touches.declared_iff name

/-! ### Runs -/

/-- Along a run the global variables grow. -/
theorem grow_of_stateAt? (later : n ≤ k) (reached : m.stateAt? n = some x)
    (reached' : m.stateAt? k = some y) : x.frames.GlobalsGrow y.frames := by
  obtain ⟨d, rfl⟩ := Nat.exists_eq_add_of_le later
  induction d generalizing y with
  | zero =>
      cases reached.symm.trans reached'
      exact .refl _
  | succ d ih =>
      obtain ⟨z, before, advance⟩ := stateAt?_succ_iff.mp reached'
      exact (ih (Nat.le_add_right n d) before).trans (grow_of_advance? advance)

/-- The step from a state executes a declaration of a global variable if the index that the state
stands at is one. -/
theorem executes_iff_declaredAt? (reached : m.stateAt? n = some x) (pc : x.pc = some index)
    (advance : x.advance? = some y) :
    (∃ index, m.program.declaredAt? index = some name ∧ m.ExecutesAt n index .defVar) ↔
      m.program.declaredAt? index = some name := by
  constructor
  · rintro ⟨index', declares, x', instr, reached', pc', -⟩
    cases reached.symm.trans reached'
    cases pc.symm.trans pc'
    exact declares
  · intro declares
    obtain ⟨instr, found, declares'⟩ := Option.bind_eq_some_iff.mp declares
    have opcode := (Check.declaredGlobal?_iff_destination.mp declares').1
    refine ⟨index, declares, x, instr, reached, pc, found, opcode, ?_⟩
    rw [stateAt?_succ, reached, Option.bind_some, advance]
    rfl

/-- Exactly those global variables are declared whose declarations the run has executed. -/
theorem declared_iff_executed (reached : m.stateAt? n = some x) (name : String) :
    (x.frames.slot? ⟨.global, name⟩).isSome ↔
      ∃ k < n, ∃ index, m.program.declaredAt? index = some name ∧
        m.ExecutesAt k index .defVar := by
  induction n generalizing x with
  | zero =>
      obtain ⟨-, rfl⟩ := stateAt?_zero_iff.mp reached
      have empty : ({} : Frames).slot? ⟨.global, name⟩ = none := Std.TreeMap.getElem?_emptyc
      simp [reset, empty]
  | succ n ih =>
      obtain ⟨before, reachedBefore, advance⟩ := stateAt?_succ_iff.mp reached
      obtain ⟨index, pc, -⟩ := advance?_eq_some_iff.mp advance
      rw [declared_of_advance? pc advance, ih reachedBefore,
        (setting_of_stateAt? reachedBefore).1,
        ← executes_iff_declaredAt? reachedBefore pc advance, Nat.exists_lt_succ_right]

/-! ### Declarations that fail -/

/-- A declaration fails as the frames refuse it, and changes nothing. -/
theorem perform_declaration_fails_iff {instr : Instruction} {var : Variable} {out : Machine}
    {fault : Fault} (opcode : instr.opcode = .defVar) (destination : instr.destination = .ok var) :
    instr.perform m = out.fail fault ↔ (m.frames.declare var).1 = .error fault ∧ out = m := by
  rw [Instruction.perform, opcode, Opcode.action, Action.perform_defVar destination,
    withFrames_eq_attempt (m.frames.declare_unharmed var), ← committed_eq_error_iff]
  cases committed (m.frames.declare var) with
  | ok frames => simp [Except.map, attempt, succeed, fail]
  | error fault' => simp [Except.map, attempt, fail, eq_comm]

section Clean

variable (clean : Check.findings m.program = [])
include clean

/-- In a program without findings a global variable has one declaration. -/
theorem declaredAt?_unique {first second : Nat} (declares : m.program.declaredAt? first = some name)
    (declares' : m.program.declaredAt? second = some name) : first = second := by
  -- Of two declarations the later one would be found to repeat the earlier one.
  have no_later {i j : Nat} (declares : m.program.declaredAt? i = some name)
      (declares' : m.program.declaredAt? j = some name) : ¬ i < j := by
    intro earlier
    obtain ⟨instr, found, declares⟩ := Option.bind_eq_some_iff.mp declares
    obtain ⟨instr', found', declares'⟩ := Option.bind_eq_some_iff.mp declares'
    have mem : instr ∈ m.program.toList.take j := by
      refine List.mem_of_getElem? (i := i) ?_
      rw [List.getElem?_take_of_lt earlier, Program.getElem?_toList, found]
    have wellFormed := Check.wellFormed_of_clean clean (Program.mem_of_get? found)
    exact Check.not_declared_of_clean clean found' declares'
      ⟨instr, mem, wellFormed, Check.declaredGlobal?_eq_some_iff.mp declares⟩
  have after := no_later declares declares'
  have before := no_later declares' declares
  omega

/-- A step fails for a global variable that is there already exactly where it is to declare it. -/
theorem step_redefines_iff (program : x.program = m.program)
    (labels : x.labels = m.program.labels) :
    (∃ (out : Machine) (error : RuntimeError), x.step index = out.fail error ∧
        error.fault = .variableRedefinition ⟨.global, name⟩) ↔
      m.program.declaredAt? index = some name ∧ (x.frames.slot? ⟨.global, name⟩).isSome := by
  constructor
  · rintro ⟨out, error, failed, fault⟩
    obtain ⟨instr, fault, found, performed, rfl⟩ := step_eq_fail_iff.mp failed
    cases fault
    rw [program] at found
    obtain ⟨supplies, known⟩ :=
      reads_of_clean (m := x.poised index) clean (Program.mem_of_get? found) labels
    by_cases declares : instr.opcode.action = .defVar
    · have opcode := Opcode.action_eq_defVar_iff.mp declares
      rw [declares] at supplies
      obtain ⟨var, destination⟩ := supplies.destination_eq_ok rfl
      obtain ⟨rfl, held⟩ := Frames.declare_eq_redefinition_iff.mp
        ((perform_declaration_fails_iff opcode destination).mp performed).1
      refine ⟨Option.bind_eq_some_iff.mpr ⟨instr, found, ?_⟩, held⟩
      exact Check.declaredGlobal?_iff_destination.mpr ⟨opcode, destination⟩
    · have ordinary := (Action.perform_ordinary declares supplies known).error
        (congrArg Outcome.result performed)
      cases ordinary
  · rintro ⟨declares, held⟩
    obtain ⟨instr, found, declares⟩ := Option.bind_eq_some_iff.mp declares
    obtain ⟨opcode, destination⟩ := Check.declaredGlobal?_iff_destination.mp declares
    have refused := Frames.declare_eq_redefinition_iff.mpr ⟨rfl, held⟩
    have performed := (perform_declaration_fails_iff (m := x.poised index) opcode destination).mpr
      ⟨refused, rfl⟩
    rw [← program] at found
    exact ⟨_, _, step_eq_fail_iff.mpr ⟨instr, _, found, performed, rfl⟩, rfl⟩

end Clean

/-- In a program that the static check approves of, a step fails for a global variable that is there
already exactly when it is the declaration of that variable, and the run has executed it before.
Along every run, to the machine that a failing step leaves, the global variables grow. -/
theorem global_redefinition (m : Machine) (clean : Check.findings m.program = []) :
    (∀ n x index name, m.stateAt? n = some x → x.pc = some index →
      ((∃ (out : Machine) (error : RuntimeError), x.step index = out.fail error ∧
          error.fault = .variableRedefinition ⟨.global, name⟩) ↔
        m.program.declaredAt? index = some name ∧ ∃ k < n, m.ExecutesAt k index .defVar)) ∧
      ∀ n k x y, n ≤ k → m.stateAt? n = some x → m.Shows k y → x.frames.GlobalsGrow y.frames := by
  constructor
  · intro n x index name reached _
    obtain ⟨program, labels⟩ := setting_of_stateAt? reached
    rw [step_redefines_iff clean program labels, declared_iff_executed reached]
    refine and_congr_right fun declares => ⟨?_, ?_⟩
    · rintro ⟨k, earlier, index', declares', executed⟩
      cases declaredAt?_unique clean declares declares'
      exact ⟨k, earlier, executed⟩
    · rintro ⟨k, earlier, executed⟩
      exact ⟨k, earlier, index, declares, executed⟩
  · intro n k x y later reached shown
    cases shown with
    | between reached' => exact grow_of_stateAt? later reached reached'
    | failure reached' _ step =>
        rw [frames_of_step_fail step]
        exact grow_of_stateAt? later reached reached'

/-- A loop that declares a variable and gives it a value each time round. -/
def initializingLoop : Machine where
  program :=
    { instructions := #[⟨.label, 1, [⟨1, .label "loop"⟩]⟩,
        ⟨.defVar, 2, [⟨1, .variable ⟨.global, "x"⟩⟩]⟩,
        ⟨.move, 3, [⟨1, .variable ⟨.global, "x"⟩⟩, ⟨2, .literal "1" (.int 1)⟩]⟩,
        ⟨.jump, 4, [⟨1, .label "loop"⟩]⟩] }
  input := { pending := [] }

/-- The second time the declaration fails, and the variable still has a value. -/
theorem initializingLoop_redefinition :
    ∃ (x out : Machine) (error : RuntimeError), initializingLoop.stateAt? 4 = some x ∧
      x.step 1 = out.fail error ∧ error.fault = .variableRedefinition ⟨.global, "x"⟩ ∧
      ∃ value, out.frames.slot? ⟨.global, "x"⟩ = some (some value) := by
  have clean : Check.findings initializingLoop.program = [] := by decide
  obtain ⟨redefinition, grow⟩ := global_redefinition initializingLoop clean
  obtain ⟨out, error, step, fault⟩ := (redefinition 4 _ 1 "x" rfl rfl).mpr
    ⟨rfl, 1, by decide, _, _, rfl, rfl, rfl, rfl, rfl⟩
  refine ⟨_, out, error, rfl, step, fault, ?_⟩
  exact (grow 3 4 _ out (by decide) rfl (.failure rfl rfl step)).initialized "x" (.int 1) rfl

end Machine

end FrameCode
