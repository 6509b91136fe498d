import FrameCode.Proofs.Check.Exactness
import FrameCode.Proofs.Machine.Transport
import FrameCode.Proofs.OutputLimit
import FrameCode.Proofs.Rearrangement
import FrameCode.Proofs.RepeatedRuns

/-!
Order numbers say which instruction comes before which, and nothing else. If they are replaced by
others in the same order, the instructions stand at the same indices as before, so the labels, the
program counter and the return addresses are the same numbers. What is found wrong with the program
is the same but for the order numbers; and the run of the one program follows that of the other step
by step (`Renumbered.step`), with nothing to tell them apart but the order numbers in errors and in
the reports that a program asks for.
-/

namespace FrameCode

open Text (Bytes)

/-! ### Programs -/

def Instruction.renumber (f : Nat → Nat) (instr : Instruction) : Instruction :=
  { instr with order := f instr.order }

/-- The function gives the instructions positive order numbers without changing their order. -/
structure IsRenumbering (f : Nat → Nat) (instrs : List Instruction) : Prop where
  positive : ∀ instr ∈ instrs, 1 ≤ f instr.order
  increasing : ∀ a ∈ instrs, ∀ b ∈ instrs, a.order < b.order → f a.order < f b.order

variable {f : Nat → Nat} {instrs instrs' : List Instruction} {instr : Instruction}

namespace Instruction

/-! Only the order number of a renumbered instruction is another. -/

theorem opcode_renumber : (instr.renumber f).opcode = instr.opcode := rfl

theorem operands_renumber : (instr.renumber f).operands = instr.operands := rfl

theorem argument?_renumber (position : Nat) :
    (instr.renumber f).argument? position = instr.argument? position := rfl

theorem wellFormed_renumber : (instr.renumber f).WellFormed ↔ instr.WellFormed := Iff.rfl

end Instruction

theorem Rearranges.renumber (f : Nat → Nat) (h : Rearranges instrs instrs') :
    Rearranges (instrs.map (·.renumber f)) (instrs'.map (·.renumber f)) := by
  obtain ⟨shuffled, shuffles, perm⟩ := h
  refine ⟨shuffled.map (·.renumber f), ?_, perm.map _⟩
  rw [List.forall₂_map_left_iff, List.forall₂_map_right_iff]
  refine shuffles.imp fun a b same => ?_
  exact ⟨same.opcode, congrArg f same.order, same.operands⟩

/-- A renumbering of instructions renumbers them in any order. -/
theorem IsRenumbering.of_rearranges (renumbering : IsRenumbering f instrs)
    (h : Rearranges instrs instrs') : IsRenumbering f instrs' := by
  refine ⟨fun instr mem => ?_, fun a memA b memB less => ?_⟩
  · obtain ⟨other, member, same⟩ := h.symm.exists_mem mem
    rw [same.order]
    exact renumbering.positive other member
  · obtain ⟨a', memA', sameA⟩ := h.symm.exists_mem memA
    obtain ⟨b', memB', sameB⟩ := h.symm.exists_mem memB
    rw [sameA.order, sameB.order] at less ⊢
    exact renumbering.increasing a' memA' b' memB' less

namespace Program

variable {program program' : Program}

def Renumbered (f : Nat → Nat) (program program' : Program) : Prop :=
  program'.toList = program.toList.map (·.renumber f)

/-- Renumbered instructions make the renumbered program. -/
theorem exists_renumbered (made : ofInstructions instrs = .ok program)
    (renumbering : IsRenumbering f instrs) :
    ∃ program', ofInstructions (instrs.map (·.renumber f)) = .ok program' ∧
      program.Renumbered f program' := by
  have rearranges := rearranges_of_ofInstructions made
  have inProgram := renumbering.of_rearranges rearranges
  obtain ⟨program', -, same⟩ : ∃ program', ofInstructions (program.toList.map (·.renumber f)) =
      .ok program' ∧ program'.toList = program.toList.map (·.renumber f) := by
    refine ofInstructions_of_ascending ?_ ?_ ?_
    · simp only [List.forall_mem_map]
      exact inProgram.positive
    · rw [List.pairwise_map]
      refine program.ascending.imp_of_mem fun {a b} memA memB less => ?_
      exact inProgram.increasing a memA b memB less
    · simp only [List.forall_mem_map]
      exact program.numbered
  refine ⟨program', ofInstructions_eq_ok_iff.mpr ?_, same⟩
  rw [same]
  exact rearranges.renumber f

namespace Renumbered

variable (same : program.Renumbered f program')
include same

/-- The instruction at an index is the renumbered one. -/
theorem get? (index : Nat) :
    program'.get? index = (program.get? index).map (·.renumber f) := by
  rw [← getElem?_toList, ← getElem?_toList, same, List.getElem?_map]

theorem size : program'.size = program.size := by
  have length := congrArg List.length same
  rwa [List.length_map] at length

end Renumbered

end Program

/-! ### The static check -/

namespace Check

def Finding.renumber (f : Nat → Nat) : Finding → Finding
  | .arityMismatch order opcode expected found =>
      .arityMismatch (f order) opcode expected found
  | .incompatibleOperand order opcode position expected found =>
      .incompatibleOperand (f order) opcode position expected found
  | .labelRedefinition order label => .labelRedefinition (f order) label
  | .undefinedLabel order label => .undefinedLabel (f order) label
  | .variableRedefinition order var => .variableRedefinition (f order) var

theorem defined_renumber {label : String} :
    Defined (instrs.map (·.renumber f)) label ↔ Defined instrs label := by
  simp [Defined, Instruction.wellFormed_renumber, Instruction.opcode_renumber,
    Instruction.argument?_renumber]

theorem declared_renumber {name : String} :
    Declared (instrs.map (·.renumber f)) name ↔ Declared instrs name := by
  simp [Declared, Instruction.wellFormed_renumber, Instruction.opcode_renumber,
    Instruction.argument?_renumber]

/-- Operands misfit regardless of the order number. -/
theorem misfit?_renumber (instr : Instruction) (slot : Nat) :
    misfit? (instr.renumber f) slot = (misfit? instr slot).map (·.renumber f) := by
  simp only [misfit?, Instruction.opcode_renumber, Instruction.argument?_renumber]
  split
  · split <;> rfl
  · rfl

/-- What is repeated does not depend on order numbers. -/
theorem repetition?_renumber (earlier : List Instruction) (instr : Instruction) :
    repetition? (earlier.map (·.renumber f)) (instr.renumber f) =
      (repetition? earlier instr).map (·.renumber f) := by
  simp only [repetition?, Instruction.opcode_renumber, Instruction.argument?_renumber,
    defined_renumber, declared_renumber]
  split
  · split <;> rfl
  · split <;> rfl
  · rfl

theorem findingsOn_renumber (earlier : List Instruction) (instr : Instruction) :
    findingsOn (earlier.map (·.renumber f)) (instr.renumber f) =
      (findingsOn earlier instr).map (·.renumber f) := by
  simp only [findingsOn, Instruction.opcode_renumber, Instruction.operands_renumber,
    Instruction.wellFormed_renumber]
  split
  · rfl
  · split
    · rw [repetition?_renumber, Option.toList_map]
    · rw [List.map_filterMap]
      exact List.filterMap_congr fun slot _ => misfit?_renumber instr slot

theorem undefinedTarget?_renumber (instrs : List Instruction) (instr : Instruction) :
    undefinedTarget? (instrs.map (·.renumber f)) (instr.renumber f) =
      (undefinedTarget? instrs instr).map (·.renumber f) := by
  simp only [undefinedTarget?, Instruction.opcode_renumber, Instruction.argument?_renumber,
    Instruction.wellFormed_renumber, defined_renumber]
  split
  · split
    · split <;> rfl
    · rfl
  · rfl

/-- The static check finds the same in the renumbered program. -/
theorem findings_renumbered {program program' : Program} (same : program.Renumbered f program') :
    findings program' = (findings program).map (·.renumber f) := by
  have instructions : instructionFindings program' =
      (instructionFindings program).map (·.renumber f) := by
    rw [instructionFindings, instructionFindings, same, List.zipIdx_map, List.flatMap_map,
      List.map_flatMap]
    refine congrArg (program.toList.zipIdx.flatMap ·) (funext fun entry => ?_)
    rw [← findingsOn_renumber, List.map_take]
    rfl
  have targets : undefinedTargets program' = (undefinedTargets program).map (·.renumber f) := by
    rw [undefinedTargets, undefinedTargets, same, List.filterMap_map, List.map_filterMap]
    exact List.filterMap_congr fun instr _ => undefinedTarget?_renumber program.toList instr
  rw [findings, findings, (visitAll_program program).1, (visitAll_program program').1,
    targetFindings_program, targetFindings_program, List.map_append, instructions, targets]

end Check

/-! ### Errors and diagnostics -/

def Site.renumber (f : Nat → Nat) (site : Site) : Site :=
  { site with order := f site.order }

def RuntimeError.renumber (f : Nat → Nat) (error : RuntimeError) : RuntimeError :=
  { error with site := error.site.map (·.renumber f) }

/-- A piece of the diagnostics. -/
inductive Note where
  | plain (bytes : Bytes)
  /-- A report: the order number at its beginning, and the text behind the number. -/
  | report (order : Nat) (details : String)

/-- The piece as it is written, with the order number of a report replaced. -/
def Note.bytes (f : Nat → Nat) : Note → Bytes
  | .plain bytes => bytes
  | .report order details => Text.encode ("BREAK at order " ++ toString (f order) ++ details)

/-- A report names the order number once, and the rest of it does not depend on it. -/
theorem Machine.exists_report (m : Machine) :
    ∃ details, ∀ order, m.report order = "BREAK at order " ++ toString order ++ details := by
  simp only [report, List.map_cons, String.join_cons, String.append_assoc]
  exact ⟨_, fun _ => rfl⟩

namespace Sink

variable {sink sink' : Sink}

/-- Two sinks that refuse nothing and have taken the same, but for order numbers in reports. -/
structure Renumbered (f : Nat → Nat) (sink sink' : Sink) : Prop where
  unlimited : sink.Unlimited ∧ sink'.Unlimited
  written : ∃ notes : List Note,
    sink.written = notes.flatMap (·.bytes id) ∧ sink'.written = notes.flatMap (·.bytes f)

theorem Renumbered.refl (unlimited : sink.Unlimited) : sink.Renumbered f sink := by
  refine ⟨⟨unlimited, unlimited⟩, [.plain sink.written], ?_, ?_⟩
  · simp [Note.bytes]
  · simp [Note.bytes]

theorem Unlimited.write_result (unlimited : sink.Unlimited) (chunk : Bytes) :
    (sink.write chunk).1 = .ok () := by
  unfold Sink.write
  cases chunk with
  | nil => rfl
  | cons byte rest => simp [unlimited _ _]

/-- Notes that differ in order numbers alone keep the sinks in step. -/
theorem Renumbered.write (same : sink.Renumbered f sink') (note : Note) :
    (sink.write (note.bytes id)).2.Renumbered f (sink'.write (note.bytes f)).2 := by
  obtain ⟨⟨unlimited, unlimited'⟩, notes, taken, taken'⟩ := same
  obtain ⟨still, written⟩ := unlimited.write (note.bytes id)
  obtain ⟨still', written'⟩ := unlimited'.write (note.bytes f)
  refine ⟨⟨still, still'⟩, notes ++ [note], ?_, ?_⟩
  · simp [written, taken]
  · simp [written', taken']

end Sink

/-! ### Machines -/

namespace Machine

def onto (program : Program) (diagnostics : Sink) (m : Machine) : Machine :=
  { m with program, diagnostics }

/-- Two machines for a program and the renumbered one that are otherwise in the same state. -/
structure Renumbered (f : Nat → Nat) (m m' : Machine) : Prop where
  program : m.program.Renumbered f m'.program
  state : m' = m.onto m'.program m'.diagnostics
  diagnostics : m.diagnostics.Renumbered f m'.diagnostics

variable {m m' : Machine} {program : Program} {diagnostics : Sink}

/-- As a transport, this leaves every index as it is. -/
def ontoTransport (program : Program) (diagnostics : Sink) (m : Machine) : Transport where
  program := program
  labels := m.labels
  index := id
  input := id
  output := id
  diagnostics := fun _ => diagnostics

theorem ontoTransport_apply {x : Machine} (labels : x.labels = m.labels) :
    (m.ontoTransport program diagnostics).apply x = x.onto program diagnostics := by
  have records : x.callStack.items.map (m.ontoTransport program diagnostics).record =
      x.callStack.items := List.map_id' _
  simp only [Transport.apply, records, onto]
  simp only [ontoTransport, Option.map_id_fun, id, ← labels]

/-- An instruction that is not for debugging uses neither the program nor the diagnostics. -/
theorem perform_onto (program : Program) (diagnostics : Sink) (running : m.pc.isSome)
    (plain : instr.opcode.kind ≠ .debug) :
    instr.perform (m.onto program diagnostics) =
      (instr.perform m).map (·.onto program diagnostics) := by
  have faithful : (m.ontoTransport program diagnostics).Faithful instr m :=
    ⟨running, fun label => Option.map_id_apply.symm, fun _ => rfl, fun _ _ _ => rfl⟩
  have performed := Transport.perform_apply faithful plain
  rw [ontoTransport_apply rfl] at performed
  rw [performed]
  have steers := instr.perform_steers m
  generalize instr.perform m = outcome at steers
  obtain ⟨fault | _, out⟩ := outcome
  · exact congrArg (Outcome.mk _) (ontoTransport_apply steers.1.labels)
  · exact congrArg (Outcome.mk _) (ontoTransport_apply steers.1.labels)

/-- Only instructions for debugging write diagnostics. -/
theorem perform_diagnostics (running : m.pc.isSome) (plain : instr.opcode.kind ≠ .debug) :
    (instr.perform m).machine.diagnostics = m.diagnostics :=
  congrArg (·.machine.diagnostics) (perform_onto m.program m.diagnostics running plain)

/-- Only a report shows an order number. -/
theorem perform_renumber (plain : instr.opcode.kind ≠ .debug) (m : Machine) :
    (instr.renumber f).perform m = instr.perform m := by
  unfold Instruction.perform
  rw [Instruction.opcode_renumber]
  cases action : instr.opcode.action with
  | report => exact absurd (Opcode.kind_eq_debug_iff.mpr (.inr action)) plain
  | _ => rfl

namespace Renumbered

variable (same : m.Renumbered f m')
include same

theorem pc : m'.pc = m.pc := by
  rw [same.state]
  rfl

/-- Writing a note keeps the machines alike. -/
theorem emitDiagnostic (note : Note) {text text' : String}
    (written : Text.encode text = note.bytes id) (written' : Text.encode text' = note.bytes f) :
    (m'.emitDiagnostic text').result = (m.emitDiagnostic text).result ∧
      (m.emitDiagnostic text).machine.Renumbered f (m'.emitDiagnostic text').machine := by
  obtain ⟨unlimited, unlimited'⟩ := same.diagnostics.unlimited
  unfold Machine.emitDiagnostic
  refine ⟨?_, same.program, ?_, ?_⟩
  · simp only [unlimited.write_result, unlimited'.write_result]
  · conv_lhs => rw [same.state]
    rfl
  · rw [written, written']
    exact same.diagnostics.write note

/-- A report of the renumbered instruction names the new order number. -/
theorem perform_debug (debug : instr.opcode.kind = .debug) :
    ((instr.renumber f).perform m').result = (instr.perform m).result ∧
      (instr.perform m).machine.Renumbered f ((instr.renumber f).perform m').machine := by
  unfold Instruction.perform
  rw [Instruction.opcode_renumber]
  rcases Opcode.kind_eq_debug_iff.mp debug with action | action
  · have source : m'.source (instr.renumber f) 1 = m.source instr 1 := by
      rw [same.state]
      rfl
    rw [action, Action.perform, Action.perform, source]
    cases m.source instr 1 with
    | ok value => exact same.emitDiagnostic (.plain (Text.encode value.text)) rfl rfl
    | error fault => exact ⟨rfl, same⟩
  · obtain ⟨details, report⟩ := m.exists_report
    have report' (order : Nat) : m'.report order = m.report order := by
      rw [same.state]
      rfl
    rw [action, Action.perform, Action.perform, report', report, report]
    exact same.emitDiagnostic (.report instr.order details) rfl rfl

/-- What an instruction does to one of the machines, the renumbered one does to the other. -/
theorem perform (running : m.pc.isSome) (instr : Instruction) :
    ((instr.renumber f).perform m').result = (instr.perform m).result ∧
      (instr.perform m).machine.Renumbered f ((instr.renumber f).perform m').machine := by
  by_cases debug : instr.opcode.kind = .debug
  · exact same.perform_debug debug
  · have performed := perform_onto m'.program m'.diagnostics running debug
    rw [← same.state] at performed
    rw [perform_renumber debug, performed]
    refine ⟨rfl, ?_, rfl, ?_⟩
    · rw [perform_program]
      exact same.program
    · rw [perform_diagnostics running debug]
      exact same.diagnostics

theorem poised (index : Nat) : (m.poised index).Renumbered f (m'.poised index) := by
  refine ⟨same.program, ?_, same.diagnostics⟩
  conv_lhs => rw [same.state]
  rfl

theorem retire (instr : Instruction) :
    (m.retire instr).Renumbered f (m'.retire (instr.renumber f)) := by
  refine ⟨same.program, ?_, same.diagnostics⟩
  unfold Machine.retire
  rw [same.program.size]
  conv_lhs => rw [same.state]
  rfl

end Renumbered

end Machine

structure Outcome.Renumbered (f : Nat → Nat) (outcome outcome' : Outcome RuntimeError) : Prop where
  result : outcome'.result = outcome.result.mapError (·.renumber f)
  machine : outcome.machine.Renumbered f outcome'.machine

/-- Two runs of a program and the renumbered one: both have ended, or both have not. -/
inductive Machine.Progress.Renumbered (f : Nat → Nat) : Progress → Progress → Prop where
  | ended {outcome outcome' : Outcome RuntimeError} (alike : outcome.Renumbered f outcome') :
      Renumbered f (.ended outcome) (.ended outcome')
  | running {m m' : Machine} (alike : m.Renumbered f m') :
      Renumbered f (.running m) (.running m')

namespace Outcome.Renumbered

variable {m : Machine} {outcome' : Outcome RuntimeError}

theorem exists_succeed (alike : Outcome.Renumbered f m.succeed outcome') :
    ∃ m', outcome' = m'.succeed ∧ m.Renumbered f m' := by
  obtain ⟨_, m'⟩ := outcome'
  obtain ⟨rfl, machine⟩ := alike
  exact ⟨m', rfl, machine⟩

theorem exists_fail {error : RuntimeError}
    (alike : Outcome.Renumbered f (m.fail error) outcome') :
    ∃ m', outcome' = m'.fail (error.renumber f) ∧ m.Renumbered f m' := by
  obtain ⟨_, m'⟩ := outcome'
  obtain ⟨rfl, machine⟩ := alike
  exact ⟨m', rfl, machine⟩

end Outcome.Renumbered

/-! ### Runs -/

namespace Machine

variable {m m' : Machine}

/-- Labels are collected alike, and an error names the new order number. -/
theorem collectLabels_renumber (f : Nat → Nat) (index : Nat) (table : Labels)
    (instrs : List Instruction) :
    collectLabels index table (instrs.map (·.renumber f)) =
      ((collectLabels index table instrs).1.mapError (·.renumber f),
        (collectLabels index table instrs).2) := by
  induction instrs generalizing index table with
  | nil => rfl
  | cons instr rest ih =>
      rw [List.map_cons]
      rcases instr.defines?_cases with ⟨opcode, -⟩ | ⟨opcode, unnamed, -⟩ | ⟨label, -, -, defines⟩
      · have opcode' : (instr.renumber f).opcode ≠ .label := opcode
        rw [collectLabels_cons_of_ne opcode', collectLabels_cons_of_ne opcode, ih]
      · have opcode' : (instr.renumber f).opcode = .label := opcode
        rw [collectLabels_cons_of_unnamed opcode' unnamed,
          collectLabels_cons_of_unnamed opcode unnamed]
        rfl
      · have defines' : (instr.renumber f).defines? = some label := defines
        by_cases old : label ∈ table
        · rw [collectLabels_cons_of_old defines' old, collectLabels_cons_of_old defines old]
          rfl
        · rw [collectLabels_cons_of_new defines' old, collectLabels_cons_of_new defines old, ih]

namespace Renumbered

/-- A step of the one machine is a step of the other. -/
theorem step (same : m.Renumbered f m') (index : Nat) :
    (m.step index).Renumbered f (m'.step index) := by
  have found' := same.program.get? index
  cases found : m.program.get? index with
  | none =>
      rw [found, Option.map_none] at found'
      simp only [Machine.step, found, found']
      refine ⟨rfl, same.program, ?_, same.diagnostics⟩
      conv_lhs => rw [same.state]
      rfl
  | some instr =>
      rw [found, Option.map_some] at found'
      obtain ⟨result, machine⟩ := (same.poised index).perform rfl instr
      rw [step_of_get? found, step_of_get? found']
      generalize instr.perform (m.poised index) = outcome at result machine
      generalize (instr.renumber f).perform (m'.poised index) = outcome' at result machine
      obtain ⟨fault | _, out⟩ := outcome
      · obtain ⟨_, out'⟩ := outcome'
        cases result
        exact ⟨rfl, machine⟩
      · obtain ⟨_, out'⟩ := outcome'
        cases result
        exact ⟨rfl, machine.retire instr⟩

/-- A run of the one machine is a run of the other. -/
theorem resume (same : m.Renumbered f m') (fuel : Nat) :
    (Machine.resume fuel m).Renumbered f (Machine.resume fuel m') := by
  fun_induction Machine.resume fuel m generalizing m' with
  | case1 fuel m pc =>
      rw [resume_of_rest (same.pc.trans pc)]
      exact .ended ⟨rfl, same⟩
  | case2 m index pc =>
      simp only [Machine.resume, same.pc, pc]
      exact .running same
  | case3 m index pc fuel out step ih =>
      have alike := same.step index
      rw [step] at alike
      obtain ⟨out', step', same'⟩ := alike.exists_succeed
      have advance : m'.advance? = some out' :=
        advance?_eq_some_iff.mpr ⟨index, same.pc.trans pc, step'⟩
      rw [resume_of_advance advance]
      exact ih same'
  | case4 m index pc fuel failed =>
      have alike := same.step index
      rcases step : m.step index with ⟨error | _, out⟩
      · rw [step] at alike
        obtain ⟨out', step', same'⟩ := alike.exists_fail
        rw [resume_of_failure (same.pc.trans pc) step']
        exact .ended ⟨rfl, same'⟩
      · exact absurd step (failed out)

theorem mapLabels (same : m.Renumbered f m') : m.mapLabels.Renumbered f m'.mapLabels := by
  have collected := collectLabels_renumber f 0 ∅ m.program.toList
  rw [← same.program] at collected
  unfold Machine.mapLabels
  rw [collected]
  refine ⟨rfl, same.program, ?_, same.diagnostics⟩
  conv_lhs => rw [same.state]
  rfl

theorem reset (same : m.Renumbered f m') : m.reset.Renumbered f m'.reset := by
  refine ⟨same.program, ?_, same.diagnostics⟩
  unfold Machine.reset
  rw [same.program.size]
  conv_lhs => rw [same.state]
  rfl

theorem execute (same : m.Renumbered f m') (fuel : Nat) :
    (m.execute fuel).Renumbered f (m'.execute fuel) := by
  have alike := same.mapLabels
  unfold Machine.execute
  rcases mapped : m.mapLabels with ⟨error | _, out⟩
  · rw [mapped] at alike
    obtain ⟨out', mapped', same'⟩ := alike.exists_fail
    rw [mapped']
    exact .ended ⟨rfl, same'⟩
  · rw [mapped] at alike
    obtain ⟨out', mapped', same'⟩ := alike.exists_succeed
    rw [mapped']
    exact same'.reset.resume fuel

end Renumbered

end Machine

namespace Program

open Machine

/-- Only the order of the order numbers matters. Renumbered instructions make a program if the
instructions do, and it is the renumbered one. The static check finds the same in it, at the new
order numbers. Its runs are like those of the first program, step by step: they end alike, with the
error at the new order number if there is one, they read and write the same and leave the same state
behind, and their diagnostics are the same but for the order numbers in reports. -/
theorem renumbered_alike {program : Program} (made : ofInstructions instrs = .ok program)
    (renumbering : IsRenumbering f instrs) :
    ∃ program', ofInstructions (instrs.map (·.renumber f)) = .ok program' ∧
      program.Renumbered f program' ∧
      Check.findings program' = (Check.findings program).map (·.renumber f) ∧
      ∀ input output diagnostics, diagnostics.Unlimited → ∀ fuel,
        ((fresh program input output diagnostics).execute fuel).Renumbered f
          ((fresh program' input output diagnostics).execute fuel) := by
  obtain ⟨program', made', same⟩ := exists_renumbered made renumbering
  refine ⟨program', made', same, Check.findings_renumbered same, ?_⟩
  intro input output diagnostics unlimited fuel
  have start : (fresh program input output diagnostics).Renumbered f
      (fresh program' input output diagnostics) := ⟨same, rfl, .refl unlimited⟩
  exact start.execute fuel

/-- Instructions out of order that report where they are and then jump to a label that is not
there. -/
def lost : List Instruction :=
  [.of 9 .jump [.label "nowhere"], .of 2 .defVar [.variable ⟨.global, "x"⟩], .of 4 .breakpoint []]

/-- They do the same under the order numbers 25, 45 and 95. -/
theorem lost_renumbered :
    ∃ program program', ofInstructions lost = .ok program ∧
      IsRenumbering (fun order => 10 * order + 5) lost ∧
        program'.toList.map (·.order) = [25, 45, 95] ∧
        Check.findings program' = [.undefinedLabel 95 "nowhere"] ∧
        ((fresh program { pending := [] } {} {}).execute 3).Renumbered
          (fun order => 10 * order + 5) ((fresh program' { pending := [] } {} {}).execute 3) := by
  obtain ⟨program, made, orders, found⟩ : ∃ program, ofInstructions lost = .ok program ∧
      program.toList.map (·.order) = [2, 4, 9] ∧
        Check.findings program = [.undefinedLabel 9 "nowhere"] := ⟨_, rfl, rfl, rfl⟩
  have renumbering : IsRenumbering (fun order => 10 * order + 5) lost :=
    ⟨fun _ _ => by omega, fun _ _ _ _ less => by omega⟩
  obtain ⟨program', -, same, found', alike⟩ := renumbered_alike made renumbering
  refine ⟨program, program', made, renumbering, ?_, ?_, alike _ _ _ (fun _ _ => rfl) 3⟩
  · rw [same, List.map_map]
    have orders' := congrArg (List.map fun order => 10 * order + 5) orders
    rwa [List.map_map] at orders'
  · rw [found', found]
    rfl

end Program

end FrameCode
