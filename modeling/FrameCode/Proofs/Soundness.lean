import FrameCode.Proofs.Labels
import FrameCode.Proofs.Machine.Control
import FrameCode.Proofs.Machine.Failures

/-!
Soundness of the static check. A program without findings never fails for want of an operand or a
label: its labels are collected without an error, and whatever a step fails with depends on the
values, variables and channels of the run and is blamed on an instruction of the program.
-/

namespace FrameCode

theorem Opcode.isJump_of_reads {op : Opcode} (reads : op.action.reads[0]? = some .label) :
    op.isJump = true := by
  cases op <;> first | rfl | cases reads

/-- A well-formed definition names its label. -/
theorem Instruction.Numbered.label?_isSome {instr : Instruction} (numbered : instr.Numbered)
    (accepted : Check.signatureFindings instr = []) (opcode : instr.opcode = .label) :
    instr.label?.isSome := by
  have supplies := numbered.supplies accepted
  rw [opcode] at supplies
  obtain ⟨name, named⟩ := supplies.target_eq_ok rfl
  exact Option.isSome_iff_exists.mpr ⟨name, label?_of_target (.inl opcode) named⟩

namespace Machine

section Clean

variable {program : Program} (clean : Check.findings program = [])
include clean

/-- The labels of a program without findings are collected without an error. -/
theorem collectLabels_of_clean : (collectLabels 0 ∅ program.toList).1 = .ok () := by
  obtain ⟨accepted, nodup, -⟩ := Check.findings_eq_nil clean
  refine collectLabels_ok_iff.mpr ⟨?_, nodup, fun label _ => Std.TreeMap.not_mem_emptyc⟩
  intro instr mem opcode
  exact (program.numbered instr mem).label?_isSome (accepted instr mem) opcode

/-- In a program without findings control passes only to labels that are in the table. -/
theorem labels_of_clean {instr : Instruction} (mem : instr ∈ program.toList) {label : String}
    (branches : instr.branchesTo? = some label) : (program.labels[label]?).isSome := by
  obtain ⟨-, -, defined⟩ := Check.findings_eq_nil clean
  obtain ⟨other, otherMem, defines⟩ := mem_definedLabels.mp (defined instr mem label branches)
  obtain ⟨k, at_k⟩ := List.getElem?_of_mem otherMem
  refine Option.isSome_iff_exists.mpr ⟨0 + k + 1, ?_⟩
  exact (collectLabels_getElem? (collectLabels_of_clean clean) label _).mpr
    (.inr ⟨k, other, at_k, defines, rfl⟩)

/-- With the table of labels at hand, an instruction of a program without findings has the operands
that it asks for, and its label is known. -/
theorem reads_of_clean {instr : Instruction} (mem : instr ∈ program.toList) {m : Machine}
    (labels : m.labels = program.labels) :
    instr.Supplies instr.opcode.action.reads ∧
      (instr.opcode.action.reads[0]? = some .label →
        ∀ label, instr.target = .ok label → (m.target? label).isSome) := by
  obtain ⟨accepted, -, -⟩ := Check.findings_eq_nil clean
  have supplies := (program.numbered instr mem).supplies (accepted instr mem)
  refine ⟨supplies.mono instr.opcode.reads_prefix, ?_⟩
  intro reads label named
  have branches := Instruction.branchesTo?_of_target (Opcode.isJump_of_reads reads) named
  rw [target?, labels]
  exact labels_of_clean clean mem branches

/-- So it fails only dynamically. -/
theorem perform_dynamic_of_clean {instr : Instruction} (mem : instr ∈ program.toList) {m : Machine}
    (labels : m.labels = program.labels) : (instr.perform m).FailsDynamically := by
  obtain ⟨supplies, known⟩ := reads_of_clean clean mem labels
  exact Action.perform_dynamic supplies known

end Clean

/-- The static check is sound. Its approval of a program means, whatever the input and however the
channels behave, that the labels are collected and that a run, if it fails, does so with a dynamic
fault in an instruction of the program. -/
theorem fault_of_verified_run (m : Machine) (clean : Check.findings m.program = []) :
    m.mapLabels.result = .ok () ∧
      ∀ fuel outcome error, m.execute fuel = .ended outcome → outcome.result = .error error →
        error.fault.isDynamic = true ∧
          ∃ instr ∈ m.program.toList, error.site = some instr.site := by
  have collected := collectLabels_of_clean clean
  refine ⟨collected, ?_⟩
  intro fuel outcome error ended failed
  obtain ⟨blocked, -⟩ | ⟨n, x, reached, ends⟩ := finishes_iff.mp ⟨fuel, ended⟩
  · have started := start?_eq_some_iff.mpr ⟨collected, rfl⟩
    cases blocked.symm.trans started
  · obtain ⟨program, labels⟩ := setting_of_stateAt? reached
    cases ends with
    | rest => cases failed
    | @failure index _ _ pc step =>
        cases failed
        obtain ⟨instr, fault, found, performed, rfl⟩ := step_eq_fail_iff.mp step
        rw [program] at found
        have mem := Program.mem_of_get? found
        have dynamic : (instr.perform (x.poised index)).FailsDynamically :=
          perform_dynamic_of_clean clean mem labels
        exact ⟨dynamic.error (congrArg Outcome.result performed), instr, mem, rfl⟩

/-- A loop that declares a variable each time round. The static check finds nothing in it. -/
def declaringLoop : Machine where
  program :=
    { instructions := #[⟨.label, 1, [⟨1, .label "loop"⟩]⟩,
        ⟨.defVar, 2, [⟨1, .variable ⟨.global, "x"⟩⟩]⟩, ⟨.jump, 3, [⟨1, .label "loop"⟩]⟩] }
  input := { pending := [] }

/-- The second declaration fails, which only the run can show. -/
theorem declaringLoop_fault :
    ∃ outcome error, declaringLoop.execute 4 = .ended outcome ∧ outcome.result = .error error ∧
      error.fault = .variableRedefinition ⟨.global, "x"⟩ ∧ error.fault.isDynamic = true ∧
        ∃ instr ∈ declaringLoop.program.toList, error.site = some instr.site := by
  have clean : Check.findings declaringLoop.program = [] := by decide
  refine ⟨_, _, rfl, rfl, rfl, ?_⟩
  exact (fault_of_verified_run declaringLoop clean).2 4 _ _ rfl rfl

end Machine

end FrameCode
