import FrameCode.Proofs.Labels
import FrameCode.Proofs.Operands
import Mathlib.Data.List.Basic

/-!
Exactness of the static check. What is wrong with a program is said here without a pass over it:
`findingsOn` looks at one instruction and those before it, `undefinedTarget?` at one instruction and
the whole program. The findings of the check are these, instruction by instruction
(`findings_exact`). The scan gets there with three tables that it carries along; `Scan.Covers` says
what they hold after any number of instructions.
-/

namespace FrameCode

namespace Instruction

instance (instr : Instruction) (kinds : List OperandKind) : Decidable (instr.Supplies kinds) :=
  decidable_of_iff
    (∀ entry ∈ kinds.zipIdx, (instr.argument? (entry.2 + 1)).any entry.1.accepts = true) <| by
    simp only [Prod.forall, List.mk_mem_zipIdx_iff_getElem?, Option.any_eq_true]
    exact forall_comm

/-- The instruction has as many operands as its opcode takes, and they are of the kinds it takes. -/
def WellFormed (instr : Instruction) : Prop :=
  instr.operands.length = instr.opcode.arity ∧ instr.Supplies instr.opcode.signature

instance (instr : Instruction) : Decidable instr.WellFormed :=
  inferInstanceAs (Decidable (_ ∧ _))

end Instruction

namespace Check

/-! ### What is wrong with a program -/

/-- The finding on the operand in a slot, if it is not of the kind that belongs there. -/
def misfit? (instr : Instruction) (slot : Nat) : Option Finding :=
  match instr.opcode.signature[slot]?, instr.argument? (slot + 1) with
  | some expected, some found =>
      if expected.accepts found then none
      else some (.incompatibleOperand instr.order instr.opcode (slot + 1) expected found)
  | _, _ => none

def Defined (instrs : List Instruction) (label : String) : Prop :=
  ∃ instr ∈ instrs, instr.WellFormed ∧ instr.opcode = .label ∧
    instr.argument? 1 = some (.label label)

def Declared (instrs : List Instruction) (name : String) : Prop :=
  ∃ instr ∈ instrs, instr.WellFormed ∧ instr.opcode = .defVar ∧
    instr.argument? 1 = some (.variable ⟨.global, name⟩)

instance (instrs : List Instruction) (label : String) : Decidable (Defined instrs label) :=
  inferInstanceAs (Decidable (∃ _ ∈ _, _))

instance (instrs : List Instruction) (name : String) : Decidable (Declared instrs name) :=
  inferInstanceAs (Decidable (∃ _ ∈ _, _))

/-- The finding on a well-formed instruction that does again what an earlier one has done. -/
def repetition? (earlier : List Instruction) (instr : Instruction) : Option Finding :=
  match instr.opcode, instr.argument? 1 with
  | .label, some (.label label) =>
      if Defined earlier label then some (.labelRedefinition instr.order label) else none
  | .defVar, some (.variable ⟨.global, name⟩) =>
      if Declared earlier name then some (.variableRedefinition instr.order ⟨.global, name⟩)
      else none
  | _, _ => none

/-- The findings on an instruction behind the earlier ones: on the number of its operands, or else
on each that does not fit, or else on what it repeats. -/
def findingsOn (earlier : List Instruction) (instr : Instruction) : List Finding :=
  if instr.operands.length ≠ instr.opcode.arity then
    [.arityMismatch instr.order instr.opcode instr.opcode.arity instr.operands.length]
  else if instr.WellFormed then (repetition? earlier instr).toList
  else (List.range instr.opcode.arity).filterMap (misfit? instr)

/-- On a well-formed instruction only a repetition can be found. -/
theorem findingsOn_of_wellFormed {instr : Instruction} (wellFormed : instr.WellFormed)
    (earlier : List Instruction) :
    findingsOn earlier instr = (repetition? earlier instr).toList := by
  rw [findingsOn, if_neg (not_not_intro wellFormed.1), if_pos wellFormed]

/-- The opcodes whose first operand is a label that control may pass to. -/
def branchOpcodes : List Opcode :=
  [.call, .jump, .jumpIfEq, .jumpIfNeq, .jumpIfEqs, .jumpIfNeqs]

/-- The finding on a well-formed jump or call to a label that no well-formed instruction of the
program defines. -/
def undefinedTarget? (instrs : List Instruction) (instr : Instruction) : Option Finding :=
  if instr.opcode ∈ branchOpcodes ∧ instr.WellFormed then
    match instr.argument? 1 with
    | some (.label label) =>
        if Defined instrs label then none else some (.undefinedLabel instr.order label)
    | _ => none
  else none

def instructionFindings (program : Program) : List Finding :=
  program.toList.zipIdx.flatMap fun (instr, index) => findingsOn (program.toList.take index) instr

def undefinedTargets (program : Program) : List Finding :=
  program.toList.filterMap (undefinedTarget? program.toList)

/-! ### What the scan asks an instruction for -/

section Asked

variable {instr : Instruction} {label name : String} {earlier instrs : List Instruction}

theorem declaresVariable_iff {op : Opcode} : op.declaresVariable = true ↔ op = .defVar := by
  cases op <;> simp [Opcode.declaresVariable]

theorem mem_branchOpcodes_iff {op : Opcode} : op ∈ branchOpcodes ↔ op.isJump = true := by
  cases op <;> decide

/-- A global variable is declared by the one opcode for it, in the first operand. -/
theorem declaredGlobal?_eq_some_iff :
    declaredGlobal? instr = some name ↔
      instr.opcode = .defVar ∧ instr.argument? 1 = some (.variable ⟨.global, name⟩) := by
  unfold declaredGlobal?
  rw [← declaresVariable_iff]
  cases instr.opcode.declaresVariable with
  | false => simp
  | true =>
      cases instr.argument? 1 with
      | none => simp
      | some argument =>
          cases argument with
          | «variable» var =>
              obtain ⟨tag, other⟩ := var
              cases tag <;> simp [Argument.var?]
          | literal | label | typeName => simp [Argument.var?]

/-- No instruction defines a label and declares a variable. -/
theorem declaredGlobal?_of_defines? (defines : instr.defines? = some label) :
    declaredGlobal? instr = none := by
  refine Option.eq_none_iff_forall_ne_some.mpr fun name declares => ?_
  have opcode := (Instruction.defines?_eq_some_iff.mp defines).1
  cases opcode.symm.trans (declaredGlobal?_eq_some_iff.mp declares).1

/-- A definition repeats an earlier one of its label. -/
theorem repetition?_of_defines? (defines : instr.defines? = some label) :
    repetition? earlier instr =
      if Defined earlier label then some (.labelRedefinition instr.order label) else none := by
  obtain ⟨opcode, named⟩ := Instruction.defines?_eq_some_iff.mp defines
  simp only [repetition?, opcode, named]

/-- A declaration repeats an earlier one of its variable. -/
theorem repetition?_of_declaredGlobal? (declares : declaredGlobal? instr = some name) :
    repetition? earlier instr =
      if Declared earlier name then some (.variableRedefinition instr.order ⟨.global, name⟩)
      else none := by
  obtain ⟨opcode, named⟩ := declaredGlobal?_eq_some_iff.mp declares
  simp only [repetition?, opcode, named]

/-- An instruction that neither defines nor declares repeats nothing. -/
theorem repetition?_of_silent (undefining : instr.defines? = none)
    (undeclaring : declaredGlobal? instr = none) : repetition? earlier instr = none := by
  unfold repetition?
  split
  · next opcode named =>
    cases undefining.symm.trans (Instruction.defines?_eq_some_iff.mpr ⟨opcode, named⟩)
  · next opcode named =>
    cases undeclaring.symm.trans (declaredGlobal?_eq_some_iff.mpr ⟨opcode, named⟩)
  · rfl

/-- A target is looked up in the whole program. -/
theorem undefinedTarget?_of_branchesTo? (branches : instr.branchesTo? = some label) :
    undefinedTarget? instrs instr =
      if instr.WellFormed ∧ ¬ Defined instrs label then some (.undefinedLabel instr.order label)
      else none := by
  obtain ⟨jumps, named⟩ := Instruction.branchesTo?_eq_some_iff.mp branches
  simp only [undefinedTarget?, mem_branchOpcodes_iff.mpr jumps, named, true_and]
  by_cases wellFormed : instr.WellFormed
  · simp [wellFormed]
  · simp [wellFormed]

/-- An instruction that names no target has none that is undefined. -/
theorem undefinedTarget?_of_silent (silent : instr.branchesTo? = none) :
    undefinedTarget? instrs instr = none := by
  unfold undefinedTarget?
  split
  · next jumps =>
    split
    · next named =>
      have branches := Instruction.branchesTo?_eq_some_iff.mpr
        ⟨mem_branchOpcodes_iff.mp jumps.1, named⟩
      cases silent.symm.trans branches
    · rfl
  · rfl

end Asked

/-! ### Operands -/

/-- Going through the items is going through their indices. -/
theorem filterMap_eq_range {α β : Type} (f : α → Option β) (items : List α) :
    items.filterMap f = (List.range items.length).filterMap fun k => items[k]?.bind f := by
  induction items with
  | nil => rfl
  | cons item rest ih =>
      rw [List.length_cons, List.range_succ_eq_map, List.filterMap_cons, List.filterMap_cons, ih,
        List.filterMap_map]
      rfl

section Numbered

variable {instr : Instruction} (numbered : instr.Numbered)
include numbered

/-- In a numbered instruction the position of an operand is its slot, counted from one. -/
theorem position_of_slot {slot : Nat} {operand : Operand}
    (found : instr.operands[slot]? = some operand) : operand.position = slot + 1 := by
  have positions := congrArg (·[slot]?) numbered
  obtain ⟨inRange, -⟩ := List.getElem?_eq_some_iff.mp found
  simp only [List.getElem?_map, found, Option.map_some, List.getElem?_range' inRange,
    Option.some.injEq] at positions
  omega

/-- Where the number of operands is right, the check goes through the slots. -/
theorem signatureFindings_of_length (count : instr.operands.length = instr.opcode.arity) :
    signatureFindings instr = (List.range instr.opcode.arity).filterMap (misfit? instr) := by
  have length : (instr.operands.zip instr.opcode.signature).length = instr.opcode.arity := by
    rw [List.length_zip, count, Opcode.arity, Nat.min_self]
  rw [signatureFindings, if_pos count, filterMap_eq_range, length]
  refine List.filterMap_congr fun slot _ => ?_
  rw [misfit?, Instruction.argument?, numbered.operand?, List.zip, List.getElem?_zipWith]
  cases found : instr.operands[slot]? with
  | none => cases instr.opcode.signature[slot]? <;> rfl
  | some operand =>
      cases instr.opcode.signature[slot]? with
      | none => rfl
      | some expected => simp [position_of_slot numbered found]

/-- Nothing is found on the operands exactly of a well-formed instruction. -/
theorem signatureFindings_eq_nil_iff : signatureFindings instr = [] ↔ instr.WellFormed := by
  constructor
  · intro clean
    refine ⟨?_, numbered.supplies clean⟩
    unfold signatureFindings at clean
    split at clean
    · assumption
    · cases clean
  · rintro ⟨count, supplies⟩
    rw [signatureFindings_of_length numbered count, List.filterMap_eq_nil_iff]
    intro slot _
    unfold misfit?
    split
    · next expected found at_slot argument =>
      obtain ⟨_, argument', accepted⟩ := supplies slot expected at_slot
      cases argument.symm.trans argument'
      exact if_pos accepted
    · rfl

end Numbered

/-! ### The scan -/

theorem defined_append_singleton {earlier : List Instruction} {instr : Instruction}
    {label : String} :
    Defined (earlier ++ [instr]) label ↔
      Defined earlier label ∨ (instr.WellFormed ∧ instr.defines? = some label) := by
  simp [Defined, Instruction.defines?_eq_some_iff, or_and_right, exists_or]

theorem declared_append_singleton {earlier : List Instruction} {instr : Instruction}
    {name : String} :
    Declared (earlier ++ [instr]) name ↔
      Declared earlier name ∨ (instr.WellFormed ∧ declaredGlobal? instr = some name) := by
  simp [Declared, declaredGlobal?_eq_some_iff, or_and_right, exists_or]

namespace Scan

variable {scan : Scan} {earlier : List Instruction} {instr : Instruction}

/-- The tables hold what the well-formed instructions so far define and declare. -/
structure Covers (scan : Scan) (earlier : List Instruction) : Prop where
  labels : ∀ label, scan.isDefined label = true ↔ Defined earlier label
  globals : ∀ name, scan.globals.contains name = true ↔ Declared earlier name

theorem covers_empty : Covers {} [] where
  labels label := by simp [isDefined, Defined]
  globals name := by simp [Declared]

@[simp] theorem recordLabel_globals (scan : Scan) (instr : Instruction) :
    (scan.recordLabel instr).1.globals = scan.globals := by
  unfold recordLabel
  split
  · rfl
  · split
    · split <;> rfl
    · rfl

/-- Recording adds the variable that is declared. -/
theorem recordGlobal_globals (scan : Scan) (instr : Instruction) (name : String) :
    (scan.recordGlobal instr).1.globals.contains name = true ↔
      scan.globals.contains name = true ∨ declaredGlobal? instr = some name := by
  unfold recordGlobal
  cases declares : declaredGlobal? instr with
  | none => simp
  | some other =>
      by_cases old : scan.globals.contains other = true
      · simp only [old, if_true, Option.some.injEq]
        constructor
        · exact .inl
        · rintro (known | rfl)
          · exact known
          · exact old
      · simp [old, or_comm]

/-- Only a definition can be found to repeat a label. -/
theorem recordLabel_of_silent (scan : Scan) (silent : instr.defines? = none) :
    (scan.recordLabel instr).2 = [] := by
  unfold recordLabel
  split
  · rfl
  · next label named =>
    have opcode : instr.opcode ≠ .label := by
      intro opcode
      simp [Instruction.defines?, opcode, named] at silent
    rw [if_neg opcode]

/-- What is found when a label is recorded, and then a variable, is what the instruction repeats. -/
theorem record_findings (covers : scan.Covers earlier) (instr : Instruction) :
    (scan.recordLabel instr).2 ++ ((scan.recordLabel instr).1.recordGlobal instr).2 =
      (repetition? earlier instr).toList := by
  cases defines : instr.defines? with
  | some label =>
      obtain ⟨opcode, named⟩ : instr.opcode = .label ∧ instr.label? = some label := by
        simpa [Instruction.defines?] using defines
      have silent := declaredGlobal?_of_defines? defines
      simp only [recordLabel, recordGlobal, repetition?_of_defines? defines, silent, opcode, named,
        if_true, List.append_nil, covers.labels label]
      split <;> rfl
  | none =>
      rw [recordLabel_of_silent scan defines, List.nil_append, recordGlobal, recordLabel_globals]
      cases declares : declaredGlobal? instr with
      | none => rw [repetition?_of_silent defines declares, Option.toList_none]
      | some name =>
          simp only [repetition?_of_declaredGlobal? declares, covers.globals name]
          split <;> rfl

/-- Looking at one more instruction finds what is wrong with it, and keeps the tables complete. -/
theorem visit_covers (covers : scan.Covers earlier) (numbered : instr.Numbered) :
    (scan.visit instr).2 = findingsOn earlier instr ∧
      (scan.visit instr).1.Covers (earlier ++ [instr]) := by
  by_cases wellFormed : instr.WellFormed
  · have accepted := (signatureFindings_eq_nil_iff numbered).mpr wellFormed
    rw [visit_of_accepted accepted]
    refine ⟨?_, ?_, ?_⟩
    · rw [findingsOn_of_wellFormed wellFormed]
      exact record_findings covers instr
    · intro label
      rw [recordGlobal_isDefined, recordLabel_isDefined, covers.labels, defined_append_singleton]
      simp [wellFormed]
    · intro name
      rw [recordGlobal_globals, recordLabel_globals, covers.globals, declared_append_singleton]
      simp [wellFormed]
  · have refused := mt (signatureFindings_eq_nil_iff numbered).mp wellFormed
    rw [visit_of_refused refused]
    refine ⟨?_, ?_, ?_⟩
    · by_cases count : instr.operands.length = instr.opcode.arity
      · rw [findingsOn, if_neg (not_not_intro count), if_neg wellFormed]
        exact signatureFindings_of_length numbered count
      · rw [findingsOn, if_pos count, signatureFindings, if_neg count]
    · intro label
      rw [covers.labels, defined_append_singleton]
      simp [wellFormed]
    · intro name
      rw [covers.globals, declared_append_singleton]
      simp [wellFormed]

/-- The pass finds what is wrong with each instruction, given those before it. -/
theorem visitAll_covers (covers : scan.Covers earlier) {rest : List Instruction}
    (numbered : ∀ instr ∈ rest, instr.Numbered) :
    (scan.visitAll rest).2 =
        rest.zipIdx.flatMap (fun (instr, index) => findingsOn (earlier ++ rest.take index) instr) ∧
      (scan.visitAll rest).1.Covers (earlier ++ rest) := by
  induction rest generalizing scan earlier with
  | nil => simpa [visitAll] using covers
  | cons instr rest ih =>
      obtain ⟨here, later⟩ := List.forall_mem_cons.mp numbered
      obtain ⟨found, covers'⟩ := visit_covers covers here
      obtain ⟨others, covered⟩ := ih covers' later
      rw [List.append_assoc, List.singleton_append] at covered
      refine ⟨?_, covered⟩
      -- Counted from the next instruction, all indices are one less.
      have shifted (k : Nat) :
          earlier ++ [instr] ++ rest.take k = earlier ++ (instr :: rest).take (k + 1) := by
        rw [List.append_assoc, List.singleton_append, List.take_succ_cons]
      rw [visitAll, found, others, List.zipIdx_cons', List.flatMap_cons, List.flatMap_map]
      simp only [shifted, List.take_zero, List.append_nil]
      rfl

end Scan

/-- The pass over a program finds what is wrong with its instructions one by one. -/
theorem visitAll_program (program : Program) :
    (({} : Scan).visitAll program.toList).2 = instructionFindings program ∧
      (({} : Scan).visitAll program.toList).1.Covers program.toList :=
  Scan.visitAll_covers Scan.covers_empty program.numbered

/-- After the pass, what is wrong with the targets is found. -/
theorem targetFindings_program (program : Program) :
    (({} : Scan).visitAll program.toList).1.targetFindings = undefinedTargets program := by
  have covers := (visitAll_program program).2
  rw [Scan.targetFindings, Scan.visitAll_jumps, wellFormed, List.nil_append,
    List.filterMap_filterMap, List.filterMap_filter, undefinedTargets]
  refine List.filterMap_congr fun instr mem => ?_
  have accepted := signatureFindings_eq_nil_iff (program.numbered instr mem)
  cases branches : instr.branchesTo? with
  | none => simp [undefinedTarget?_of_silent branches]
  | some label =>
      rw [undefinedTarget?_of_branchesTo? branches]
      by_cases wellFormed : instr.WellFormed
      · simp [accepted.mpr wellFormed, wellFormed, covers.labels]
      · simp [mt accepted.mp wellFormed, wellFormed]

/-- The static check is exact: its findings are those on the instructions one by one, followed by
those on the targets. So it approves of a program in which there is nothing of either sort. -/
theorem findings_exact (program : Program) :
    findings program = instructionFindings program ++ undefinedTargets program ∧
      (findings program = [] ↔
        instructionFindings program = [] ∧ undefinedTargets program = []) := by
  have whole : findings program = instructionFindings program ++ undefinedTargets program := by
    rw [findings, (visitAll_program program).1, targetFindings_program]
  refine ⟨whole, ?_⟩
  rw [whole, List.append_eq_nil_iff]

end Check

end FrameCode
