import FrameCode.Machine.Run
import FrameCode.Proofs.Operands

/-!
The two tables of labels. A run collects the labels of its program into a table of jump targets; the
static check records them once more while it scans. Both tables are described here by the
instructions that define labels: `collectLabels_ok_iff` and `collectLabels_getElem?` say when
collecting succeeds and what it collects, `visitAll_isDefined`, `visitAll_jumps` and
`visitAll_eq_nil` say what the scan has recorded and what it means that it found nothing.
-/

namespace FrameCode

theorem Argument.label?_eq_some_iff {argument : Argument} {label : String} :
    argument.label? = some label ↔ argument = .label label := by
  cases argument <;> simp [label?]

namespace Instruction

def defines? (instr : Instruction) : Option String :=
  if instr.opcode = .label then instr.label? else none

def branchesTo? (instr : Instruction) : Option String :=
  if instr.opcode = .label then none else instr.label?

/-- A label is defined by the one opcode for it, in the first operand. -/
theorem defines?_eq_some_iff {instr : Instruction} {label : String} :
    instr.defines? = some label ↔
      instr.opcode = .label ∧ instr.argument? 1 = some (.label label) := by
  unfold defines? label?
  by_cases opcode : instr.opcode = .label
  · simp [opcode, Option.bind_eq_some_iff, Argument.label?_eq_some_iff]
  · simp [opcode]

/-- A label is branched to by jumps and calls, in the first operand. -/
theorem branchesTo?_eq_some_iff {instr : Instruction} {label : String} :
    instr.branchesTo? = some label ↔
      instr.opcode.isJump = true ∧ instr.argument? 1 = some (.label label) := by
  unfold branchesTo? label?
  by_cases opcode : instr.opcode = .label
  · simp [opcode, Opcode.isJump]
  · by_cases jumps : instr.opcode.isJump = true
    · simp [opcode, jumps, Option.bind_eq_some_iff, Argument.label?_eq_some_iff]
    · simp [opcode, jumps]

theorem branchesTo?_of_target {instr : Instruction} {label : String}
    (isJump : instr.opcode.isJump) (named : instr.target = .ok label) :
    instr.branchesTo? = some label := by
  have opcode : instr.opcode ≠ .label := by
    intro opcode
    rw [opcode] at isJump
    cases isJump
  rw [branchesTo?, if_neg opcode, label?_of_target (.inr isJump) named]

/-- An instruction is no definition, a definition without a label, or the definition of a label. -/
theorem defines?_cases (instr : Instruction) :
    (instr.opcode ≠ .label ∧ instr.defines? = none) ∨
      (instr.opcode = .label ∧ instr.label? = none ∧ instr.defines? = none) ∨
        ∃ label, instr.opcode = .label ∧ instr.label? = some label ∧
          instr.defines? = some label := by
  unfold defines?
  by_cases opcode : instr.opcode = .label
  · cases named : instr.label? with
    | none => exact .inr (.inl ⟨opcode, rfl, by simp⟩)
    | some label => exact .inr (.inr ⟨label, opcode, rfl, by simp [opcode]⟩)
  · exact .inl ⟨opcode, if_neg opcode⟩

end Instruction

def definedLabels (instrs : List Instruction) : List String :=
  instrs.filterMap Instruction.defines?

theorem mem_definedLabels {instrs : List Instruction} {label : String} :
    label ∈ definedLabels instrs ↔ ∃ instr ∈ instrs, instr.defines? = some label :=
  List.mem_filterMap

theorem mem_definedLabels_cons {instr : Instruction} {rest : List Instruction} {label : String} :
    label ∈ definedLabels (instr :: rest) ↔
      instr.defines? = some label ∨ label ∈ definedLabels rest := by
  simp [mem_definedLabels]

/-! ### The table of a run -/

namespace Machine

section Collect

variable {index : Nat} {table : Labels} {instr : Instruction} {label : String}
  {instrs : List Instruction}

theorem collectLabels_cons_of_ne (opcode : instr.opcode ≠ .label) :
    collectLabels index table (instr :: instrs) = collectLabels (index + 1) table instrs := by
  simp only [collectLabels, if_neg opcode]

/-- A new label gets the index behind its definition. -/
theorem collectLabels_cons_of_new (defines : instr.defines? = some label) (new : label ∉ table) :
    collectLabels index table (instr :: instrs) =
      collectLabels (index + 1) (table.insert label (index + 1)) instrs := by
  obtain ⟨opcode, named⟩ : instr.opcode = .label ∧ instr.label? = some label := by
    simpa [Instruction.defines?] using defines
  simp [collectLabels, opcode, named, new]

/-- A label that is known already stops the collection, with its table entry replaced. -/
theorem collectLabels_cons_of_old (defines : instr.defines? = some label) (old : label ∈ table) :
    collectLabels index table (instr :: instrs) =
      (.error ⟨.labelRedefinition label, some instr.site⟩, table.insert label (index + 1)) := by
  obtain ⟨opcode, named⟩ : instr.opcode = .label ∧ instr.label? = some label := by
    simpa [Instruction.defines?] using defines
  simp [collectLabels, opcode, named, old]

/-- A definition without a label stops the collection. -/
theorem collectLabels_cons_of_unnamed (opcode : instr.opcode = .label)
    (unnamed : instr.label? = none) :
    collectLabels index table (instr :: instrs) =
      (.error ⟨.operand 1 .label, some instr.site⟩, table) := by
  simp [collectLabels, opcode, unnamed]

end Collect

/-- Labels are collected without an error exactly when every definition names its label, no label is
defined twice and none of them was there before. -/
theorem collectLabels_ok_iff {index : Nat} {table : Labels} {instrs : List Instruction} :
    (collectLabels index table instrs).1 = .ok () ↔
      (∀ instr ∈ instrs, instr.opcode = .label → instr.label?.isSome) ∧
        (definedLabels instrs).Nodup ∧ ∀ label ∈ definedLabels instrs, label ∉ table := by
  induction instrs generalizing index table with
  | nil => simp [collectLabels, definedLabels]
  | cons instr rest ih =>
      obtain ⟨opcode, silent⟩ | ⟨opcode, unnamed, -⟩ | ⟨label, opcode, named, defines⟩ :=
        instr.defines?_cases
      · rw [collectLabels_cons_of_ne opcode, ih, definedLabels, definedLabels,
          List.filterMap_cons_none silent]
        simp [opcode]
      · rw [collectLabels_cons_of_unnamed opcode unnamed]
        simp [opcode, unnamed]
      · rw [definedLabels, List.filterMap_cons_some defines]
        by_cases old : label ∈ table
        · rw [collectLabels_cons_of_old defines old]
          simp [old]
        · rw [collectLabels_cons_of_new defines old, ih, definedLabels]
          simp only [List.mem_cons, forall_eq_or_imp, opcode, named, Option.isSome_some,
            List.nodup_cons, Std.TreeMap.mem_insert, old, not_false_eq_true, true_and,
            Std.LawfulEqCmp.compare_eq_iff_eq, not_or]
          grind

/-- A table that was collected without an error sends each label behind its definition. -/
theorem collectLabels_getElem? {index : Nat} {table : Labels} {instrs : List Instruction}
    (collected : (collectLabels index table instrs).1 = .ok ()) (label : String) (target : Nat) :
    (collectLabels index table instrs).2[label]? = some target ↔
      table[label]? = some target ∨
        ∃ k instr, instrs[k]? = some instr ∧ instr.defines? = some label ∧
          target = index + k + 1 := by
  induction instrs generalizing index table with
  | nil => simp [collectLabels]
  | cons instr rest ih =>
      -- The definitions of the row are that of its head and those of the rest, one further on.
      have split : (∃ k found, (instr :: rest)[k]? = some found ∧ found.defines? = some label ∧
            target = index + k + 1) ↔
          (instr.defines? = some label ∧ target = index + 1) ∨
            ∃ k found, rest[k]? = some found ∧ found.defines? = some label ∧
              target = index + 1 + k + 1 := by
        constructor
        · rintro ⟨k, found, at_k, defines, eq⟩
          cases k with
          | zero =>
              cases at_k
              exact .inl ⟨defines, eq⟩
          | succ k => exact .inr ⟨k, found, at_k, defines, by omega⟩
        · rintro (⟨defines, eq⟩ | ⟨k, found, at_k, defines, eq⟩)
          · exact ⟨0, instr, rfl, defines, eq⟩
          · exact ⟨k + 1, found, at_k, defines, by omega⟩
      rw [split]
      obtain ⟨opcode, silent⟩ | ⟨opcode, unnamed, -⟩ | ⟨name, opcode, named, defines⟩ :=
        instr.defines?_cases
      · rw [collectLabels_cons_of_ne opcode] at collected ⊢
        rw [ih collected]
        simp [silent]
      · rw [collectLabels_cons_of_unnamed opcode unnamed] at collected
        cases collected
      · by_cases old : name ∈ table
        · rw [collectLabels_cons_of_old defines old] at collected
          cases collected
        · rw [collectLabels_cons_of_new defines old] at collected ⊢
          rw [ih collected, defines, Std.TreeMap.getElem?_insert]
          by_cases same : name = label
          · subst same
            simp [Std.TreeMap.getElem?_eq_none old, eq_comm]
          · simp [same]

end Machine

/-! ### The table of the static check -/

namespace Check

/-- The instructions whose operands the static check accepts. -/
def wellFormed (instrs : List Instruction) : List Instruction :=
  instrs.filter fun instr => (signatureFindings instr).isEmpty

namespace Scan

@[simp] theorem recordGlobal_isDefined (scan : Scan) (instr : Instruction) :
    (scan.recordGlobal instr).1.isDefined = scan.isDefined := by
  unfold recordGlobal
  split
  · rfl
  · split <;> rfl

@[simp] theorem recordGlobal_jumps (scan : Scan) (instr : Instruction) :
    (scan.recordGlobal instr).1.jumps = scan.jumps := by
  unfold recordGlobal
  split
  · rfl
  · split <;> rfl

/-- Recording adds the label that is defined. -/
theorem recordLabel_isDefined (scan : Scan) (instr : Instruction) (label : String) :
    (scan.recordLabel instr).1.isDefined label = true ↔
      scan.isDefined label = true ∨ instr.defines? = some label := by
  unfold recordLabel Instruction.defines?
  cases named : instr.label? with
  | none => simp
  | some name =>
      by_cases opcode : instr.opcode = .label
      · by_cases old : scan.isDefined name
        · simp only [opcode, old, if_true, Option.some.injEq]
          constructor
          · exact .inl
          · rintro (defined | rfl)
            · exact defined
            · exact old
        · simp only [opcode, old, if_true, Bool.false_eq_true, if_false]
          simp [isDefined, or_comm]
      · simp [opcode, isDefined]

/-- Recording adds the target that is named. -/
theorem recordLabel_jumps (scan : Scan) (instr : Instruction) :
    (scan.recordLabel instr).1.jumps =
      scan.jumps ++ (instr.branchesTo?.map fun label => (instr.order, label)).toList := by
  unfold recordLabel Instruction.branchesTo?
  cases instr.label? with
  | none => simp
  | some name =>
      by_cases opcode : instr.opcode = .label
      · by_cases old : scan.isDefined name <;> simp [opcode, old]
      · simp [opcode]

theorem recordLabel_eq_nil {scan : Scan} {instr : Instruction}
    (clean : (scan.recordLabel instr).2 = []) {label : String}
    (defines : instr.defines? = some label) : scan.isDefined label = false := by
  obtain ⟨opcode, named⟩ : instr.opcode = .label ∧ instr.label? = some label := by
    simpa [Instruction.defines?] using defines
  cases defined : scan.isDefined label with
  | false => rfl
  | true => simp [recordLabel, opcode, named, defined] at clean

theorem visit_of_accepted {scan : Scan} {instr : Instruction}
    (accepted : signatureFindings instr = []) :
    scan.visit instr =
      (((scan.recordLabel instr).1.recordGlobal instr).1,
        (scan.recordLabel instr).2 ++ ((scan.recordLabel instr).1.recordGlobal instr).2) := by
  simp only [visit, accepted]

/-- An instruction whose operands are refused is not recorded. -/
theorem visit_of_refused {scan : Scan} {instr : Instruction}
    (refused : signatureFindings instr ≠ []) :
    scan.visit instr = (scan, signatureFindings instr) := by
  unfold visit
  split
  · next accepted => exact absurd accepted refused
  · rfl

/-- The scan knows the labels that it knew and those that well-formed instructions define. -/
theorem visitAll_isDefined (scan : Scan) (instrs : List Instruction) (label : String) :
    (scan.visitAll instrs).1.isDefined label = true ↔
      scan.isDefined label = true ∨ label ∈ definedLabels (wellFormed instrs) := by
  induction instrs generalizing scan with
  | nil => simp [visitAll, wellFormed, definedLabels]
  | cons instr rest ih =>
      rw [visitAll, ih]
      by_cases accepted : signatureFindings instr = []
      · rw [visit_of_accepted accepted, recordGlobal_isDefined, recordLabel_isDefined]
        simp only [wellFormed, List.filter_cons, accepted, List.isEmpty_nil, if_true,
          mem_definedLabels_cons, or_assoc]
      · rw [visit_of_refused accepted]
        simp [wellFormed, accepted]

/-- The scan notes each target with the order number of the instruction that names it. -/
theorem visitAll_jumps (scan : Scan) (instrs : List Instruction) :
    (scan.visitAll instrs).1.jumps =
      scan.jumps ++ (wellFormed instrs).filterMap fun instr =>
        instr.branchesTo?.map fun label => (instr.order, label) := by
  induction instrs generalizing scan with
  | nil => simp [visitAll, wellFormed]
  | cons instr rest ih =>
      rw [visitAll, ih]
      by_cases accepted : signatureFindings instr = []
      · rw [visit_of_accepted accepted, recordGlobal_jumps, recordLabel_jumps, List.append_assoc]
        simp only [wellFormed, List.filter_cons, accepted, List.isEmpty_nil, if_true]
        cases target : instr.branchesTo? <;> simp [target]
      · rw [visit_of_refused accepted]
        simp [wellFormed, accepted]

/-- A scan that finds nothing has seen only well-formed instructions and each label once. -/
theorem visitAll_eq_nil {scan : Scan} {instrs : List Instruction}
    (clean : (scan.visitAll instrs).2 = []) :
    (∀ instr ∈ instrs, signatureFindings instr = []) ∧ (definedLabels instrs).Nodup ∧
      ∀ label ∈ definedLabels instrs, scan.isDefined label = false := by
  induction instrs generalizing scan with
  | nil => simp [definedLabels]
  | cons instr rest ih =>
      obtain ⟨here, later⟩ := List.append_eq_nil_iff.mp clean
      obtain ⟨accepted, nodup, fresh⟩ := ih later
      by_cases accepts : signatureFindings instr = []
      · rw [visit_of_accepted accepts] at here fresh
        rw [recordGlobal_isDefined] at fresh
        have before : ∀ label ∈ definedLabels rest,
            scan.isDefined label = false ∧ instr.defines? ≠ some label := by
          intro label mem
          have unknown := fresh label mem
          rw [← Bool.not_eq_true, recordLabel_isDefined, not_or, Bool.not_eq_true] at unknown
          exact unknown
        refine ⟨List.forall_mem_cons.mpr ⟨accepts, accepted⟩, ?_, ?_⟩
        · cases defines : instr.defines? with
          | none => rwa [definedLabels, List.filterMap_cons_none defines]
          | some label =>
              rw [definedLabels, List.filterMap_cons_some defines, List.nodup_cons]
              exact ⟨fun mem => (before label mem).2 defines, nodup⟩
        · intro label mem
          rcases mem_definedLabels_cons.mp mem with defines | mem
          · exact recordLabel_eq_nil (List.append_eq_nil_iff.mp here).1 defines
          · exact (before label mem).1
      · rw [visit_of_refused accepts] at here
        exact absurd here accepts

end Scan

/-- A program without findings consists of well-formed instructions, defines each label once, and
defines every label that control may pass to. -/
theorem findings_eq_nil {program : Program} (clean : findings program = []) :
    (∀ instr ∈ program.toList, signatureFindings instr = []) ∧
      (definedLabels program.toList).Nodup ∧
        ∀ instr ∈ program.toList, ∀ label, instr.branchesTo? = some label →
          label ∈ definedLabels program.toList := by
  obtain ⟨scanned, targets⟩ := List.append_eq_nil_iff.mp clean
  obtain ⟨accepted, nodup, -⟩ := Scan.visitAll_eq_nil scanned
  refine ⟨accepted, nodup, ?_⟩
  intro instr mem label branches
  have all : wellFormed program.toList = program.toList := by
    refine List.filter_eq_self.mpr fun other otherMem => ?_
    rw [accepted other otherMem, List.isEmpty_nil]
  have noted : (instr.order, label) ∈ (({} : Scan).visitAll program.toList).1.jumps := by
    rw [Scan.visitAll_jumps, all]
    exact List.mem_append_right _ (List.mem_filterMap.mpr ⟨instr, mem, by simp [branches]⟩)
  have defined : (({} : Scan).visitAll program.toList).1.isDefined label = true := by
    simpa using List.filterMap_eq_nil_iff.mp targets _ noted
  rw [Scan.visitAll_isDefined, all] at defined
  exact defined.resolve_left (by simp [Scan.isDefined])

end Check

end FrameCode
