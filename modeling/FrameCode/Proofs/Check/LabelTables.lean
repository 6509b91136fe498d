import FrameCode.Proofs.Check.Exactness
import FrameCode.Proofs.Soundness

/-!
The label table of a run and that of the static check. The one maps a label to the index behind its
definition and is given up at the second definition of a label; the other maps it to the order
number of its first definition and is carried on to the end of the program. As long as collecting
goes on the two hold the same labels, so it stops at the first redefinition that the check reports
(`collectLabels_visitAll`), and where none is reported the tables have the same labels
(`label_tables_agree`).
-/

namespace FrameCode

def Instruction.IsLabel (instr : Instruction) (label : String) : Prop :=
  instr.opcode = .label ∧ instr.operands = [⟨1, .label label⟩]

namespace Check

def Finding.isLabelRedefinition : Finding → Bool
  | .labelRedefinition _ _ => true
  | _ => false

def firstRedefinition? (found : List Finding) : Option Finding :=
  found.find? Finding.isLabelRedefinition

def scanned (program : Program) : Scan :=
  (({} : Scan).visitAll program.toList).1

/-- How collecting the labels ends, compared with the first redefinition that is reported: both
blame the same instruction, or none. -/
inductive SameVerdict (instrs : List Instruction) :
    Except RuntimeError Unit → Option Finding → Prop where
  | clean : SameVerdict instrs (.ok ()) none
  | redefinition {instr : Instruction} {label : String} (mem : instr ∈ instrs)
      (defines : instr.defines? = some label) :
      SameVerdict instrs (.error ⟨.labelRedefinition label, some instr.site⟩)
        (some (.labelRedefinition instr.order label))

theorem SameVerdict.cons {instrs : List Instruction} {result : Except RuntimeError Unit}
    {found : Option Finding} (same : SameVerdict instrs result found) (instr : Instruction) :
    SameVerdict (instr :: instrs) result found := by
  cases same with
  | clean => exact .clean
  | redefinition mem defines => exact .redefinition (List.mem_cons_of_mem instr mem) defines

/-- Collecting fails exactly if a redefinition is among the findings. -/
theorem SameVerdict.fails_iff {instrs : List Instruction} {result : Except RuntimeError Unit}
    {found : List Finding} (same : SameVerdict instrs result (firstRedefinition? found)) :
    (∃ error, result = .error error) ↔
      ∃ order label, Finding.labelRedefinition order label ∈ found := by
  generalize first : firstRedefinition? found = finding at same
  cases same with
  | clean =>
      constructor
      · rintro ⟨error, failed⟩
        cases failed
      · rintro ⟨order, label, mem⟩
        cases List.find?_eq_none.mp first _ mem rfl
  | redefinition mem defines =>
      exact ⟨fun _ => ⟨_, _, List.mem_of_find?_eq_some first⟩, fun _ => ⟨_, rfl⟩⟩

/-! ### Definitions among other instructions -/

section Definitions

variable {instr : Instruction} {label : String}

/-- Of an instruction that the check accepts, the label that it defines is the only operand. -/
theorem defines?_iff_isLabel (numbered : instr.Numbered)
    (accepted : instr.opcode = .label → signatureFindings instr = []) :
    instr.defines? = some label ↔ instr.IsLabel label := by
  constructor
  · intro defines
    obtain ⟨opcode, named⟩ := Instruction.defines?_eq_some_iff.mp defines
    have count : instr.operands.length = 1 := by
      have wellFormed := (signatureFindings_eq_nil_iff numbered).mp (accepted opcode)
      rw [wellFormed.1, opcode]
      rfl
    obtain ⟨operand, single⟩ := List.length_eq_one_iff.mp count
    have first : instr.operands[0]? = some operand := by rw [single]; rfl
    have argument : instr.argument? 1 = some operand.argument := by
      rw [Instruction.argument?, numbered.operand? 0, first, Option.map_some]
    have position : operand.position = 1 := position_of_slot numbered first
    have labelled : operand.argument = .label label := by simpa [argument] using named
    exact ⟨opcode, by rw [single, ← position, ← labelled]⟩
  · rintro ⟨opcode, operands⟩
    refine Instruction.defines?_eq_some_iff.mpr ⟨opcode, ?_⟩
    simp [Instruction.argument?, Instruction.operand?, operands]

/-- The first redefinition of two lists is in the first list, if there is one. -/
theorem firstRedefinition?_append (earlier later : List Finding) :
    firstRedefinition? (earlier ++ later) =
      (firstRedefinition? earlier).or (firstRedefinition? later) :=
  List.find?_append

/-- A selection of other findings has no redefinition. -/
theorem firstRedefinition?_filterMap {α : Type} {items : List α} {select : α → Option Finding}
    (other : ∀ item finding, select item = some finding → finding.isLabelRedefinition = false) :
    firstRedefinition? (items.filterMap select) = none := by
  simp only [firstRedefinition?, List.find?_eq_none, List.mem_filterMap, Bool.not_eq_true]
  rintro finding ⟨item, -, selected⟩
  exact other item finding selected

theorem firstRedefinition?_signatureFindings (instr : Instruction) :
    firstRedefinition? (signatureFindings instr) = none := by
  unfold signatureFindings
  split
  · refine firstRedefinition?_filterMap fun entry finding selected => ?_
    dsimp only at selected
    split at selected
    · cases selected
    · cases selected
      rfl
  · rfl

theorem firstRedefinition?_recordGlobal (scan : Scan) (instr : Instruction) :
    firstRedefinition? (scan.recordGlobal instr).2 = none := by
  unfold Scan.recordGlobal
  split
  · rfl
  · split <;> rfl

theorem firstRedefinition?_targetFindings (scan : Scan) :
    firstRedefinition? scan.targetFindings = none := by
  refine firstRedefinition?_filterMap fun entry finding selected => ?_
  dsimp only at selected
  split at selected
  · cases selected
  · cases selected
    rfl

/-- An instruction that defines no label changes nothing about labels. -/
theorem visit_of_ne_label (scan : Scan) (opcode : instr.opcode ≠ .label) :
    firstRedefinition? (scan.visit instr).2 = none ∧
      ∀ name, (scan.visit instr).1.isDefined name = true ↔ scan.isDefined name = true := by
  have silent : instr.defines? = none := if_neg opcode
  by_cases accepted : signatureFindings instr = []
  · rw [Scan.visit_of_accepted accepted, Scan.recordLabel_of_silent scan silent, List.nil_append]
    refine ⟨firstRedefinition?_recordGlobal _ instr, fun name => ?_⟩
    rw [Scan.recordGlobal_isDefined, Scan.recordLabel_isDefined, silent]
    simp
  · rw [Scan.visit_of_refused accepted]
    exact ⟨firstRedefinition?_signatureFindings instr, fun _ => Iff.rfl⟩

/-- An accepted definition is reported if its label is known, and makes it known otherwise. -/
theorem visit_of_defines (scan : Scan) (accepted : signatureFindings instr = [])
    (defines : instr.defines? = some label) :
    (scan.visit instr).2 =
        (if scan.isDefined label then [.labelRedefinition instr.order label] else []) ∧
      ∀ name, (scan.visit instr).1.isDefined name = true ↔
        scan.isDefined name = true ∨ label = name := by
  obtain ⟨opcode, named⟩ : instr.opcode = .label ∧ instr.label? = some label := by
    simpa [Instruction.defines?] using defines
  have silent : ((scan.recordLabel instr).1.recordGlobal instr).2 = [] := by
    simp only [Scan.recordGlobal, declaredGlobal?_of_defines? defines]
  rw [Scan.visit_of_accepted accepted, silent, List.append_nil]
  constructor
  · simp only [Scan.recordLabel, named, opcode, if_true]
    split <;> rfl
  · intro name
    rw [Scan.recordGlobal_isDefined, Scan.recordLabel_isDefined, defines, Option.some.injEq]

end Definitions

/-! ### Collecting and scanning side by side -/

/-- Where table and scan know the same labels, collecting stops at the first redefinition that the
scan goes on to report. -/
theorem collectLabels_visitAll {index : Nat} {table : Labels} {scan : Scan}
    {instrs : List Instruction}
    (accepted : ∀ instr ∈ instrs, instr.opcode = .label →
      signatureFindings instr = [] ∧ instr.label?.isSome)
    (same : ∀ label, label ∈ table ↔ scan.isDefined label = true) :
    SameVerdict instrs (Machine.collectLabels index table instrs).1
      (firstRedefinition? (scan.visitAll instrs).2) := by
  induction instrs generalizing index table scan with
  | nil => exact .clean
  | cons instr rest ih =>
      obtain ⟨here, later⟩ := List.forall_mem_cons.mp accepted
      rw [Scan.visitAll, firstRedefinition?_append]
      obtain ⟨opcode, -⟩ | ⟨opcode, unnamed, -⟩ | ⟨label, opcode, -, defines⟩ :=
        instr.defines?_cases
      · obtain ⟨nothing, kept⟩ := visit_of_ne_label scan opcode
        rw [Machine.collectLabels_cons_of_ne opcode, nothing, Option.none_or]
        exact (ih later fun name => (same name).trans (kept name).symm).cons instr
      · rw [unnamed] at here
        cases (here opcode).2
      · obtain ⟨reported, known⟩ := visit_of_defines scan (here opcode).1 defines
        by_cases old : label ∈ table
        · rw [Machine.collectLabels_cons_of_old defines old, reported,
            if_pos ((same label).mp old)]
          exact .redefinition List.mem_cons_self defines
        · rw [Machine.collectLabels_cons_of_new defines old, reported,
            if_neg (mt (same label).mpr old)]
          refine (ih later fun name => ?_).cons instr
          rw [Std.TreeMap.mem_insert, known, same name, or_comm]
          simp

/-- So a run whose labels cannot be collected blames what the static check reports first. -/
theorem sameVerdict_findings (m : Machine)
    (accepted : ∀ instr ∈ m.program.toList, instr.opcode = .label → signatureFindings instr = []) :
    SameVerdict m.program.toList m.mapLabels.result
      (firstRedefinition? (findings m.program)) := by
  have sideBySide : SameVerdict m.program.toList m.mapLabels.result
      (firstRedefinition? (({} : Scan).visitAll m.program.toList).2) := by
    refine collectLabels_visitAll (fun instr mem opcode => ?_) (by simp [Scan.isDefined])
    have clean := accepted instr mem opcode
    exact ⟨clean, (m.program.numbered instr mem).label?_isSome clean opcode⟩
  have whole := firstRedefinition?_append (({} : Scan).visitAll m.program.toList).2
    (scanned m.program).targetFindings
  rw [firstRedefinition?_targetFindings, Option.or_none] at whole
  rw [findings]
  exact whole ▸ sideBySide

/-- In a table that was collected without an error, the target of a label is the index behind its
definition. -/
theorem target?_mapLabels_iff {m : Machine} (collected : m.mapLabels.result = .ok ())
    {label : String} {target : Nat} :
    m.mapLabels.machine.target? label = some target ↔
      ∃ k instr, m.program.get? k = some instr ∧ instr.defines? = some label ∧
        target = k + 1 := by
  have known := Machine.collectLabels_getElem? collected label target
  simp only [Std.TreeMap.getElem?_emptyc, reduceCtorEq, false_or, Nat.zero_add,
    Program.getElem?_toList] at known
  exact known

/-- The two tables of a program agree, `outcome` being how collecting the labels has ended. -/
structure LabelTablesAgree (program : Program) (outcome : Outcome RuntimeError) : Prop where
  fails_iff : (∃ error, outcome.result = .error error) ↔
    ∃ order label, Finding.labelRedefinition order label ∈ findings program
  /-- The error is on the label and the instruction of the first redefinition that is reported. -/
  first : ∀ error, outcome.result = .error error → ∃ instr ∈ program.toList, ∃ label,
    firstRedefinition? (findings program) = some (.labelRedefinition instr.order label) ∧
      error = ⟨.labelRedefinition label, some instr.site⟩ ∧ instr.IsLabel label
  /-- Control passes behind the definition of a label. -/
  target : outcome.result = .ok () → ∀ label k,
    outcome.machine.target? label = some (k + 1) ↔
      ∃ instr, program.get? k = some instr ∧ instr.IsLabel label
  target_pos : outcome.result = .ok () → ∀ label, outcome.machine.target? label ≠ some 0
  /-- The labels that have a target are those that the static check has recorded. -/
  domain : outcome.result = .ok () → ∀ label,
    (outcome.machine.target? label).isSome ↔ (scanned program).isDefined label = true

/-- The label table of a run and that of the static check agree, in every program in which the check
accepts the definitions of labels. -/
theorem label_tables_agree (m : Machine)
    (accepted : ∀ instr ∈ m.program.toList, instr.opcode = .label → signatureFindings instr = []) :
    LabelTablesAgree m.program m.mapLabels := by
  have isLabel : ∀ instr ∈ m.program.toList, ∀ label,
      instr.defines? = some label ↔ instr.IsLabel label := fun instr mem label =>
    defines?_iff_isLabel (m.program.numbered instr mem) (accepted instr mem)
  have verdict := sameVerdict_findings m accepted
  refine ⟨verdict.fails_iff, fun error failed => ?_, fun collected label k => ?_,
    fun collected label => ?_, fun collected label => ?_⟩
  · rw [failed] at verdict
    generalize first : firstRedefinition? (findings m.program) = finding at verdict ⊢
    cases verdict with
    | @redefinition instr label mem defines =>
        exact ⟨instr, mem, label, rfl, rfl, (isLabel instr mem label).mp defines⟩
  · rw [target?_mapLabels_iff collected]
    constructor
    · rintro ⟨k', instr, found, defines, eq⟩
      cases eq
      exact ⟨instr, found, (isLabel instr (Program.mem_of_get? found) label).mp defines⟩
    · rintro ⟨instr, found, labelled⟩
      have defines := (isLabel instr (Program.mem_of_get? found) label).mpr labelled
      exact ⟨k, instr, found, defines, rfl⟩
  · rw [Ne, target?_mapLabels_iff collected]
    rintro ⟨k, instr, -, -, eq⟩
    cases eq
  · rw [Option.isSome_iff_exists, scanned, (visitAll_program m.program).2.labels, Defined]
    constructor
    · rintro ⟨target, known⟩
      obtain ⟨k, instr, found, defines, -⟩ := (target?_mapLabels_iff collected).mp known
      have mem := Program.mem_of_get? found
      have opcode := ((isLabel instr mem label).mp defines).1
      have wellFormed := signatureFindings_eq_nil_iff (m.program.numbered instr mem)
      exact ⟨instr, mem, wellFormed.mp (accepted instr mem opcode),
        Instruction.defines?_eq_some_iff.mp defines⟩
    · rintro ⟨instr, mem, -, labelled⟩
      have defines := Instruction.defines?_eq_some_iff.mpr labelled
      obtain ⟨k, found⟩ := List.getElem?_of_mem mem
      rw [Program.getElem?_toList] at found
      exact ⟨k + 1, (target?_mapLabels_iff collected).mpr ⟨k, instr, found, defines, rfl⟩⟩

/-- A machine whose program defines a label three times, with an instruction that lacks its operand
in between. -/
def thriceDefined : Machine where
  program :=
    { instructions :=
        #[⟨.jump, 2, [⟨1, .label "end"⟩]⟩, ⟨.label, 3, [⟨1, .label "a"⟩]⟩, ⟨.write, 5, []⟩,
          ⟨.label, 8, [⟨1, .label "a"⟩]⟩, ⟨.label, 9, [⟨1, .label "a"⟩]⟩] }
  input := { pending := [] }

/-- A machine whose program has labels before and behind such an instruction. -/
def aroundMalformed : Machine where
  program :=
    { instructions :=
        #[⟨.label, 4, [⟨1, .label "b"⟩]⟩, ⟨.write, 6, []⟩, ⟨.jump, 7, [⟨1, .label "end"⟩]⟩,
          ⟨.label, 9, [⟨1, .label "end"⟩]⟩] }
  input := { pending := [] }

/-- The first machine blames the definition with order number 8, and so does the static check. In
the second one both tables have the label at the end. -/
theorem thriceDefined_tables_agree :
    (∀ instr ∈ thriceDefined.program.toList, instr.opcode = .label →
        signatureFindings instr = []) ∧
      thriceDefined.mapLabels.result =
        .error ⟨.labelRedefinition "a", some ⟨.label, 8⟩⟩ ∧
      firstRedefinition? (findings thriceDefined.program) = some (.labelRedefinition 8 "a") ∧
      LabelTablesAgree thriceDefined.program thriceDefined.mapLabels ∧
      (∀ instr ∈ aroundMalformed.program.toList, instr.opcode = .label →
        signatureFindings instr = []) ∧
      aroundMalformed.mapLabels.result = .ok () ∧
      aroundMalformed.mapLabels.machine.target? "end" = some 4 ∧
      (scanned aroundMalformed.program).isDefined "end" = true := by
  have accepted : ∀ instr ∈ thriceDefined.program.toList, instr.opcode = .label →
      signatureFindings instr = [] := by decide
  have accepted' : ∀ instr ∈ aroundMalformed.program.toList, instr.opcode = .label →
      signatureFindings instr = [] := by decide
  have collected : aroundMalformed.mapLabels.result = .ok () := rfl
  have agree := label_tables_agree aroundMalformed accepted'
  have target : aroundMalformed.mapLabels.machine.target? "end" = some 4 :=
    (agree.target collected "end" 3).mpr ⟨_, rfl, rfl, rfl⟩
  refine ⟨accepted, rfl, rfl, label_tables_agree thriceDefined accepted, accepted', collected,
    target, ?_⟩
  exact (agree.domain collected "end").mp (by rw [target]; rfl)

end Check

end FrameCode
