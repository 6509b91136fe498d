import FrameCode.Program

/-!
Programs and the instructions they are made of. Instructions that are in sequence already are taken
as they stand, so a program is made of its own instructions, and each index below its size is that
of one of them.
-/

namespace FrameCode

variable {α : Type}

/-- Sorting leaves alone what is sorted. -/
theorem sortByKey_eq_self {key : α → Nat} {items : List α}
    (sorted : items.Pairwise fun a b => key a ≤ key b) : sortByKey key items = items := by
  induction items with
  | nil => rfl
  | cons item rest ih =>
      obtain ⟨low, tail⟩ := List.pairwise_cons.mp sorted
      have later : sortByKey key (item :: rest) = insertByKey key item rest :=
        congrArg (insertByKey key item) (ih tail)
      rw [later]
      cases rest with
      | nil => rfl
      | cons head rest => rw [insertByKey, if_pos (low head List.mem_cons_self)]

theorem mapM_eq_ok_self {ε : Type} {f : α → Except ε α} {items : List α}
    (fixed : ∀ item ∈ items, f item = .ok item) : items.mapM f = .ok items := by
  induction items with
  | nil => rfl
  | cons item rest ih =>
      obtain ⟨here, later⟩ := List.forall_mem_cons.mp fixed
      rw [List.mapM_cons, here, ih later]
      rfl

namespace Instruction

/-- The positions of numbered operands increase. -/
theorem Numbered.ascending {instr : Instruction} (numbered : instr.Numbered) :
    instr.operands.Pairwise fun a b => a.position < b.position := by
  have positions : (instr.operands.map (·.position)).Pairwise (· < ·) := by
    rw [numbered]
    exact List.pairwise_lt_range'
  exact List.pairwise_map.mp positions

/-- An instruction with numbered operands is arranged already. -/
theorem arrange_eq_self {instr : Instruction} (positive : 0 < instr.order)
    (numbered : instr.Numbered) : instr.arrange = .ok instr := by
  have sorted : instr.sortOperands = instr := by
    unfold sortOperands
    rw [sortByKey_eq_self (numbered.ascending.imp Nat.le_of_lt)]
  unfold arrange
  rw [if_neg (Nat.pos_iff_ne_zero.mp positive), sorted]
  simp only [misnumbered?_eq_none_iff.mpr numbered]

end Instruction

namespace Program

/-! ### Instructions by index -/

theorem getElem?_toList (program : Program) (index : Nat) :
    program.toList[index]? = program.get? index :=
  Array.getElem?_toList

theorem mem_of_get? {program : Program} {index : Nat} {instr : Instruction}
    (found : program.get? index = some instr) : instr ∈ program.toList :=
  List.mem_of_getElem? ((program.getElem?_toList index).trans found)

theorem lt_size_of_get? {program : Program} {index : Nat} {instr : Instruction}
    (found : program.get? index = some instr) : index < program.size :=
  (Array.getElem?_eq_some_iff.mp found).1

theorem get?_of_lt_size {program : Program} {index : Nat} (within : index < program.size) :
    ∃ instr, program.get? index = some instr :=
  ⟨_, Array.getElem?_eq_getElem within⟩

/-! ### Programs made of instructions -/

/-- Ascending order numbers do not repeat. -/
theorem duplicate?_eq_none {instrs : List Instruction}
    (ascending : instrs.Pairwise fun a b => a.order < b.order) : duplicate? instrs = none := by
  induction instrs with
  | nil => rfl
  | cons first rest ih =>
      obtain ⟨low, tail⟩ := List.pairwise_cons.mp ascending
      cases rest with
      | nil => rfl
      | cons second rest =>
          rw [duplicate?, if_neg (Nat.ne_of_lt (low second List.mem_cons_self)), ih tail]

theorem sequence_eq_self {instrs : List Instruction}
    (ascending : instrs.Pairwise fun a b => a.order < b.order) : sequence instrs = .ok instrs := by
  have sorted : sortByKey Instruction.order instrs = instrs :=
    sortByKey_eq_self (ascending.imp Nat.le_of_lt)
  unfold sequence
  rw [sorted]
  simp only [duplicate?_eq_none ascending]

/-- A program is determined by its instructions. -/
theorem eq_of_toList_eq {p q : Program} (same : p.toList = q.toList) : p = q := by
  obtain ⟨instructions, _, _, _⟩ := p
  obtain ⟨instructions', _, _, _⟩ := q
  have eq : instructions = instructions' := Array.toList_inj.mp same
  subst eq
  rfl

/-- Arranged instructions that can be brought into sequence make up a program in that sequence. -/
theorem ofInstructions_of_sequence {instrs arranged sorted : List Instruction}
    (arranging : instrs.mapM Instruction.arrange = .ok arranged)
    (sequencing : sequence arranged = .ok sorted) :
    ∃ program, ofInstructions instrs = .ok program ∧ program.toList = sorted := by
  unfold ofInstructions
  split
  · next failed => cases arranging.symm.trans failed
  · next arranging' =>
    cases arranging.symm.trans arranging'
    split
    · next failed => cases sequencing.symm.trans failed
    · next sequencing' =>
      cases sequencing.symm.trans sequencing'
      exact ⟨_, rfl, rfl⟩

/-- Instructions in sequence, with operands in sequence, make up a program as they stand. -/
theorem ofInstructions_of_ascending {instrs : List Instruction}
    (positive : ∀ instr ∈ instrs, 0 < instr.order)
    (ascending : instrs.Pairwise fun a b => a.order < b.order)
    (numbered : ∀ instr ∈ instrs, instr.Numbered) :
    ∃ program, ofInstructions instrs = .ok program ∧ program.toList = instrs := by
  have arranged : instrs.mapM Instruction.arrange = .ok instrs :=
    mapM_eq_ok_self fun instr mem =>
      Instruction.arrange_eq_self (positive instr mem) (numbered instr mem)
  exact ofInstructions_of_sequence arranged (sequence_eq_self ascending)

/-- A program is made of its own instructions again. -/
theorem ofInstructions_toList (program : Program) :
    ofInstructions program.toList = .ok program := by
  obtain ⟨program', made, same⟩ :=
    ofInstructions_of_ascending program.positive program.ascending program.numbered
  rw [← eq_of_toList_eq same]
  exact same ▸ made

end Program

end FrameCode
