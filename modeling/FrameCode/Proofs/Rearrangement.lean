import Mathlib.Data.List.Perm.Basic
import FrameCode.Proofs.Fallible
import FrameCode.Proofs.Program

/-!
Which instructions make a program, and which program they make. `Rearranges` says that two lists
hold the same instructions, in any order and with their operands in any order. Instructions make a
program exactly when it rearranges them (`ofInstructions_eq_ok_iff`), and since instructions can be
brought into sequence in one way only, the order in which they are given does not matter.
-/

namespace FrameCode

/-- A computation succeeds on all items of a list when it does on each of them. -/
theorem mapM_eq_ok_iff {ε α β : Type} {f : α → Except ε β} {items : List α} {results : List β} :
    items.mapM f = .ok results ↔
      List.Forall₂ (fun item result => f item = .ok result) items results := by
  induction items generalizing results with
  | nil => cases results <;> simp [pure, Except.pure]
  | cons item rest ih =>
      simp only [List.mapM_cons, bind_eq_ok_iff, List.forall₂_cons_left_iff, pure, Except.pure,
        Except.ok.injEq, ih]
      constructor
      · rintro ⟨result, here, others, later, rfl⟩
        exact ⟨result, others, here, later, rfl⟩
      · rintro ⟨result, others, here, later, rfl⟩
        exact ⟨result, here, others, later, rfl⟩

theorem forall₂_trans {α : Type} {R : α → α → Prop} (trans : ∀ a b c, R a b → R b c → R a c)
    {xs ys zs : List α} (h : List.Forall₂ R xs ys) (h' : List.Forall₂ R ys zs) :
    List.Forall₂ R xs zs := by
  induction h generalizing zs with
  | nil =>
      cases h'
      exact .nil
  | cons here later ih =>
      cases h' with
      | cons here' later' => exact .cons (trans _ _ _ here here') (ih later')

/-! ### Rearranged instructions -/

/-- The same instruction but for the order in which its operands are given. -/
structure Instruction.Shuffles (a b : Instruction) : Prop where
  opcode : a.opcode = b.opcode
  order : a.order = b.order
  operands : a.operands.Perm b.operands

/-- The operands are numbered from one, in whatever order they are given. -/
def Instruction.Numberable (instr : Instruction) : Prop :=
  (instr.operands.map (·.position)).Perm (List.range' 1 instr.operands.length)

/-- The same instructions in another order, each with its operands in another order. -/
def Rearranges (instrs instrs' : List Instruction) : Prop :=
  ∃ shuffled, List.Forall₂ Instruction.Shuffles instrs shuffled ∧ shuffled.Perm instrs'

structure Admissible (instrs : List Instruction) : Prop where
  positive : ∀ instr ∈ instrs, 1 ≤ instr.order
  distinct : (instrs.map (·.order)).Nodup
  numberable : ∀ instr ∈ instrs, instr.Numberable

namespace Instruction

variable {a b c : Instruction}

theorem Shuffles.refl (a : Instruction) : a.Shuffles a := ⟨rfl, rfl, .refl _⟩

theorem Shuffles.symm (h : a.Shuffles b) : b.Shuffles a :=
  ⟨h.opcode.symm, h.order.symm, h.operands.symm⟩

theorem Shuffles.trans (h : a.Shuffles b) (h' : b.Shuffles c) : a.Shuffles c :=
  ⟨h.opcode.trans h'.opcode, h.order.trans h'.order, h.operands.trans h'.operands⟩

theorem Numbered.numberable (numbered : a.Numbered) : a.Numberable :=
  .of_eq numbered

/-- Whether operands can be numbered does not depend on their order. -/
theorem Shuffles.numberable (h : a.Shuffles b) (numberable : b.Numberable) : a.Numberable := by
  unfold Numberable
  rw [h.operands.length_eq]
  exact (h.operands.map _).trans numberable

/-- There is one way to bring operands into sequence. -/
theorem Shuffles.eq_of_numbered (h : a.Shuffles b) (numbered : a.Numbered)
    (numbered' : b.Numbered) : a = b := by
  have operands : a.operands = b.operands :=
    h.operands.eq_of_pairwise (fun _ _ _ _ lt gt => absurd lt (Nat.lt_asymm gt))
      numbered.ascending numbered'.ascending
  obtain ⟨opcode, order, _⟩ := a
  cases h.opcode
  cases h.order
  cases operands
  rfl

theorem sortOperands_shuffles (instr : Instruction) : instr.Shuffles instr.sortOperands :=
  ⟨rfl, rfl, (sortByKey_perm _ _).symm⟩

/-- Sorting by position brings operands into sequence that can be brought into sequence. -/
theorem Numberable.sortOperands {instr : Instruction} (numberable : instr.Numberable) :
    instr.sortOperands.Numbered := by
  have perm : (instr.sortOperands.operands.map (·.position)).Perm
      (List.range' 1 instr.sortOperands.operands.length) :=
    instr.sortOperands_shuffles.symm.numberable numberable
  refine perm.eq_of_pairwise (fun _ _ _ _ => Nat.le_antisymm) ?_ List.pairwise_le_range'
  exact List.pairwise_map.mpr (pairwise_sortByKey _ _)

/-- Arranging succeeds for a positive order number and operands that can be numbered. -/
theorem arrange_eq_ok_iff {instr result : Instruction} :
    instr.arrange = .ok result ↔
      1 ≤ instr.order ∧ instr.Numberable ∧ result = instr.sortOperands := by
  constructor
  · intro arranged
    have sorted : result = instr.sortOperands := by
      unfold arrange at arranged
      grind
    obtain ⟨positive, numbered⟩ := arrange_eq_ok arranged
    subst sorted
    exact ⟨positive, instr.sortOperands_shuffles.numberable numbered.numberable, rfl⟩
  · rintro ⟨positive, numberable, rfl⟩
    unfold arrange
    rw [if_neg (Nat.pos_iff_ne_zero.mp positive)]
    simp only [misnumbered?_eq_none_iff.mpr numberable.sortOperands]

end Instruction

/-! ### Lists of shuffled instructions -/

section Shuffled

variable {xs ys zs : List Instruction}

theorem map_order_of_shuffles (h : List.Forall₂ Instruction.Shuffles xs ys) :
    xs.map (·.order) = ys.map (·.order) := by
  induction h with
  | nil => rfl
  | cons here _ ih => rw [List.map_cons, List.map_cons, here.order, ih]

theorem exists_mem_of_shuffles (h : List.Forall₂ Instruction.Shuffles xs ys) {x : Instruction}
    (mem : x ∈ xs) : ∃ y ∈ ys, x.Shuffles y := by
  induction h with
  | nil => cases mem
  | cons here _ ih =>
      rcases List.mem_cons.mp mem with rfl | mem
      · exact ⟨_, List.mem_cons_self, here⟩
      · obtain ⟨y, member, shuffles⟩ := ih mem
        exact ⟨y, List.mem_cons_of_mem _ member, shuffles⟩

/-- Numbered instructions that are shuffles of each other are the same. -/
theorem eq_of_shuffles (h : List.Forall₂ Instruction.Shuffles xs ys)
    (numbered : ∀ x ∈ xs, x.Numbered) (numbered' : ∀ y ∈ ys, y.Numbered) : xs = ys := by
  induction h with
  | nil => rfl
  | cons here _ ih =>
      obtain ⟨first, rest⟩ := List.forall_mem_cons.mp numbered
      obtain ⟨first', rest'⟩ := List.forall_mem_cons.mp numbered'
      rw [here.eq_of_numbered first first', ih rest rest']

namespace Rearranges

theorem symm (h : Rearranges xs ys) : Rearranges ys xs := by
  obtain ⟨shuffled, shuffles, perm⟩ := h
  have back : List.Forall₂ Instruction.Shuffles shuffled xs :=
    shuffles.flip.imp fun _ _ => Instruction.Shuffles.symm
  exact List.perm_comp_forall₂ perm.symm back

theorem trans (h : Rearranges xs ys) (h' : Rearranges ys zs) : Rearranges xs zs := by
  obtain ⟨shuffled, shuffles, perm⟩ := h
  obtain ⟨shuffled', shuffles', perm'⟩ := h'
  -- Shuffling the operands of permuted instructions is as good as permuting shuffled ones.
  obtain ⟨middle, again, permuted⟩ := List.perm_comp_forall₂ perm shuffles'
  refine ⟨middle, ?_, permuted.trans perm'⟩
  exact forall₂_trans (fun _ _ _ once more => once.trans more) shuffles again

/-- Rearranging keeps the order numbers. -/
theorem map_order (h : Rearranges xs ys) : (xs.map (·.order)).Perm (ys.map (·.order)) := by
  obtain ⟨shuffled, shuffles, perm⟩ := h
  rw [map_order_of_shuffles shuffles]
  exact perm.map _

theorem exists_mem (h : Rearranges xs ys) {x : Instruction} (mem : x ∈ xs) :
    ∃ y ∈ ys, x.Shuffles y := by
  obtain ⟨shuffled, shuffles, perm⟩ := h
  obtain ⟨y, member, same⟩ := exists_mem_of_shuffles shuffles mem
  exact ⟨y, perm.mem_iff.mp member, same⟩

/-- There is one way to bring instructions into sequence. -/
theorem eq_of_ascending (h : Rearranges xs ys)
    (ascending : xs.Pairwise fun a b => a.order < b.order)
    (ascending' : ys.Pairwise fun a b => a.order < b.order)
    (numbered : ∀ x ∈ xs, x.Numbered) (numbered' : ∀ y ∈ ys, y.Numbered) : xs = ys := by
  obtain ⟨shuffled, shuffles, perm⟩ := h
  have between : shuffled.Pairwise fun a b => a.order < b.order := by
    rw [← List.pairwise_map (R := (· < ·)), ← map_order_of_shuffles shuffles]
    exact List.pairwise_map.mpr ascending
  have same : shuffled = ys :=
    perm.eq_of_pairwise (fun _ _ _ _ lt gt => absurd lt (Nat.lt_asymm gt)) between ascending'
  subst same
  exact eq_of_shuffles shuffles numbered numbered'

end Rearranges

end Shuffled

/-! ### Making a program -/

namespace Program

variable {instrs instrs' : List Instruction} {program : Program}

/-- Sorting brings distinct order numbers into strict order, so that no two neighbours agree. -/
theorem sequence_eq_ok_of_distinct (distinct : (instrs.map (·.order)).Nodup) :
    ∃ sorted, sequence instrs = .ok sorted := by
  have perm : (sortByKey Instruction.order instrs).Perm instrs := sortByKey_perm _ _
  have differ : (sortByKey Instruction.order instrs).Pairwise fun a b => a.order ≠ b.order :=
    List.pairwise_map.mp ((perm.map Instruction.order).nodup_iff.mpr distinct)
  have ascending : (sortByKey Instruction.order instrs).Pairwise fun a b => a.order < b.order :=
    ((pairwise_sortByKey _ _).and differ).imp fun both => Nat.lt_of_le_of_ne both.1 both.2
  refine ⟨sortByKey Instruction.order instrs, ?_⟩
  unfold sequence
  simp only [duplicate?_eq_none ascending]

/-- Admissible instructions make a program. -/
theorem exists_of_admissible (admissible : Admissible instrs) :
    ∃ program, ofInstructions instrs = .ok program := by
  have arranging : instrs.mapM Instruction.arrange = .ok (instrs.map Instruction.sortOperands) := by
    rw [mapM_eq_ok_iff, List.forall₂_map_right_iff, List.forall₂_same]
    intro instr mem
    exact Instruction.arrange_eq_ok_iff.mpr
      ⟨admissible.positive instr mem, admissible.numberable instr mem, rfl⟩
  have orders : (instrs.map Instruction.sortOperands).map (·.order) = instrs.map (·.order) :=
    List.map_map
  obtain ⟨sorted, sequencing⟩ := sequence_eq_ok_of_distinct (orders ▸ admissible.distinct)
  obtain ⟨program, made, -⟩ := ofInstructions_of_sequence arranging sequencing
  exact ⟨program, made⟩

/-- A program consists of the instructions it is made of. -/
theorem rearranges_of_ofInstructions (made : ofInstructions instrs = .ok program) :
    Rearranges instrs program.toList := by
  unfold ofInstructions at made
  split at made
  · cases made
  · next arranged arranging =>
    split at made
    · cases made
    · next sorted sequencing =>
      cases made
      refine ⟨arranged, ?_, (sequence_eq_ok sequencing).1.symm⟩
      refine (mapM_eq_ok_iff.mp arranging).imp fun instr result arrange => ?_
      obtain ⟨-, -, rfl⟩ := Instruction.arrange_eq_ok_iff.mp arrange
      exact instr.sortOperands_shuffles

/-- What can be rearranged into a program is admissible. -/
theorem admissible_of_rearranges (h : Rearranges instrs program.toList) : Admissible instrs where
  positive := by
    intro instr mem
    obtain ⟨other, member, shuffles⟩ := h.exists_mem mem
    rw [shuffles.order]
    exact program.positive other member
  distinct := by
    have orders : (program.toList.map (·.order)).Nodup :=
      List.pairwise_map.mpr (program.ascending.imp Nat.ne_of_lt)
    exact h.map_order.nodup_iff.mpr orders
  numberable := by
    intro instr mem
    obtain ⟨other, member, shuffles⟩ := h.exists_mem mem
    exact shuffles.numberable (program.numbered other member).numberable

/-- Instructions make the program that rearranges them, if there is one. -/
theorem ofInstructions_eq_ok_iff :
    ofInstructions instrs = .ok program ↔ Rearranges instrs program.toList := by
  refine ⟨rearranges_of_ofInstructions, fun h => ?_⟩
  obtain ⟨program', made⟩ := exists_of_admissible (admissible_of_rearranges h)
  have same : Rearranges program'.toList program.toList :=
    (rearranges_of_ofInstructions made).symm.trans h
  have eq : program'.toList = program.toList :=
    same.eq_of_ascending program'.ascending program.ascending program'.numbered program.numbered
  rw [made, eq_of_toList_eq eq]

/-- Rearranged instructions make the same program, or none. -/
theorem ofInstructions_of_rearranges (h : Rearranges instrs instrs') :
    ofInstructions instrs' = .ok program ↔ ofInstructions instrs = .ok program := by
  rw [ofInstructions_eq_ok_iff, ofInstructions_eq_ok_iff]
  exact ⟨h.trans, h.symm.trans⟩

/-- Instructions make a program exactly when their order numbers are positive and distinct and each
has its operands numbered from one. The program consists of the same instructions with the same
operands, all in sequence; in which order they were given does not matter, neither for whether they
make a program nor for which; and a program is made of its own instructions. -/
theorem ofInstructions_characterized (instrs : List Instruction) :
    ((∃ program, ofInstructions instrs = .ok program) ↔ Admissible instrs) ∧
      (∀ program, ofInstructions instrs = .ok program →
        Rearranges instrs program.toList ∧
          program.toList.Pairwise (fun a b => a.order < b.order) ∧
            ∀ instr ∈ program.toList, instr.Numbered) ∧
        (∀ instrs', Rearranges instrs instrs' → ∀ program,
          ofInstructions instrs' = .ok program ↔ ofInstructions instrs = .ok program) ∧
          ∀ program, ofInstructions program.toList = .ok program := by
  refine ⟨⟨?_, exists_of_admissible⟩, ?_, ?_, ofInstructions_toList⟩
  · rintro ⟨program, made⟩
    exact admissible_of_rearranges (rearranges_of_ofInstructions made)
  · intro program made
    exact ⟨rearranges_of_ofInstructions made, program.ascending, program.numbered⟩
  · intro instrs' h program
    exact ofInstructions_of_rearranges h

/-- Three instructions out of sequence; so are the operands of one of them. -/
def scattered : List Instruction :=
  [⟨.breakpoint, 30, []⟩,
    ⟨.jumpIfEq, 2, [⟨3, .literal "2" (.int 2)⟩, ⟨1, .label "end"⟩, ⟨2, .literal "1" (.int 1)⟩]⟩,
    ⟨.ret, 7, []⟩]

/-- They make one program, the same if they are given the other way round. -/
theorem scattered_characterized :
    ∃ program, ofInstructions scattered = .ok program ∧
      program.toList.map (·.order) = [2, 7, 30] ∧ Rearranges scattered program.toList ∧
        Rearranges scattered scattered.reverse ∧
          ofInstructions scattered.reverse = .ok program := by
  obtain ⟨program, made, orders⟩ : ∃ program, ofInstructions scattered = .ok program ∧
      program.toList.map (·.order) = [2, 7, 30] := ⟨_, rfl, rfl⟩
  have reversed : Rearranges scattered scattered.reverse :=
    ⟨scattered, List.forall₂_same.mpr fun instr _ => .refl instr, (List.reverse_perm _).symm⟩
  obtain ⟨-, result, moved, -⟩ := ofInstructions_characterized scattered
  exact ⟨program, made, orders, (result program made).1, reversed,
    (moved _ reversed program).mpr made⟩

end Program

end FrameCode
