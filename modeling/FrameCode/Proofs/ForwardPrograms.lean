import FrameCode.Proofs.Labels
import FrameCode.Proofs.Machine.Control
import Mathlib.Algebra.Ring.Nat

/-!
Programs in which control passes forward only. Such a program comes to an end, although returns go
back. Every index has a weight, twice that of the next one, and a machine weighs as much as its
program counter and all its return addresses together. A call splits the weight of its index between
the function and the point of return; every other step loses some of it. So a program makes no more
steps than its first index weighs.
-/

namespace FrameCode

namespace Program

def branchAt? (program : Program) (index : Nat) : Option String :=
  (program.get? index).bind Instruction.branchesTo?

def definedAt? (program : Program) (index : Nat) : Option String :=
  (program.get? index).bind Instruction.defines?

/-- Every label that control may pass to is defined behind the instruction that names it. -/
def Forward (program : Program) : Prop :=
  ∀ index < program.size, ∀ place < program.size, ∀ label ∈ program.branchAt? index,
    program.definedAt? place = some label → index < place

instance (program : Program) : Decidable program.Forward :=
  inferInstanceAs (Decidable (∀ index < program.size, ∀ place < program.size,
    ∀ label ∈ program.branchAt? index, program.definedAt? place = some label → index < place))

def weight (program : Program) (index : Nat) : Nat :=
  2 ^ (program.size - index)

theorem weight_pos (program : Program) (index : Nat) : 0 < program.weight index :=
  Nat.two_pow_pos _

/-- The weight falls from an instruction to any later one. -/
theorem weight_lt {program : Program} {index later : Nat} (within : index < program.size)
    (lt : index < later) : program.weight later < program.weight index :=
  Nat.pow_lt_pow_right (by decide) (by omega)

/-- What a call makes of the weight of its index. -/
theorem weight_add_lt {program : Program} {index target : Nat} (within : index + 1 < program.size)
    (lt : index + 1 < target) :
    program.weight (index + 1) + program.weight target < program.weight index := by
  have half : program.weight index = 2 * program.weight (index + 1) := by
    unfold weight
    rw [← Nat.pow_succ', show program.size - index = (program.size - (index + 1)).succ by omega]
  have less := weight_lt within lt
  omega

/-- In a forward program control passes to a point behind the next instruction, which is there. -/
theorem Forward.target_lt {program : Program} (forward : program.Forward)
    (collected : (Machine.collectLabels 0 ∅ program.toList).1 = .ok ()) {index target : Nat}
    {instr : Instruction} {label : String} (found : program.get? index = some instr)
    (isJump : instr.opcode.isJump) (named : instr.target = .ok label)
    (known : program.labels[label]? = some target) :
    index + 1 < program.size ∧ index + 1 < target := by
  obtain empty | ⟨place, definition, at_place, defines, rfl⟩ :=
    (Machine.collectLabels_getElem? collected label target).mp known
  · simp at empty
  · rw [getElem?_toList] at at_place
    have branches : program.branchAt? index = some label := by
      rw [branchAt?, found, Option.bind_some, Instruction.branchesTo?_of_target isJump named]
    have defined : program.definedAt? place = some label := by
      rw [definedAt?, at_place, Option.bind_some, defines]
    have within := lt_size_of_get? at_place
    have before := forward index (lt_size_of_get? found) place within label branches defined
    omega

/-- The weight of going on at an index, if there is one, and of returning to others later. -/
def load (program : Program) (pc : Option Nat) (records : List CallRecord) : Nat :=
  (pc.map program.weight).getD 0 + (records.map fun record => program.weight record.returnTo).sum

theorem load_some (program : Program) (index : Nat) (records : List CallRecord) :
    program.load (some index) records = program.weight index + program.load none records := by
  simp [load]

/-- A record adds the weight of the place it returns to. -/
theorem load_cons (program : Program) (pc : Option Nat) (record : CallRecord)
    (records : List CallRecord) :
    program.load pc (record :: records) =
      program.weight record.returnTo + program.load pc records := by
  simp only [load, List.map_cons, List.sum_cons]
  omega

end Program

namespace Machine

def weight (m : Machine) : Nat :=
  m.program.load m.pc m.callStack.items

theorem weight_pos {m : Machine} (running : m.pc.isSome) : 0 < m.weight := by
  obtain ⟨index, pc⟩ := Option.isSome_iff_exists.mp running
  have positive := m.program.weight_pos index
  rw [weight, pc, Program.load_some]
  omega

/-- Stopping behind the end of the program weighs nothing. -/
theorem weight_retire_le (m : Machine) (instr : Instruction) :
    (m.retire instr).weight ≤ m.weight := by
  simp only [weight, Program.load, retire]
  cases m.pc with
  | none => exact Nat.le_refl _
  | some index =>
      by_cases within : index < m.program.size
      · simp [Option.filter, within]
      · simp [Option.filter, within]

/-- Every step loses weight. -/
theorem weight_of_advance? {m m' : Machine} (forward : m.program.Forward)
    (collected : (collectLabels 0 ∅ m.program.toList).1 = .ok ())
    (labels : m.labels = m.program.labels) (advance : m.advance? = some m') :
    m'.weight < m.weight := by
  obtain ⟨index, pc, rest⟩ := advance?_cases advance
  have here : m.weight = m.program.weight index + m.program.load none m.callStack.items := by
    rw [weight, pc, Program.load_some]
  have positive := m.program.weight_pos index
  obtain ⟨-, rfl⟩ | ⟨instr, out, found, setting, moves, rfl⟩ := rest
  · change m.program.load none m.callStack.items < m.weight
    omega
  · refine Nat.lt_of_le_of_lt (weight_retire_le out instr) ?_
    rw [weight, setting.program]
    have within := Program.lt_size_of_get? found
    have target_lt {label : String} {target : Nat} (isJump : instr.opcode.isJump)
        (named : instr.target = .ok label) (known : m.labels[label]? = some target) :=
      forward.target_lt collected found isJump named (labels ▸ known)
    cases moves with
    | onward _ same =>
        rw [same.pc, same.callStack]
        change m.program.load (some (index + 1)) m.callStack.items < m.weight
        have less := Program.weight_lt within (Nat.lt_add_one index)
        rw [Program.load_some]
        omega
    | @jump label target opcode named known same =>
        rw [same.pc, same.callStack]
        change m.program.load (some target) m.callStack.items < m.weight
        have behind := (target_lt opcode.1 named known).2
        have less := Program.weight_lt within (Nat.lt_of_succ_lt behind)
        rw [Program.load_some]
        omega
    | @call label target opcode named known same =>
        rw [same.pc, same.callStack]
        change m.program.load (some target) (⟨index + 1, m.function⟩ :: m.callStack.items) <
          m.weight
        have isJump : instr.opcode.isJump := by rw [opcode]; rfl
        obtain ⟨next, behind⟩ := target_lt isJump named known
        have less := Program.weight_add_lt next behind
        simp only [Program.load_cons, Program.load_some]
        omega
    | @ret record rest _ top same =>
        rw [same.pc, same.callStack]
        change m.program.load (some record.returnTo) rest < m.weight
        change m.callStack.items = record :: rest at top
        rw [here, top, Program.load_cons, Program.load_some]
        omega
    | exit _ _ same =>
        rw [same.pc, same.callStack]
        change m.program.load none m.callStack.items < m.weight
        omega

/-- So steps taken and weight left are together no more than the weight of the first index. -/
theorem weight_of_stateAt? {m x : Machine} {n : Nat} (forward : m.program.Forward)
    (reached : m.stateAt? n = some x) : n + x.weight ≤ m.program.weight 0 := by
  induction n generalizing x with
  | zero =>
      obtain ⟨-, rfl⟩ := stateAt?_zero_iff.mp reached
      simp only [weight, reset, Program.load]
      split <;> simp
  | succ n ih =>
      obtain ⟨before, reachedBefore, advance⟩ := stateAt?_succ_iff.mp reached
      obtain ⟨program, labels⟩ := setting_of_stateAt? reachedBefore
      have collected := collected_of_stateAt? reachedBefore
      rw [← program] at forward collected labels
      have less := weight_of_advance? forward collected labels advance
      have bound := ih reachedBefore
      omega

/-- A program in which control passes forward only comes to an end, at rest or with an error,
whatever the channels do. It takes no more steps than it would if every instruction doubled their
number. -/
theorem forward_ends (m : Machine) (forward : m.program.Forward) :
    ∃ outcome, m.execute (2 ^ m.program.size) = .ended outcome := by
  cases progress : m.execute (2 ^ m.program.size) with
  | ended outcome => exact ⟨outcome, rfl⟩
  | running x =>
      obtain ⟨reached, running⟩ := stateAt?_of_running progress
      have bound : 2 ^ m.program.size + x.weight ≤ 2 ^ m.program.size :=
        weight_of_stateAt? forward reached
      have positive := weight_pos running
      omega

/-- Functions that run into one another, so that each of them is run twice as often as the one
before it. -/
def doublingCalls : Machine where
  program :=
    { instructions := #[⟨.call, 1, [⟨1, .label "a"⟩]⟩, ⟨.label, 2, [⟨1, .label "a"⟩]⟩,
        ⟨.call, 3, [⟨1, .label "b"⟩]⟩, ⟨.label, 4, [⟨1, .label "b"⟩]⟩,
        ⟨.call, 5, [⟨1, .label "c"⟩]⟩, ⟨.label, 6, [⟨1, .label "c"⟩]⟩, ⟨.ret, 7, []⟩] }
  input := { pending := [] }

/-- The run takes more than three times as many steps as there are instructions. -/
theorem doublingCalls_ends :
    doublingCalls.program.Forward ∧ (∃ x, doublingCalls.execute 21 = .running x) ∧
      ∃ outcome, doublingCalls.execute (2 ^ 7) = .ended outcome := by
  have forward : doublingCalls.program.Forward := by decide
  exact ⟨forward, ⟨_, rfl⟩, forward_ends doublingCalls forward⟩

end Machine

end FrameCode
