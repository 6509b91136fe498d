import FrameCode.Check.Scan
import FrameCode.Machine.Action

/-!
Operands by position and operands by signature. The static check compares the row of operands with
the row of expected kinds, while actions ask for operands by position number. For instructions that
are numbered the two views agree, and every action asks only for what its opcode's signature
promises.
-/

namespace FrameCode

namespace Action

/-- The kinds of the operands that an action asks for, at the positions from one. -/
def reads : Action → List OperandKind
  | .nothing | .createFrame | .pushFrame | .popFrame | .ret | .clear
  | .unaryStack _ | .binaryStack _ | .report => []
  | .defVar | .pop => [.var]
  | .push | .write | .print | .exit => [.symb]
  | .call | .jump | .jumpIfStack _ => [.label]
  | .move | .unary _ | .typeOf => [.var, .symb]
  | .read => [.var, .typeName]
  | .binary _ | .setChar => [.var, .symb, .symb]
  | .jumpIf _ => [.label, .symb, .symb]

end Action

/-- No opcode's action asks for more than the signature promises. -/
theorem Opcode.reads_prefix (op : Opcode) : op.action.reads <+: op.signature := by
  cases op <;> decide

namespace Instruction

theorem destination_eq_ok_iff {instr : Instruction} {var : Variable} :
    instr.destination = .ok var ↔ instr.argument? 1 = some (.variable var) := by
  unfold destination
  split
  · next named => simp [named]
  · next other => simpa using other var

/-- Where an instruction defines a label or passes control to one, that is its first operand. -/
theorem label?_of_target {instr : Instruction} {label : String}
    (carries : instr.opcode = .label ∨ instr.opcode.isJump) (named : instr.target = .ok label) :
    instr.label? = some label := by
  unfold target at named
  split at named
  · next argument =>
    cases named
    rw [label?, if_pos carries, argument]
    rfl
  · cases named

/-- At its first positions the instruction has arguments of the given kinds. -/
def Supplies (instr : Instruction) (kinds : List OperandKind) : Prop :=
  ∀ k kind, kinds[k]? = some kind →
    ∃ argument, instr.argument? (k + 1) = some argument ∧ kind.accepts argument = true

theorem find?_position {operands : List Operand} {start : Nat}
    (numbered : operands.map (·.position) = List.range' start operands.length) (k : Nat) :
    operands.find? (·.position == start + k) = operands[k]? := by
  induction operands generalizing start k with
  | nil => simp
  | cons operand rest ih =>
      simp only [List.map_cons, List.length_cons, List.range'_succ, List.cons.injEq] at numbered
      obtain ⟨first, others⟩ := numbered
      cases k with
      | zero => simp [first]
      | succ k =>
          have differ : operand.position ≠ start + (k + 1) := by omega
          rw [List.find?_cons_of_neg (by simpa using differ)]
          simpa [Nat.add_assoc, Nat.add_comm 1 k] using ih others k

/-- In a numbered instruction, looking up a position is indexing. -/
theorem Numbered.operand? {instr : Instruction} (numbered : instr.Numbered) (k : Nat) :
    instr.operand? (k + 1) = instr.operands[k]? := by
  have found := find?_position numbered k
  rwa [Nat.add_comm 1 k] at found

/-- An instruction on which the static check has nothing to say supplies its signature. -/
theorem Numbered.supplies {instr : Instruction} (numbered : instr.Numbered)
    (clean : Check.signatureFindings instr = []) : instr.Supplies instr.opcode.signature := by
  intro k kind expected
  unfold Check.signatureFindings at clean
  split at clean
  · next length =>
    have inRange : k < instr.operands.length := by
      rw [length]
      exact (List.getElem?_eq_some_iff.mp expected).1
    obtain ⟨operand, found⟩ : ∃ operand, instr.operands[k]? = some operand :=
      ⟨_, List.getElem?_eq_getElem inRange⟩
    have paired : (operand, kind) ∈ instr.operands.zip instr.opcode.signature :=
      List.mem_of_getElem? (List.getElem?_zip_eq_some.mpr ⟨found, expected⟩)
    have accepted := List.filterMap_eq_nil_iff.mp clean _ paired
    refine ⟨operand.argument, ?_, by simpa using accepted⟩
    rw [argument?, numbered.operand?, found, Option.map_some]
  · cases clean

theorem Supplies.mono {instr : Instruction} {kinds kinds' : List OperandKind}
    (supplies : instr.Supplies kinds') (le : kinds <+: kinds') : instr.Supplies kinds := by
  intro k kind expected
  obtain ⟨rest, rfl⟩ := le
  refine supplies k kind ?_
  rw [List.getElem?_append_left (List.getElem?_eq_some_iff.mp expected).1, expected]

end Instruction

end FrameCode
