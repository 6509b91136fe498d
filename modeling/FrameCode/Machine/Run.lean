import FrameCode.Machine.Action

/-!
Running a program: the labels are collected, the machine is reset, and instructions are executed one
after the other until the machine comes to rest or one of them fails. The number of steps is bounded
by fuel, because programs need not end.
-/

namespace FrameCode.Machine

/-- Collects the labels of instructions that are counted from `index`. A label's jumps go on after
its definition. The table is returned as far as it got; of two definitions it holds the second. -/
def collectLabels (index : Nat) (labels : Labels) :
    List Instruction → Except RuntimeError Unit × Labels
  | [] => (.ok (), labels)
  | instr :: rest =>
      if instr.opcode = .label then
        match instr.label? with
        | none => (.error ⟨.operand 1 .label, some instr.site⟩, labels)
        | some label =>
            let extended := labels.insert label (index + 1)
            if labels.contains label then
              (.error ⟨.labelRedefinition label, some instr.site⟩, extended)
            else collectLabels (index + 1) extended rest
      else collectLabels (index + 1) labels rest

/-- Builds the label table anew. -/
def mapLabels (m : Machine) : Outcome RuntimeError :=
  let (result, labels) := collectLabels 0 ∅ m.program.toList
  ⟨result, { m with labels }⟩

/-- The state at the first instruction of the program. The channels and the label table stay. -/
def reset (m : Machine) : Machine :=
  { m with
    frames := {}
    dataStack := {}
    callStack := {}
    pc := if m.program.size = 0 then none else some 0
    current := none
    function := none
    exitCode := none
    executed := 0 }

/-- Accounts for an executed instruction and stops behind the last one. -/
def retire (m : Machine) (instr : Instruction) : Machine :=
  { m with
    executed := if instr.opcode.kind = .debug then m.executed else m.executed + 1
    pc := m.pc.filter (· < m.program.size) }

/-- Executes the instruction at an index. A jump overrides the index of the one that follows it. -/
def step (m : Machine) (index : Nat) : Outcome RuntimeError :=
  match m.program.get? index with
  | none => succeed { m with pc := none }
  | some instr =>
      match instr.perform { m with current := some index, pc := some (index + 1) } with
      | ⟨.ok (), m⟩ => (m.retire instr).succeed
      | ⟨.error fault, m⟩ => m.fail ⟨fault, some instr.site⟩

/-- How far a run has come. -/
inductive Progress where
  | ended (outcome : Outcome RuntimeError)
  | running (m : Machine)

/-- Goes on from a machine until it rests, fails, or has made as many steps as the fuel allows. -/
def resume : Nat → Machine → Progress
  | fuel, m =>
      match m.pc with
      | none => .ended m.succeed
      | some index =>
          match fuel with
          | 0 => .running m
          | fuel + 1 =>
              match m.step index with
              | ⟨.ok (), m⟩ => resume fuel m
              | failed => .ended failed

/-- Runs the program from its start. -/
def execute (fuel : Nat) (m : Machine) : Progress :=
  match m.mapLabels with
  | ⟨.ok (), m⟩ => resume fuel m.reset
  | failed => .ended failed

end FrameCode.Machine
