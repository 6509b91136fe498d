import FrameCode.Machine.Basic

/-!
The report on the state of a machine that a program can ask for.
-/

namespace FrameCode.Machine

def frameLine (m : Machine) (tag : FrameTag) : String :=
  s!"  {tag.name}: " ++ ((m.frames.frame? tag).map (·.text)).getD "<undefined>"

/-- One line each on where the program is, on its frames and on its stacks. -/
def report (m : Machine) (order : Nat) : String :=
  let values := m.dataStack.toList.map fun value => s!"{value.type.name}@{value.text}"
  let lines :=
    [s!"BREAK at order {order} (index {m.current.getD 0}), {m.executed} instructions executed",
     "  function: " ++ m.function.getD "<main>",
     m.frameLine .global,
     m.frameLine .local,
     m.frameLine .temporary,
     s!"  frame stack depth: {m.frames.depth}",
     s!"  call stack depth: {m.callStack.size}",
     "  data stack: [" ++ ", ".intercalate values ++ "]"]
  String.join (lines.map (· ++ "\n"))

end FrameCode.Machine
