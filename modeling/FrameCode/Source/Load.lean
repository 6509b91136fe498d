import FrameCode.Source.Statement
import FrameCode.Text.Lines

/-!
Loading a source text. The first statement is the header alone; each following one is an
instruction, and their order numbers count from one. The first line that is wrong decides the
error. `render` writes a program back as a source text.
-/

namespace FrameCode.Source

/-- The statements among lines that are numbered from `line`. -/
def statementsFrom (line : Nat) : List (List Char) → List Statement
  | [] => []
  | chars :: rest =>
      match lineWords chars with
      | [] => statementsFrom (line + 1) rest
      | words => ⟨line, words⟩ :: statementsFrom (line + 1) rest

/-- The instructions of statements, with order numbers from `order`. -/
def instructionsFrom (order : Nat) : List Statement → Except Error (List Instruction)
  | [] => .ok []
  | statement :: rest => do
      let instr ← statement.toInstruction order
      let instrs ← instructionsFrom (order + 1) rest
      return instr :: instrs

/-- The instructions after the header. -/
def body : List Statement → Except Error (List Instruction)
  | [] => .error (.missingHeader 1)
  | first :: rest => do
      if (← first.recognize) = [.header] then instructionsFrom 1 rest
      else .error (.missingHeader first.line)

def load (text : String) : Except Error Program := do
  let instructions ← body (statementsFrom 1 (Text.lines text.toList))
  (Program.ofInstructions instructions).mapError .program

/-- The header and each instruction on a line of its own. -/
def render (program : Program) : String :=
  "\n".intercalate (header :: program.toList.map (·.text))

end FrameCode.Source
