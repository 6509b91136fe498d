import FrameCode.Check.Finding
import Std.Data.TreeMap
import Std.Data.TreeSet

/-!
The static check: one pass over the program that executes nothing and reports everything it finds.
An instruction with the wrong operands gets findings on them alone; a well-formed one is searched
for label definitions, jump targets and declarations of global variables. What variables the other
frames hold depends on the run. After the pass every recorded target has to be defined.
-/

namespace FrameCode.Check

/-- What the pass has seen so far. -/
structure Scan where
  /-- Each label with the order number of its definition, the first one if there are several. -/
  labels : Std.TreeMap String Nat := ∅
  /-- Targets with the order number of the instruction that names them, in program order. -/
  jumps : List (Nat × String) := []
  /-- Names of the declared global variables. -/
  globals : Std.TreeSet String := ∅

/-- Findings on the operands: their number, or else each that is not of the expected kind. -/
def signatureFindings (instr : Instruction) : List Finding :=
  if instr.operands.length = instr.opcode.arity then
    (instr.operands.zip instr.opcode.signature).filterMap fun (operand, expected) =>
      if expected.accepts operand.argument then none
      else some (.incompatibleOperand instr.order instr.opcode operand.position expected
        operand.argument)
  else [.arityMismatch instr.order instr.opcode instr.opcode.arity instr.operands.length]

/-- The global variable that an instruction declares. -/
def declaredGlobal? (instr : Instruction) : Option String :=
  if instr.opcode.declaresVariable then
    match (instr.argument? 1).bind Argument.var? with
    | some ⟨.global, name⟩ => some name
    | _ => none
  else none

namespace Scan

def isDefined (scan : Scan) (label : String) : Bool :=
  scan.labels.contains label

/-- Records a label that is defined, or a target that is named. -/
def recordLabel (scan : Scan) (instr : Instruction) : Scan × List Finding :=
  match instr.label? with
  | none => (scan, [])
  | some label =>
      if instr.opcode = .label then
        if scan.isDefined label then (scan, [.labelRedefinition instr.order label])
        else ({ scan with labels := scan.labels.insert label instr.order }, [])
      else ({ scan with jumps := scan.jumps ++ [(instr.order, label)] }, [])

def recordGlobal (scan : Scan) (instr : Instruction) : Scan × List Finding :=
  match declaredGlobal? instr with
  | none => (scan, [])
  | some name =>
      if scan.globals.contains name then
        (scan, [.variableRedefinition instr.order ⟨.global, name⟩])
      else ({ scan with globals := scan.globals.insert name }, [])

/-- Findings on the recorded targets, in the order they were recorded. -/
def targetFindings (scan : Scan) : List Finding :=
  scan.jumps.filterMap fun (order, label) =>
    if scan.isDefined label then none else some (.undefinedLabel order label)

/-- Looks at the next instruction. -/
def visit (scan : Scan) (instr : Instruction) : Scan × List Finding :=
  match signatureFindings instr with
  | [] =>
      let labelled := scan.recordLabel instr
      let declared := labelled.1.recordGlobal instr
      (declared.1, labelled.2 ++ declared.2)
  | findings => (scan, findings)

def visitAll (scan : Scan) : List Instruction → Scan × List Finding
  | [] => (scan, [])
  | instr :: rest =>
      let visited := scan.visit instr
      let others := visited.1.visitAll rest
      (others.1, visited.2 ++ others.2)

end Scan

/-- Everything that is wrong with a program; a program without findings may be run. -/
def findings (program : Program) : List Finding :=
  let scanned := ({} : Scan).visitAll program.toList
  scanned.2 ++ scanned.1.targetFindings

end FrameCode.Check
