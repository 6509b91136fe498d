import FrameCode.Channel
import FrameCode.Frames
import FrameCode.Program

/-!
The machine that runs a program, and what an operation on it leaves behind. An operation that
fails still leaves a machine: some instructions have taken values, read input or written output
before they fail.
-/

namespace FrameCode

/-- What a call saves for the matching return. -/
structure CallRecord where
  /-- The index to go on at. -/
  returnTo : Nat
  /-- The function that made the call. -/
  function : Option String
deriving DecidableEq, Repr

abbrev Labels := Std.TreeMap String Nat

structure Machine where
  program : Program
  frames : Frames := {}
  dataStack : Stack Value := {}
  callStack : Stack CallRecord := {}
  /-- The index of the next instruction; a machine without one is at rest. -/
  pc : Option Nat := none
  /-- For each label the index that a jump to it goes on at. -/
  labels : Labels := ∅
  /-- The index of the instruction that was begun last. -/
  current : Option Nat := none
  /-- The label of the function that is running. -/
  function : Option String := none
  input : Input
  output : Sink := {}
  diagnostics : Sink := {}
  /-- The code that the program has ended itself with. -/
  exitCode : Option Nat := none
  /-- The number of instructions executed, those for debugging not counted. -/
  executed : Nat := 0

/-- How an operation ended, and the machine that it left. -/
structure Outcome (ε : Type) where
  result : Except ε Unit
  machine : Machine

namespace Machine

def succeed {ε : Type} (m : Machine) : Outcome ε :=
  ⟨.ok (), m⟩

def fail {ε : Type} (m : Machine) (error : ε) : Outcome ε :=
  ⟨.error error, m⟩

/-- All or nothing: goes over to the new machine, or fails and leaves this one as it is. -/
def attempt {ε : Type} (m : Machine) : Except ε Machine → Outcome ε
  | .ok m' => m'.succeed
  | .error error => m.fail error

def isRunning (m : Machine) : Bool :=
  m.pc.isSome

def currentInstruction? (m : Machine) : Option Instruction :=
  m.current.bind m.program.get?

def target? (m : Machine) (label : String) : Option Nat :=
  m.labels[label]?

end Machine

end FrameCode
