import FrameCode.Proofs.Fallible
import FrameCode.Proofs.Operands

/-!
The two forms of an operation. An operation on operands does what its form on the data stack does
between pushing the operands and popping the result: both compute the same machine or meet the same
fault. What a row of instructions computes is described by `Outcome.Yields`, with one rule for each
instruction of the row, so the row is compared with the single instruction part by part.
-/

namespace FrameCode

/-- The opcode that does on the data stack what this one does on its operands. -/
def Opcode.stackForm? : Opcode → Option Opcode
  | .add => some .adds
  | .sub => some .subs
  | .mul => some .muls
  | .div => some .divs
  | .idiv => some .idivs
  | .lt => some .lts
  | .gt => some .gts
  | .eq => some .eqs
  | .and => some .ands
  | .or => some .ors
  | .not => some .nots
  | .int2char => some .int2chars
  | .stri2int => some .stri2ints
  | .int2float => some .int2floats
  | .float2int => some .float2ints
  | .jumpIfEq => some .jumpIfEqs
  | .jumpIfNeq => some .jumpIfNeqs
  | _ => none

/-- A pair of opcodes applies the same function, or jumps on the same condition. -/
theorem Opcode.action_of_stackForm? {op ops : Opcode} (pair : op.stackForm? = some ops) :
    (op.signature = [.var, .symb, .symb] ∧
        ∃ f, op.action = .binary f ∧ ops.action = .binaryStack f) ∨
      (op.signature = [.var, .symb] ∧ ∃ f, op.action = .unary f ∧ ops.action = .unaryStack f) ∨
      (op.signature = [.label, .symb, .symb] ∧
        ∃ whenEqual, op.action = .jumpIf whenEqual ∧ ops.action = .jumpIfStack whenEqual) := by
  cases op with
  | add | sub | mul | div | idiv | lt | gt | eq | and | or | stri2int =>
      cases pair
      exact .inl ⟨rfl, _, rfl, rfl⟩
  | not | int2char | int2float | float2int =>
      cases pair
      exact .inr (.inl ⟨rfl, _, rfl, rfl⟩)
  | jumpIfEq | jumpIfNeq =>
      cases pair
      exact .inr (.inr ⟨rfl, _, rfl, rfl⟩)
  | _ => cases pair

inductive Symbol where
  | variable (var : Variable)
  | literal (content : String) (value : Value)

def Symbol.argument : Symbol → Argument
  | .variable var => .variable var
  | .literal content value => .literal content value

namespace Instruction

/-- The instruction with the given arguments at the positions from one. -/
def of (order : Nat) (opcode : Opcode) (arguments : List Argument) : Instruction :=
  ⟨opcode, order, arguments.zipIdx 1 |>.map fun entry => ⟨entry.2, entry.1⟩⟩

def row (first : Nat) : List (Opcode × List Argument) → List Instruction
  | [] => []
  | (opcode, arguments) :: rest => of first opcode arguments :: row (first + 1) rest

theorem numbered_of (order : Nat) (opcode : Opcode) (arguments : List Argument) :
    (of order opcode arguments).Numbered := by
  simp only [Numbered, of, List.map_map, Function.comp_def, List.length_map, List.length_zipIdx]
  exact List.zipIdx_map_snd 1 arguments

/-- The arguments stand at their positions. -/
theorem argument?_of (order : Nat) (opcode : Opcode) (arguments : List Argument) (k : Nat) :
    (of order opcode arguments).argument? (k + 1) = arguments[k]? := by
  rw [argument?, (numbered_of order opcode arguments).operand?]
  simp [of, Function.comp_def]

end Instruction

namespace Machine

/-- Executes instructions one after the other, up to the first that fails. -/
def performAll (m : Machine) : List Instruction → Outcome Fault
  | [] => m.succeed
  | instr :: rest =>
      match instr.perform m with
      | ⟨.ok (), m'⟩ => m'.performAll rest
      | failed => failed

def valueOf (m : Machine) : Symbol → Except Fault Value
  | .variable var => m.frames.read var
  | .literal _ value => .ok value

def store (m : Machine) (var : Variable) (value : Value) : Except Fault Machine :=
  (committed (m.frames.write var value)).map fun frames => { m with frames }

end Machine

namespace Outcome

/-- Both succeed and leave the same machine, or both fail with the same fault. -/
structure Agrees (a b : Outcome Fault) : Prop where
  result : a.result = b.result
  machine : a.result = .ok () → a.machine = b.machine

/-- The outcome is the machine that is computed, or a failure with the fault that is met. -/
def Yields (outcome : Outcome Fault) : Except Fault Machine → Prop
  | .ok m => outcome = m.succeed
  | .error fault => outcome.result = .error fault

/-- Outcomes that yield the same agree. -/
theorem Yields.agrees {a b : Outcome Fault} {x : Except Fault Machine} (first : a.Yields x)
    (second : b.Yields x) : a.Agrees b := by
  cases x with
  | ok m =>
      cases first
      cases second
      exact ⟨rfl, fun _ => rfl⟩
  | error fault =>
      have failed : a.result = .error fault := first
      refine ⟨failed.trans second.symm, fun succeeded => ?_⟩
      cases failed.symm.trans succeeded

theorem Yields.attempt (m : Machine) (x : Except Fault Machine) : (m.attempt x).Yields x := by
  cases x with
  | ok m' => rfl
  | error fault => rfl

theorem Yields.evaluate {α : Type} {m : Machine} {value : Except Fault α}
    {next : α → Outcome Fault} {rest : α → Except Fault Machine}
    (h : ∀ a, (next a).Yields (rest a)) : (m.evaluate value next).Yields (value >>= rest) := by
  cases value with
  | ok a => exact h a
  | error fault => rfl

/-- An instruction with a destination stores its value there. -/
theorem Yields.assign {m : Machine} {instr : Instruction} {var : Variable}
    (destination : instr.destination = .ok var) (value : Value) :
    (m.assign instr value).Yields (m.store var value) := by
  rw [Machine.assign, destination]
  change (m.withFrames (m.frames.write var value)).Yields _
  unfold Machine.store
  rcases m.frames.write var value with ⟨_ | _, frames⟩
  · rfl
  · rfl

end Outcome

open Machine

/-! ### What the instructions of a row compute -/

section Row

variable {m : Machine} {instr : Instruction} {rest : List Instruction} {α : Type}

theorem source_of (order : Nat) (opcode : Opcode) {arguments : List Argument} {symbol : Symbol}
    (k : Nat) (found : arguments[k]? = some symbol.argument) :
    m.source (.of order opcode arguments) (k + 1) = m.valueOf symbol := by
  unfold source
  rw [Instruction.argument?_of, found]
  cases symbol with
  | «variable» var => rfl
  | literal content value => rfl

theorem performAll_singleton (m : Machine) (instr : Instruction) :
    m.performAll [instr] = instr.perform m := by
  unfold performAll
  rcases instr.perform m with ⟨fault | _, m'⟩
  · rfl
  · rfl

/-- The rule for an instruction that pushes what it computes. -/
theorem yields_of_push {start : Machine} {x : Except Fault Value}
    {next : Value → Except Fault Machine}
    (performed : instr.perform start = m.attempt (x >>= fun value => .ok (m.push value)))
    (h : ∀ value, ((m.push value).performAll rest).Yields (next value)) :
    (start.performAll (instr :: rest)).Yields (x >>= next) := by
  rw [performAll, performed]
  cases x with
  | ok value => exact h value
  | error fault => rfl

/-- A push leaves its value to the rest of the row. -/
theorem pushs_yields {symbol : Symbol} {next : Value → Except Fault Machine} (order : Nat)
    (h : ∀ value, ((m.push value).performAll rest).Yields (next value)) :
    (m.performAll (.of order .pushs [symbol.argument] :: rest)).Yields
      (m.valueOf symbol >>= next) := by
  have source : m.source (.of order .pushs [symbol.argument]) 1 = m.valueOf symbol :=
    source_of order .pushs 0 rfl
  rw [← source]
  exact yields_of_push rfl h

theorem unaryStack_yields {op : UnaryOp} {a : Value} {next : Value → Except Fault Machine}
    (action : instr.opcode.action = .unaryStack op)
    (h : ∀ value, ((m.push value).performAll rest).Yields (next value)) :
    ((m.push a).performAll (instr :: rest)).Yields (op.apply a >>= next) := by
  refine yields_of_push ?_ h
  rw [Instruction.perform, action]
  rfl

theorem binaryStack_yields {op : BinaryOp} {a b : Value} {next : Value → Except Fault Machine}
    (action : instr.opcode.action = .binaryStack op)
    (h : ∀ value, ((m.push value).performAll rest).Yields (next value)) :
    (((m.push a).push b).performAll (instr :: rest)).Yields (op.apply a b >>= next) := by
  refine yields_of_push ?_ h
  rw [Instruction.perform, action]
  rfl

/-- A pop stores what lies on top. -/
theorem pops_yields (order : Nat) (var : Variable) (value : Value) :
    ((m.push value).performAll [.of order .pops [.variable var]]).Yields (m.store var value) := by
  rw [performAll_singleton]
  have destination : (Instruction.of order .pops [.variable var]).destination = .ok var := rfl
  exact .assign (m := m) destination value

theorem jumpIfStack_yields {whenEqual : Bool} {label : String} {a b : Value}
    (action : instr.opcode.action = .jumpIfStack whenEqual) (named : instr.target = .ok label) :
    (((m.push a).push b).performAll [instr]).Yields (m.jumpWhen whenEqual label a b) := by
  rw [performAll_singleton, Instruction.perform, action, Action.perform, named]
  exact .attempt m (m.jumpWhen whenEqual label a b)

end Row

/-! ### The two forms -/

section Forms

variable (m : Machine) (first order : Nat) {op ops : Opcode}

/-- The two forms of an operation on one value agree. -/
theorem unary_agrees {f : UnaryOp} (onOperands : op.action = .unary f)
    (onStack : ops.action = .unaryStack f) (var : Variable) (a : Symbol) :
    (m.performAll (Instruction.row first
        [(.pushs, [a.argument]), (ops, []), (.pops, [.variable var])])).Agrees
      ((Instruction.of order op [.variable var, a.argument]).perform m) := by
  refine Outcome.Yields.agrees
    (x := do
      let a ← m.valueOf a
      let value ← f.apply a
      m.store var value) ?_ ?_
  · refine pushs_yields first fun a => ?_
    exact unaryStack_yields onStack fun value => pops_yields (first + 2) var value
  · let instr := Instruction.of order op [.variable var, a.argument]
    have source : m.source instr 2 = m.valueOf a := source_of order op 1 rfl
    rw [Instruction.perform, show instr.opcode.action = _ from onOperands, ← source, ← bind_assoc]
    exact .evaluate fun value => .assign rfl value

/-- The two forms of an operation on two values agree. -/
theorem binary_agrees {f : BinaryOp} (onOperands : op.action = .binary f)
    (onStack : ops.action = .binaryStack f) (var : Variable) (a b : Symbol) :
    (m.performAll (Instruction.row first
        [(.pushs, [a.argument]), (.pushs, [b.argument]), (ops, []),
          (.pops, [.variable var])])).Agrees
      ((Instruction.of order op [.variable var, a.argument, b.argument]).perform m) := by
  refine Outcome.Yields.agrees
    (x := do
      let a ← m.valueOf a
      let b ← m.valueOf b
      let value ← f.apply a b
      m.store var value) ?_ ?_
  · refine pushs_yields first fun a => ?_
    refine pushs_yields (m := m.push a) (first + 1) fun b => ?_
    exact binaryStack_yields onStack fun value => pops_yields (first + 3) var value
  · let instr := Instruction.of order op [.variable var, a.argument, b.argument]
    have left : m.source instr 2 = m.valueOf a := source_of order op 1 rfl
    have right : m.source instr 3 = m.valueOf b := source_of order op 2 rfl
    rw [Instruction.perform, show instr.opcode.action = _ from onOperands, ← left, ← right]
    simp only [← bind_assoc]
    exact .evaluate fun value => .assign rfl value

/-- The two forms of a conditional jump agree. -/
theorem jumpIf_agrees {whenEqual : Bool} (onOperands : op.action = .jumpIf whenEqual)
    (onStack : ops.action = .jumpIfStack whenEqual) (label : String) (a b : Symbol) :
    (m.performAll (Instruction.row first
        [(.pushs, [a.argument]), (.pushs, [b.argument]), (ops, [.label label])])).Agrees
      ((Instruction.of order op [.label label, a.argument, b.argument]).perform m) := by
  refine Outcome.Yields.agrees
    (x := do
      let a ← m.valueOf a
      let b ← m.valueOf b
      m.jumpWhen whenEqual label a b) ?_ ?_
  · refine pushs_yields first fun a => ?_
    refine pushs_yields (m := m.push a) (first + 1) fun b => ?_
    exact jumpIfStack_yields onStack rfl
  · let instr := Instruction.of order op [.label label, a.argument, b.argument]
    have left : m.source instr 2 = m.valueOf a := source_of order op 1 rfl
    have right : m.source instr 3 = m.valueOf b := source_of order op 2 rfl
    rw [Instruction.perform, show instr.opcode.action = _ from onOperands, ← left, ← right]
    exact .attempt m _

/-- Pushing the operands, executing the opcode's form on the data stack and popping the result does
what the opcode does on its operands, in every machine and also if the destination is one of the
sources. The first conjunct of each case says which operands the opcode takes. -/
theorem stack_form_agrees (pair : op.stackForm? = some ops) :
    (op.signature = [.var, .symb, .symb] ∧ ∀ (var : Variable) (a b : Symbol),
        (m.performAll (Instruction.row first
            [(.pushs, [a.argument]), (.pushs, [b.argument]), (ops, []),
              (.pops, [.variable var])])).Agrees
          ((Instruction.of order op [.variable var, a.argument, b.argument]).perform m)) ∨
      (op.signature = [.var, .symb] ∧ ∀ (var : Variable) (a : Symbol),
        (m.performAll (Instruction.row first
            [(.pushs, [a.argument]), (ops, []), (.pops, [.variable var])])).Agrees
          ((Instruction.of order op [.variable var, a.argument]).perform m)) ∨
      (op.signature = [.label, .symb, .symb] ∧ ∀ (label : String) (a b : Symbol),
        (m.performAll (Instruction.row first
            [(.pushs, [a.argument]), (.pushs, [b.argument]), (ops, [.label label])])).Agrees
          ((Instruction.of order op [.label label, a.argument, b.argument]).perform m)) := by
  obtain ⟨signature, f, onOperands, onStack⟩ | ⟨signature, f, onOperands, onStack⟩ |
    ⟨signature, whenEqual, onOperands, onStack⟩ := Opcode.action_of_stackForm? pair
  · exact .inl ⟨signature, fun var a b =>
      binary_agrees m first order onOperands onStack var a b⟩
  · exact .inr (.inl ⟨signature, fun var a =>
      unary_agrees m first order onOperands onStack var a⟩)
  · exact .inr (.inr ⟨signature, fun label a b =>
      jumpIf_agrees m first order onOperands onStack label a b⟩)

end Forms

def holdingSeven : Machine where
  program := { instructions := #[] }
  frames := { global := ({} : Frame).set "x" (some (.int 7)) }
  input := { pending := [] }

/-- The variable is reduced by two, as destination and source at once. -/
theorem holdingSeven_sub :
    let x : Variable := ⟨.global, "x"⟩
    let onStack := holdingSeven.performAll (Instruction.row 1
      [(.pushs, [.variable x]), (.pushs, [.literal "2" (.int 2)]), (.subs, []),
        (.pops, [.variable x])])
    let onOperands := (Instruction.of 1 .sub
      [.variable x, .variable x, .literal "2" (.int 2)]).perform holdingSeven
    onStack.Agrees onOperands ∧ onStack.result = .ok () ∧
      onOperands.machine.frames.read x = .ok (.int 5) := by
  refine ⟨?_, rfl, rfl⟩
  obtain ⟨-, agrees⟩ | ⟨signature, -⟩ | ⟨signature, -⟩ :=
    stack_form_agrees holdingSeven 1 1 (show Opcode.sub.stackForm? = some .subs from rfl)
  · exact agrees ⟨.global, "x"⟩ (.variable ⟨.global, "x"⟩) (.literal "2" (.int 2))
  · cases signature
  · cases signature

end FrameCode
