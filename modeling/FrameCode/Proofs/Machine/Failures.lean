import FrameCode.Proofs.Fallible
import FrameCode.Proofs.Frames
import FrameCode.Proofs.Operands

/-!
What an instruction can fail with. Some faults depend on the values, variables and channels of a
run; the others say that the program itself is wrong. An instruction that has the operands it asks
for, and whose label is known, fails only with faults of the first sort (`perform_dynamic`), and
only a declaration fails because its variable is there already (`perform_ordinary`).
-/

namespace FrameCode

/-- The faults that a run can meet in a program that is right in itself. -/
def Fault.isDynamic : Fault → Bool
  | .badTypes _ _ | .noVariable _ | .noFrame _ | .missingValue _ | .badValue _ | .badString _
  | .variableRedefinition _ | .input _ | .output _ => true
  | .labelRedefinition _ | .undefinedLabel _ | .operand _ _ | .internal _ => false

/-- The faults among these that instructions of more than one sort can meet. -/
def Fault.isOrdinary : Fault → Bool
  | .variableRedefinition _ => false
  | fault => fault.isDynamic

theorem Fault.isDynamic_of_isOrdinary {fault : Fault} (ordinary : fault.isOrdinary = true) :
    fault.isDynamic = true := by
  cases fault <;> first | exact ordinary | rfl

variable {α β : Type}

def FailsOrdinarily (x : Except Fault α) : Prop :=
  Ensures (fun _ => True) (fun fault => fault.isOrdinary = true) x

namespace FailsOrdinarily

theorem ok (a : α) : FailsOrdinarily (.ok a) := True.intro

/-- Both parts have to fail ordinarily, the second for every result of the first. -/
theorem bind {x : Except Fault α} {next : α → Except Fault β} (first : FailsOrdinarily x)
    (rest : ∀ a, FailsOrdinarily (next a)) : FailsOrdinarily (x >>= next) :=
  Ensures.bind first fun a _ => rest a

theorem map {x : Except Fault α} (h : FailsOrdinarily x) (f : α → β) :
    FailsOrdinarily (x.map f) :=
  Ensures.map h

end FailsOrdinarily

/-! ### Values -/

namespace Value

/-- Arguments of the wrong types are an ordinary fault. -/
theorem badTypes_ordinary (operation : Opcode) (arguments : List Value) :
    FailsOrdinarily (badTypes operation arguments : Except Fault α) := rfl

/-- Arithmetic fails for the types of its arguments alone. -/
theorem arithmetic_ordinary (operation : Opcode) (onInts : Int64 → Int64 → Int64)
    (onFloats : Float → Float → Float) (a b : Value) :
    FailsOrdinarily (arithmetic operation onInts onFloats a b) := by
  unfold arithmetic
  split
  · exact .ok _
  · exact .ok _
  · exact badTypes_ordinary _ _

theorem equals_ordinary (a b : Value) : FailsOrdinarily (equals a b) := by
  unfold equals
  split <;> first | exact .ok _ | exact badTypes_ordinary _ _

theorem less_ordinary (a b : Value) : FailsOrdinarily (less a b) := by
  unfold less
  split <;> first | exact .ok _ | exact badTypes_ordinary _ _

/-- An index outside a text is an ordinary fault. -/
theorem position_ordinary (text : List Char) (index : Int64) :
    FailsOrdinarily (position text index) := by
  unfold position
  split
  · exact .ok _
  · exact rfl

/-- Both the lookup of the position and that of the character fail for the index. -/
theorem characterAt_ordinary (text : String) (index : Int64) :
    FailsOrdinarily (characterAt text index) := by
  refine (position_ordinary _ _).bind fun offset => ?_
  split
  · exact .ok _
  · exact rfl

/-- A character is not set for the types, the index or an empty replacement. -/
theorem setChar_ordinary (target index source : Value) :
    FailsOrdinarily (target.setChar index source) := by
  unfold setChar
  split
  · split
    · exact rfl
    · exact (position_ordinary _ _).bind fun offset => .ok _
  · exact badTypes_ordinary _ _

end Value

/-- An operation on one value fails for its type, or because no character or integer is meant. -/
theorem UnaryOp.apply_ordinary (op : UnaryOp) (a : Value) : FailsOrdinarily (op.apply a) := by
  cases op with
  | not | int2float | strlen =>
      simp only [apply, Value.not, Value.int2float, Value.strlen]
      split
      · exact .ok _
      · exact Value.badTypes_ordinary _ _
  | int2char | float2int =>
      simp only [apply, Value.int2char, Value.float2int]
      split
      · split
        · exact .ok _
        · exact rfl
      · exact Value.badTypes_ordinary _ _

/-- An operation on two values fails for their types, a divisor of zero or an index. -/
theorem BinaryOp.apply_ordinary (op : BinaryOp) (a b : Value) :
    FailsOrdinarily (op.apply a b) := by
  cases op with
  | add | sub | mul => exact Value.arithmetic_ordinary _ _ _ a b
  | lt => exact (Value.less_ordinary a b).map _
  | eq => exact (Value.equals_ordinary a b).map _
  | gt | and | or | concat =>
      simp only [apply, Value.gt, Value.and, Value.or, Value.concat]
      split
      · exact .ok _
      · exact Value.badTypes_ordinary _ _
  | div | idiv =>
      simp only [apply, Value.div, Value.idiv]
      split
      · split
        · exact rfl
        · exact .ok _
      · exact Value.badTypes_ordinary _ _
  | stri2int | getChar =>
      simp only [apply, Value.stri2int, Value.getChar]
      split
      · exact (Value.characterAt_ordinary _ _).map _
      · exact Value.badTypes_ordinary _ _

/-! ### Stacks and frames -/

/-- The fault of an empty stack is the one given for it. -/
theorem Stack.pop_ordinary (stack : Stack α) {onEmpty : Fault}
    (ordinary : onEmpty.isOrdinary = true) :
    FailsOrdinarily (stack.pop onEmpty) := by
  unfold pop
  split
  · exact ordinary
  · exact .ok _

namespace Frames

theorem frame_ordinary (frames : Frames) (tag : FrameTag) : FailsOrdinarily (frames.frame tag) := by
  unfold frame
  split
  · exact .ok _
  · exact rfl

/-- A variable is not found because its frame is missing or does not hold it. -/
theorem lookup_ordinary (frames : Frames) (var : Variable) :
    FailsOrdinarily (frames.lookup var) := by
  refine (frames.frame_ordinary var.frame).bind fun frame => ?_
  split
  · exact .ok _
  · exact rfl

/-- A variable that is found may have no value. -/
theorem read_ordinary (frames : Frames) (var : Variable) : FailsOrdinarily (frames.read var) := by
  refine (frames.lookup_ordinary var).bind fun slot => ?_
  split
  · exact .ok _
  · exact rfl

/-- A value is not stored where the variable is not found. -/
theorem write_ordinary (frames : Frames) (var : Variable) (value : Value) :
    FailsOrdinarily (frames.write var value).1 := by
  have present := frames.frame_ordinary var.frame
  unfold write
  split
  · next missing => exact present.error missing
  · split
    · exact .ok _
    · exact rfl

/-- There may be no temporary frame to push. -/
theorem pushTemporary_ordinary (frames : Frames) : FailsOrdinarily frames.pushTemporary.1 := by
  unfold pushTemporary
  split
  · exact .ok _
  · exact rfl

/-- There may be no local frame to pop. -/
theorem popTemporary_ordinary (frames : Frames) : FailsOrdinarily frames.popTemporary.1 := by
  have popped : FailsOrdinarily (frames.locals.pop (Fault.noFrame .local)) :=
    frames.locals.pop_ordinary rfl
  unfold popTemporary
  split
  · exact .ok _
  · next empty => exact popped.error empty

/-- A declaration is the one operation on the frames that fails otherwise. -/
theorem declare_dynamic (frames : Frames) (var : Variable) :
    Ensures (fun _ => True) (fun fault => fault.isDynamic = true) (frames.declare var).1 := by
  have ensured := frames.declare_ensures var
  cases result : (frames.declare var).1 with
  | ok _ => exact True.intro
  | error fault =>
      obtain ⟨rfl, -⟩ | ⟨rfl, -⟩ := ensured.error (committed_eq_error_iff.mpr result)
      · rfl
      · rfl

end Frames

/-! ### Operands -/

namespace Instruction.Supplies

variable {instr : Instruction} {kinds : List OperandKind}

/-- An instruction whose first operand is a variable has a destination. -/
theorem destination_eq_ok (supplies : instr.Supplies kinds) (first : kinds[0]? = some .var) :
    ∃ var, instr.destination = .ok var := by
  obtain ⟨argument, found, accepted⟩ := supplies 0 .var first
  cases argument with
  | «variable» var => exact ⟨var, by simp [destination, found]⟩
  | literal | label | typeName => cases accepted

/-- An instruction whose first operand is a label has a target. -/
theorem target_eq_ok (supplies : instr.Supplies kinds) (first : kinds[0]? = some .label) :
    ∃ label, instr.target = .ok label := by
  obtain ⟨argument, found, accepted⟩ := supplies 0 .label first
  cases argument with
  | label name => exact ⟨name, by simp [target, found]⟩
  | literal | «variable» | typeName => cases accepted

/-- An instruction with a type to read fails only if that type is nil. -/
theorem inputType_ordinary (supplies : instr.Supplies kinds) (second : kinds[1]? = some .typeName) :
    FailsOrdinarily instr.inputType := by
  obtain ⟨argument, found, accepted⟩ := supplies 1 .typeName second
  cases argument with
  | typeName type =>
      unfold inputType
      rw [found]
      cases type with
      | nil => exact rfl
      | bool | int | string | float => exact .ok _
  | literal | «variable» | label => cases accepted

/-- A literal is always found, a variable as the frames find it. -/
theorem lookup_ordinary (supplies : instr.Supplies kinds) {k : Nat} (kind : kinds[k]? = some .symb)
    (m : Machine) : FailsOrdinarily (m.lookup instr (k + 1)) := by
  obtain ⟨argument, found, accepted⟩ := supplies k .symb kind
  unfold Machine.lookup
  rw [found]
  cases argument with
  | literal content value => exact .ok _
  | «variable» var => exact m.frames.lookup_ordinary var
  | label | typeName => cases accepted

/-- A literal has a value, a variable may have none. -/
theorem source_ordinary (supplies : instr.Supplies kinds) {k : Nat} (kind : kinds[k]? = some .symb)
    (m : Machine) : FailsOrdinarily (m.source instr (k + 1)) := by
  obtain ⟨argument, found, accepted⟩ := supplies k .symb kind
  unfold Machine.source
  rw [found]
  cases argument with
  | literal content value => exact .ok _
  | «variable» var => exact m.frames.read_ordinary var
  | label | typeName => cases accepted

end Instruction.Supplies

namespace Value

/-- What is not parsed is nil, and what is parsed has the type of its wrapper. -/
theorem isNil_or_type_getD {type : DataType} (wrap : α → Value)
    (typed : ∀ a, (wrap a).type = type) (parsed : Option α) :
    ((parsed.map wrap).getD .nil).isNil = true ∨ ((parsed.map wrap).getD .nil).type = type := by
  cases parsed with
  | none => exact .inl rfl
  | some a => exact .inr (typed a)

/-- What is read from a line of input is nil or of the type asked for. -/
theorem isNil_or_type_ofInput (type : DataType) (line : String) :
    (ofInput type line).isNil = true ∨ (ofInput type line).type = type := by
  cases type with
  | nil => exact .inl rfl
  | string => exact .inr rfl
  | bool => exact isNil_or_type_getD .bool (fun _ => rfl) _
  | int => exact isNil_or_type_getD .int (fun _ => rfl) _
  | float => exact isNil_or_type_getD .float (fun _ => rfl) _

end Value

namespace Machine

/-- The value of an input line is never refused for its type. -/
theorem inputValue_eq_ok (type : DataType) (line : Option Text.Bytes) :
    ∃ value, inputValue type line = .ok value := by
  unfold inputValue
  cases line.bind Text.decode? with
  | none => exact ⟨.nil, rfl⟩
  | some text =>
      simp only [Option.map_some, Option.getD_some]
      split
      · exact ⟨.nil, rfl⟩
      · next notNil =>
        have typed := (Value.isNil_or_type_ofInput type text).resolve_left notNil
        refine ⟨Value.ofInput type text, ?_⟩
        rw [Value.expect, if_pos typed]
        rfl

end Machine

/-! ### Actions -/

def Outcome.FailsOrdinarily (outcome : Outcome Fault) : Prop :=
  outcome.Ensures (fun _ => True) (fun fault _ => fault.isOrdinary = true)

def Outcome.FailsDynamically (outcome : Outcome Fault) : Prop :=
  outcome.Ensures (fun _ => True) (fun fault _ => fault.isDynamic = true)

namespace Machine

variable {m : Machine} {instr : Instruction}

theorem succeed_ordinary : (m.succeed : Outcome Fault).FailsOrdinarily := True.intro

/-- An attempt fails as the computation in it does. -/
theorem attempt_ordinary {x : Except Fault Machine} (h : FailsOrdinarily x) :
    (m.attempt x).FailsOrdinarily :=
  .attempt h

/-- Going on with a value fails where the value cannot be found or the rest fails. -/
theorem evaluate_ordinary {value : Except Fault α} {next : α → Outcome Fault}
    (found : FailsOrdinarily value) (rest : ∀ a, (next a).FailsOrdinarily) :
    (m.evaluate value next).FailsOrdinarily :=
  evaluate_ensures (fun _ => found.error) fun a _ => rest a

/-- Taking over the frames fails as the operation on them does. -/
theorem withFrames_ordinary {change : Except Fault Unit × Frames}
    (h : FailsOrdinarily change.1) : (m.withFrames change).FailsOrdinarily := by
  obtain ⟨result, frames⟩ := change
  cases result with
  | ok _ => exact True.intro
  | error fault => exact h

/-- An instruction with a destination stores its value there or fails ordinarily. -/
theorem assign_ordinary {kinds : List OperandKind} (supplies : instr.Supplies kinds)
    (first : kinds[0]? = some .var) (value : Value) :
    (m.assign instr value).FailsOrdinarily := by
  obtain ⟨var, destination⟩ := supplies.destination_eq_ok first
  unfold assign
  rw [destination]
  exact withFrames_ordinary (m.frames.write_ordinary var value)

/-- An empty data stack is an ordinary fault. -/
theorem popThen_ordinary {next : Value → Machine → Outcome Fault}
    (h : ∀ value dataStack, (next value { m with dataStack }).FailsOrdinarily) :
    (m.popThen next).FailsOrdinarily :=
  popThen_ensures rfl fun value rest _ => h value ⟨rest⟩

theorem popTwoThen_ordinary {next : Value → Value → Machine → Outcome Fault}
    (h : ∀ a b dataStack, (next a b { m with dataStack }).FailsOrdinarily) :
    (m.popTwoThen next).FailsOrdinarily :=
  popThen_ordinary fun b _ => popThen_ordinary fun a dataStack => h a b dataStack

/-- A jump to a known label does not fail. -/
theorem jumpTo_ordinary {label : String} (known : (m.target? label).isSome) :
    FailsOrdinarily (m.jumpTo label) := by
  obtain ⟨index, found⟩ := Option.isSome_iff_exists.mp known
  unfold jumpTo
  rw [found]
  exact .ok _

/-- A conditional jump to a known label fails for the values it compares. -/
theorem jumpWhen_ordinary {label : String} (known : (m.target? label).isSome) (whenEqual : Bool)
    (a b : Value) : FailsOrdinarily (m.jumpWhen whenEqual label a b) := by
  refine (Value.equals_ordinary a b).bind fun equal => ?_
  split
  · exact jumpTo_ordinary known
  · exact .ok _

/-- A call of a known label does not fail. -/
theorem enter_ordinary {label : String} (known : (m.target? label).isSome) :
    (m.enter label).FailsOrdinarily := by
  refine attempt_ordinary (.bind (jumpTo_ordinary ?_) fun _ => .ok _)
  exact known

/-- A return fails on an empty call stack. -/
theorem leave_ordinary : FailsOrdinarily m.leave :=
  (m.callStack.pop_ordinary rfl).bind fun _ => .ok _

/-- Reading fails for the channel or the destination, never for the value that is read. -/
theorem readInto_ordinary {kinds : List OperandKind} (supplies : instr.Supplies kinds)
    (first : kinds[0]? = some .var) (type : DataType) :
    (m.readInto instr type).FailsOrdinarily := by
  unfold readInto
  rcases m.input.readLine with ⟨message | line, input⟩
  · exact rfl
  · obtain ⟨value, eq⟩ := inputValue_eq_ok type line
    simp only [eq]
    exact assign_ordinary supplies first value

/-- Output fails for its channel. -/
theorem emit_ordinary (text : String) : (m.emit text).FailsOrdinarily := by
  unfold emit
  rcases m.output.write (Text.encode text) with ⟨message | _, output⟩
  · exact rfl
  · exact succeed_ordinary

theorem emitDiagnostic_ordinary (text : String) : (m.emitDiagnostic text).FailsOrdinarily := by
  unfold emitDiagnostic
  rcases m.diagnostics.write (Text.encode text) with ⟨message | _, diagnostics⟩
  · exact rfl
  · exact succeed_ordinary

/-- An exit code is refused for its type or its range. -/
theorem exitCode?_ordinary (value : Value) : FailsOrdinarily (exitCode? value) := by
  cases value with
  | int code =>
      simp only [exitCode?]
      split
      · exact .ok _
      · exact rfl
  | nil | bool _ | string _ | float _ => exact rfl

end Machine

open Machine

/-- An action that has its operands, and whose label is known, fails only ordinarily, unless it
declares a variable. -/
theorem Action.perform_ordinary {action : Action} {instr : Instruction} {m : Machine}
    (plain : action ≠ .defVar) (supplies : instr.Supplies action.reads)
    (known : action.reads[0]? = some .label →
      ∀ label, instr.target = .ok label → (m.target? label).isSome) :
    (action.perform instr m).FailsOrdinarily := by
  cases action with
  | nothing | createFrame | clear => exact succeed_ordinary
  | move =>
      exact evaluate_ordinary (supplies.source_ordinary (k := 1) rfl m) fun value =>
        assign_ordinary supplies rfl value
  | pushFrame => exact withFrames_ordinary m.frames.pushTemporary_ordinary
  | popFrame => exact withFrames_ordinary m.frames.popTemporary_ordinary
  | defVar => exact absurd rfl plain
  | call =>
      obtain ⟨label, named⟩ := supplies.target_eq_ok rfl
      unfold perform
      rw [named]
      exact enter_ordinary (known rfl label named)
  | ret => exact attempt_ordinary leave_ordinary
  | push => exact attempt_ordinary ((supplies.source_ordinary (k := 0) rfl m).bind fun _ => .ok _)
  | pop =>
      exact popThen_ordinary fun value _ => assign_ordinary supplies rfl value
  | unary op =>
      refine evaluate_ordinary ?_ fun value => assign_ordinary supplies rfl value
      exact (supplies.source_ordinary (k := 1) rfl m).bind fun a => op.apply_ordinary a
  | binary op =>
      refine evaluate_ordinary ?_ fun value => assign_ordinary supplies rfl value
      exact (supplies.source_ordinary (k := 1) rfl m).bind fun a =>
        (supplies.source_ordinary (k := 2) rfl m).bind fun b => op.apply_ordinary a b
  | unaryStack op =>
      exact popThen_ordinary fun a _ => attempt_ordinary ((op.apply_ordinary a).bind fun _ => .ok _)
  | binaryStack op =>
      exact popTwoThen_ordinary fun a b _ =>
        attempt_ordinary ((op.apply_ordinary a b).bind fun _ => .ok _)
  | setChar =>
      obtain ⟨var, destination⟩ := supplies.destination_eq_ok rfl
      refine evaluate_ordinary ?_ fun value => assign_ordinary supplies rfl value
      rw [destination]
      refine (m.frames.read_ordinary var).bind fun target => ?_
      refine (supplies.source_ordinary (k := 1) rfl m).bind fun index => ?_
      refine (supplies.source_ordinary (k := 2) rfl m).bind fun replacement => ?_
      exact target.setChar_ordinary index replacement
  | typeOf =>
      exact evaluate_ordinary (supplies.lookup_ordinary (k := 1) rfl m) fun value =>
        assign_ordinary supplies rfl _
  | read =>
      exact evaluate_ordinary (supplies.inputType_ordinary rfl) fun type =>
        readInto_ordinary supplies rfl type
  | write =>
      exact evaluate_ordinary (supplies.source_ordinary (k := 0) rfl m) fun value =>
        emit_ordinary value.text
  | print =>
      exact evaluate_ordinary (supplies.source_ordinary (k := 0) rfl m) fun value =>
        emitDiagnostic_ordinary value.text
  | report =>
      rw [perform]
      exact emitDiagnostic_ordinary _
  | jump =>
      obtain ⟨label, named⟩ := supplies.target_eq_ok rfl
      unfold perform
      rw [named]
      exact attempt_ordinary (jumpTo_ordinary (known rfl label named))
  | jumpIf whenEqual =>
      obtain ⟨label, named⟩ := supplies.target_eq_ok rfl
      unfold perform
      rw [named]
      refine attempt_ordinary ((supplies.source_ordinary (k := 1) rfl m).bind fun a => ?_)
      refine (supplies.source_ordinary (k := 2) rfl m).bind fun b => ?_
      exact jumpWhen_ordinary (known rfl label named) whenEqual a b
  | jumpIfStack whenEqual =>
      obtain ⟨label, named⟩ := supplies.target_eq_ok rfl
      unfold perform
      rw [named]
      refine popTwoThen_ordinary fun a b _ => attempt_ordinary (jumpWhen_ordinary ?_ whenEqual a b)
      exact known rfl label named
  | exit =>
      refine attempt_ordinary ((supplies.source_ordinary (k := 0) rfl m).bind fun value => ?_)
      exact (exitCode?_ordinary value).bind fun _ => .ok _

/-- What a declaration does, once its variable is known. -/
theorem Action.perform_defVar {instr : Instruction} {var : Variable}
    (destination : instr.destination = .ok var) (m : Machine) :
    Action.defVar.perform instr m = m.withFrames (m.frames.declare var) := by
  unfold perform
  rw [destination]
  rfl

/-- An action that has its operands, and whose label is known, fails only dynamically. -/
theorem Action.perform_dynamic {action : Action} {instr : Instruction} {m : Machine}
    (supplies : instr.Supplies action.reads)
    (known : action.reads[0]? = some .label →
      ∀ label, instr.target = .ok label → (m.target? label).isSome) :
    (action.perform instr m).FailsDynamically := by
  by_cases declares : action = .defVar
  · subst declares
    obtain ⟨var, destination⟩ := supplies.destination_eq_ok rfl
    rw [perform_defVar destination]
    have dynamic := m.frames.declare_dynamic var
    unfold withFrames
    cases result : (m.frames.declare var).1 with
    | ok _ => exact True.intro
    | error fault => exact dynamic.error result
  · exact (perform_ordinary declares supplies known).mono (fun _ h => h)
      fun _ _ => Fault.isDynamic_of_isOrdinary

end FrameCode
