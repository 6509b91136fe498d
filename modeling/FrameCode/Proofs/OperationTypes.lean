import FrameCode.Proofs.Fallible
import Mathlib.Data.Fin.VecNotation

/-!
The types of operations. A table gives the type of the result for the types of the arguments, and
nothing for types on which the operation is not defined. Every operation follows the table
(`Operation.apply_follows`): it checks all types before it looks at a value, so whether it fails
because of types, and with what fault, is decided by the types alone (`type_errors_by_type`).
-/

namespace FrameCode

/-- The operations on values, by the number of their arguments. -/
inductive Operation : Nat → Type where
  | unary (op : UnaryOp) : Operation 1
  | binary (op : BinaryOp) : Operation 2
  | setChar : Operation 3

/-! ### The table -/

/-- The opcode that a fault of the operation names. -/
def UnaryOp.opcode : UnaryOp → Opcode
  | .not => .not
  | .int2char => .int2char
  | .int2float => .int2float
  | .float2int => .float2int
  | .strlen => .strlen

@[inherit_doc UnaryOp.opcode]
def BinaryOp.opcode : BinaryOp → Opcode
  | .add => .add
  | .sub => .sub
  | .mul => .mul
  | .div => .div
  | .idiv => .idiv
  | .lt => .lt
  | .gt => .gt
  | .eq => .eq
  | .and => .and
  | .or => .or
  | .stri2int => .stri2int
  | .concat => .concat
  | .getChar => .getChar

def UnaryOp.resultType? (op : UnaryOp) (a : DataType) : Option DataType :=
  match op with
  | .not => if a = .bool then some .bool else none
  | .int2char => if a = .int then some .string else none
  | .int2float => if a = .int then some .float else none
  | .float2int => if a = .float then some .int else none
  | .strlen => if a = .string then some .int else none

def BinaryOp.resultType? (op : BinaryOp) (a b : DataType) : Option DataType :=
  match op with
  | .add | .sub | .mul => if a = b ∧ (a = .int ∨ a = .float) then some a else none
  | .div => if a = .float ∧ b = .float then some .float else none
  | .idiv => if a = .int ∧ b = .int then some .int else none
  | .lt | .gt => if a = b ∧ a ≠ .nil then some .bool else none
  | .eq => if a = b ∨ a = .nil ∨ b = .nil then some .bool else none
  | .and | .or => if a = .bool ∧ b = .bool then some .bool else none
  | .stri2int => if a = .string ∧ b = .int then some .int else none
  | .concat => if a = .string ∧ b = .string then some .string else none
  | .getChar => if a = .string ∧ b = .int then some .string else none

namespace Operation

variable {n : Nat}

def opcode : Operation n → Opcode
  | .unary op => op.opcode
  | .binary op => op.opcode
  | .setChar => .setChar

def apply : Operation n → (Fin n → Value) → Except Fault Value
  | .unary op, arguments => op.apply (arguments 0)
  | .binary op, arguments => op.apply (arguments 0) (arguments 1)
  | .setChar, arguments => (arguments 0).setChar (arguments 1) (arguments 2)

def resultType? : Operation n → (Fin n → DataType) → Option DataType
  | .unary op, types => op.resultType? (types 0)
  | .binary op, types => op.resultType? (types 0) (types 1)
  | .setChar, types =>
      if types 0 = .string ∧ types 1 = .int ∧ types 2 = .string then some .string else none

end Operation

/-! ### Operations follow the table -/

def FailsByTypes (outcome : Except Fault Value) : Prop :=
  ∃ operation found, outcome = .error (.badTypes operation found)

def Fault.IsOfValues (fault : Fault) : Prop :=
  ∀ operation found, fault ≠ .badTypes operation found

/-- The outcome that a table entry stands for: a result of that type or a fault that is not about
types, and without an entry the fault that names the operation and the types. -/
def Follows (operation : Opcode) (found : List DataType) :
    Option DataType → Except Fault Value → Prop
  | none, outcome => outcome = .error (.badTypes operation found)
  | some type, outcome => Ensures (fun value => value.type = type) Fault.IsOfValues outcome

theorem isOfValues_badValue (reason : BadValue) : (Fault.badValue reason).IsOfValues := by
  intro operation found eq
  cases eq

theorem isOfValues_badString (reason : BadString) : (Fault.badString reason).IsOfValues := by
  intro operation found eq
  cases eq

/-- An index is refused for its value, not for its type. -/
theorem position_ofValues (text : List Char) (index : Int64) :
    Ensures (fun _ => True) Fault.IsOfValues (Value.position text index) := by
  unfold Value.position
  split
  · exact True.intro
  · exact isOfValues_badString _

theorem characterAt_ofValues (text : String) (index : Int64) :
    Ensures (fun _ => True) Fault.IsOfValues (Value.characterAt text index) := by
  apply (position_ofValues _ _).bind
  intro offset _
  split
  · exact True.intro
  · exact isOfValues_badString _

theorem arithmetic_follows (operation : Opcode) (onInts : Int64 → Int64 → Int64)
    (onFloats : Float → Float → Float) (a b : Value) :
    Follows operation [a.type, b.type] (BinaryOp.add.resultType? a.type b.type)
      (Value.arithmetic operation onInts onFloats a b) := by
  cases a <;> cases b <;> rfl

/-- Operations on one value follow the table of types. -/
theorem UnaryOp.apply_follows (op : UnaryOp) (a : Value) :
    Follows op.opcode [a.type] (op.resultType? a.type) (op.apply a) := by
  cases op with
  | not | int2float | strlen => cases a <;> rfl
  | int2char =>
      cases a with
      | int code =>
          simp only [apply, Value.int2char]
          split
          · exact rfl
          · exact isOfValues_badString _
      | _ => rfl
  | float2int =>
      cases a with
      | float x =>
          simp only [apply, Value.float2int]
          split
          · exact rfl
          · exact isOfValues_badValue _
      | _ => rfl

/-- Operations on two values follow the table of types. -/
theorem BinaryOp.apply_follows (op : BinaryOp) (a b : Value) :
    Follows op.opcode [a.type, b.type] (op.resultType? a.type b.type) (op.apply a b) := by
  cases op with
  | add | sub | mul => exact arithmetic_follows _ _ _ a b
  | lt | gt | eq | and | or | concat => cases a <;> cases b <;> rfl
  | div =>
      cases a with
      | float x =>
          cases b with
          | float y =>
              simp only [apply, Value.div]
              split
              · exact isOfValues_badValue _
              · exact rfl
          | _ => rfl
      | _ => rfl
  | idiv =>
      cases a with
      | int x =>
          cases b with
          | int y =>
              simp only [apply, Value.idiv]
              split
              · exact isOfValues_badValue _
              · exact rfl
          | _ => rfl
      | _ => rfl
  | stri2int | getChar =>
      cases a with
      | string text =>
          cases b with
          | int index =>
              apply Ensures.map
              exact (characterAt_ofValues text index).mono (fun _ _ => rfl) fun _ h => h
          | _ => rfl
      | _ => rfl

/-- Setting a character follows the table of types. -/
theorem setChar_follows (target index source : Value) :
    Follows .setChar [target.type, index.type, source.type]
      (Operation.setChar.resultType? ![target.type, index.type, source.type])
      (target.setChar index source) := by
  cases target with
  | string text =>
      cases index with
      | int index =>
          cases source with
          | string source =>
              simp only [Value.setChar]
              split
              · exact isOfValues_badString _
              · apply (position_ofValues _ _).bind
                intro offset _
                exact rfl
          | _ => rfl
      | _ => rfl
  | _ => rfl

/-- The outcome of an operation is what the table says for the types of its arguments. -/
theorem Operation.apply_follows {n : Nat} (op : Operation n) (arguments : Fin n → Value) :
    Follows op.opcode (List.ofFn fun i => (arguments i).type)
      (op.resultType? fun i => (arguments i).type) (op.apply arguments) := by
  cases op with
  | unary op => exact op.apply_follows (arguments 0)
  | binary op => exact op.apply_follows (arguments 0) (arguments 1)
  | setChar => exact setChar_follows (arguments 0) (arguments 1) (arguments 2)

/-! ### Arguments of the same types -/

section Entries

variable {operation : Opcode} {found : List DataType} {type : DataType}
  {outcome : Except Fault Value}

theorem Follows.not_failsByTypes (follows : Follows operation found (some type) outcome) :
    ¬ FailsByTypes outcome := by
  rintro ⟨operation', found', failed⟩
  exact Ensures.error follows failed operation' found' rfl

theorem Follows.type_eq {value : Value} (follows : Follows operation found (some type) outcome)
    (succeeded : outcome = .ok value) : value.type = type := by
  subst succeeded
  exact follows

end Entries

/-- Applied to arguments of the same types, an operation fails both times with the fault that names
it and these types, or neither time because of types; and two results have the same type. -/
theorem type_errors_by_type {n : Nat} (op : Operation n) (a b : Fin n → Value)
    (same : ∀ i, (a i).type = (b i).type) :
    ((op.apply a = .error (.badTypes op.opcode (List.ofFn fun i => (a i).type)) ∧
          op.apply b = .error (.badTypes op.opcode (List.ofFn fun i => (a i).type))) ∨
        ¬ FailsByTypes (op.apply a) ∧ ¬ FailsByTypes (op.apply b)) ∧
      ∀ v w, op.apply a = .ok v → op.apply b = .ok w → v.type = w.type := by
  have first := op.apply_follows a
  have second := op.apply_follows b
  rw [← funext same] at second
  cases entry : op.resultType? fun i => (a i).type with
  | none =>
      rw [entry] at first second
      constructor
      · exact .inl ⟨first, second⟩
      · intro v w succeeded
        cases first.symm.trans succeeded
  | some type =>
      rw [entry] at first second
      constructor
      · exact .inr ⟨first.not_failsByTypes, second.not_failsByTypes⟩
      · intro v w succeeded succeeded'
        rw [first.type_eq succeeded, second.type_eq succeeded']

/-- An index behind the end and an empty replacement are no matter of types. -/
theorem setChar_types_suffice :
    ¬ FailsByTypes (Operation.setChar.apply ![.string "", .int 5, .string ""]) ∧
      ¬ FailsByTypes (Operation.setChar.apply ![.string "abc", .int 1, .string "x"]) := by
  obtain ⟨both | neither, -⟩ := type_errors_by_type .setChar
    ![.string "", .int 5, .string ""] ![.string "abc", .int 1, .string "x"] (by decide)
  · cases both.1
  · exact neither

end FrameCode
