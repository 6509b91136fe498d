import FrameCode.Fault

/-!
Operations on values. Each is defined for certain types of its arguments and fails on all others
with a fault that names the types it met; integers and floats never mix. The instructions that
take their arguments from operands and those that take them from the data stack share these
operations.
-/

namespace FrameCode

namespace Value

/-- The failure of an operation that is not defined for the types of its arguments. -/
def badTypes {α : Type} (operation : Opcode) (arguments : List Value) : Except Fault α :=
  .error (.badTypes operation (arguments.map type))

/-! ### Arithmetic

Integer arithmetic wraps around at 64 bits. -/

def arithmetic (operation : Opcode) (onInts : Int64 → Int64 → Int64)
    (onFloats : Float → Float → Float) : Value → Value → Except Fault Value
  | .int x, .int y => .ok (.int (onInts x y))
  | .float x, .float y => .ok (.float (onFloats x y))
  | a, b => badTypes operation [a, b]

def add : Value → Value → Except Fault Value :=
  arithmetic .add (· + ·) (· + ·)

def sub : Value → Value → Except Fault Value :=
  arithmetic .sub (· - ·) (· - ·)

def mul : Value → Value → Except Fault Value :=
  arithmetic .mul (· * ·) (· * ·)

/-- Division of floats; either zero is refused as a divisor. -/
def div : Value → Value → Except Fault Value
  | .float x, .float y =>
      if y == 0.0 then .error (.badValue .divisionByZero) else .ok (.float (x / y))
  | a, b => badTypes .div [a, b]

/-- The quotient rounded toward negative infinity, from the one rounded toward zero. -/
def floorDiv (x y : Int64) : Int64 :=
  let quotient := x / y
  if x % y ≠ 0 ∧ decide (x < 0) ≠ decide (y < 0) then quotient - 1 else quotient

def idiv : Value → Value → Except Fault Value
  | .int x, .int y =>
      if y = 0 then .error (.badValue .divisionByZero) else .ok (.int (floorDiv x y))
  | a, b => badTypes .idiv [a, b]

/-! ### Comparison and logic -/

/-- Equality of two values of one type. Nil may be compared with anything and equals only itself. -/
def equals : Value → Value → Except Fault Bool
  | .nil, b => .ok b.isNil
  | a, .nil => .ok a.isNil
  | .bool x, .bool y => .ok (x == y)
  | .int x, .int y => .ok (x == y)
  | .string x, .string y => .ok (x == y)
  | .float x, .float y => .ok (x == y)
  | a, b => badTypes .eq [a, b]

/-- The strict order of two values of one type, which is not nil. Strings are ordered by the code
points of their characters. -/
def less : Value → Value → Except Fault Bool
  | .bool x, .bool y => .ok (!x && y)
  | .int x, .int y => .ok (decide (x < y))
  | .string x, .string y => .ok (decide (x < y))
  | .float x, .float y => .ok (decide (x < y))
  | a, b => badTypes .lt [a, b]

def lt (a b : Value) : Except Fault Value :=
  (less a b).map .bool

def gt (a b : Value) : Except Fault Value :=
  match less b a with
  | .ok result => .ok (.bool result)
  | .error _ => badTypes .gt [a, b]

def eq (a b : Value) : Except Fault Value :=
  (equals a b).map .bool

def and : Value → Value → Except Fault Value
  | .bool x, .bool y => .ok (.bool (x && y))
  | a, b => badTypes .and [a, b]

def or : Value → Value → Except Fault Value
  | .bool x, .bool y => .ok (.bool (x || y))
  | a, b => badTypes .or [a, b]

def not : Value → Except Fault Value
  | .bool x => .ok (.bool !x)
  | a => badTypes .not [a]

/-! ### Characters and strings

A position in a string counts characters from zero. -/

/-- The position that an integer denotes in a text, if the text reaches that far. -/
def position (text : List Char) (index : Int64) : Except Fault Nat :=
  if 0 ≤ index.toInt ∧ index.toInt < text.length then .ok index.toInt.toNat
  else .error (.badString (.indexOutOfRange index text.length))

def characterAt (text : String) (index : Int64) : Except Fault Char := do
  let chars := text.toList
  let offset ← position chars index
  match chars[offset]? with
  | some c => .ok c
  | none => .error (.badString (.noCharacter index))

/-- The one-character string with the given code point. -/
def int2char : Value → Except Fault Value
  | .int code =>
      if 0 ≤ code.toInt ∧ code.toInt.toNat.isValidChar then
        .ok (.string (String.singleton (Char.ofNat code.toInt.toNat)))
      else .error (.badString (.notCodePoint code))
  | a => badTypes .int2char [a]

/-- The code point of the character at a position. -/
def stri2int : Value → Value → Except Fault Value
  | .string text, .int index =>
      (characterAt text index).map fun c => .int (Int64.ofNat c.toNat)
  | a, b => badTypes .stri2int [a, b]

def concat : Value → Value → Except Fault Value
  | .string x, .string y => .ok (.string (x ++ y))
  | a, b => badTypes .concat [a, b]

/-- The number of characters, up to the greatest integer. -/
def strlen : Value → Except Fault Value
  | .string text => .ok (.int (Int64.ofNat (min text.length 0x7FFFFFFFFFFFFFFF)))
  | a => badTypes .strlen [a]

def getChar : Value → Value → Except Fault Value
  | .string text, .int index => (characterAt text index).map fun c => .string (String.singleton c)
  | a, b => badTypes .getChar [a, b]

/-- The text with the character at a position replaced by the first character of another. -/
def setChar : Value → Value → Value → Except Fault Value
  | .string target, .int index, .string source =>
      match source.toList with
      | [] => .error (.badString .emptyReplacement)
      | c :: _ => do
          let chars := target.toList
          let offset ← position chars index
          return .string (String.ofList (chars.set offset c))
  | a, b, c => badTypes .setChar [a, b, c]

/-! ### Conversion -/

def int2float : Value → Except Fault Value
  | .int n => .ok (.float (Binary64.ofInt64 n))
  | a => badTypes .int2float [a]

/-- Rounds toward zero; what is not finite or too large has no integer value. -/
def float2int : Value → Except Fault Value
  | .float x =>
      match (Binary64.truncate? x).bind Numeral.int64? with
      | some n => .ok (.int n)
      | none => .error (.badValue (.noInteger x))
  | a => badTypes .float2int [a]

/-- The name of a value's type as a string, and the empty string where there is no value. -/
def typeName (value : Option Value) : Value :=
  .string (value.elim "" (·.type.name))

end Value

/-- Operations on one value. -/
inductive UnaryOp where
  | not | int2char | int2float | float2int | strlen
deriving DecidableEq, Repr

/-- Operations on two values. -/
inductive BinaryOp where
  | add | sub | mul | div | idiv
  | lt | gt | eq
  | and | or
  | stri2int | concat | getChar
deriving DecidableEq, Repr

def UnaryOp.apply : UnaryOp → Value → Except Fault Value
  | .not => Value.not
  | .int2char => Value.int2char
  | .int2float => Value.int2float
  | .float2int => Value.float2int
  | .strlen => Value.strlen

def BinaryOp.apply : BinaryOp → Value → Value → Except Fault Value
  | .add => Value.add
  | .sub => Value.sub
  | .mul => Value.mul
  | .div => Value.div
  | .idiv => Value.idiv
  | .lt => Value.lt
  | .gt => Value.gt
  | .eq => Value.eq
  | .and => Value.and
  | .or => Value.or
  | .stri2int => Value.stri2int
  | .concat => Value.concat
  | .getChar => Value.getChar

end FrameCode
