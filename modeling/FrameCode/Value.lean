import FrameCode.Binary64.Decimal
import FrameCode.Text.Escape

/-!
Values are what variables hold and what lies on the data stack. Each has one of five types. A value
has a plain text, which is what a program writes, and can be read from a literal of the source
language or from a line of input.
-/

namespace FrameCode

inductive DataType where
  | nil | bool | int | string | float
deriving DecidableEq, Repr

namespace DataType

def all : List DataType := [.nil, .bool, .int, .string, .float]

def name : DataType → String
  | .nil => "nil"
  | .bool => "bool"
  | .int => "int"
  | .string => "string"
  | .float => "float"

/-- The type with the given name; letter case matters. -/
def ofName? (text : String) : Option DataType :=
  all.find? (·.name == text)

@[simp] theorem ofName?_name (type : DataType) : ofName? type.name = some type := by
  cases type <;> decide

end DataType

/-- Two floats are the same value when their bits agree, so `0` and `-0` are different values and
not-a-number is one value. -/
inductive Value where
  | nil
  | bool (value : Bool)
  | int (value : Int64)
  | string (value : String)
  | float (value : Float)
deriving DecidableEq

/-- A value of one type where another was promised. -/
structure Mismatch where
  expected : DataType
  found : DataType
deriving DecidableEq, Repr

namespace Mismatch

def message (m : Mismatch) : String :=
  s!"internal error: cannot store {m.found.name} payload in a value of type {m.expected.name}"

def exitCode (_ : Mismatch) : Nat := 99

end Mismatch

namespace Value

def type : Value → DataType
  | .nil => .nil
  | .bool _ => .bool
  | .int _ => .int
  | .string _ => .string
  | .float _ => .float

/-- The text that a program writes for a value; nil is written as nothing. -/
def text : Value → String
  | .nil => ""
  | .bool true => "true"
  | .bool false => "false"
  | .int n => toString n.toInt
  | .string s => s
  | .float x => String.ofList (Binary64.hexText x)

def int? : Value → Option Int64
  | .int n => some n
  | _ => none

def string? : Value → Option String
  | .string s => some s
  | _ => none

def isNil : Value → Bool
  | .nil => true
  | _ => false

/-- The value itself, if it has the expected type. -/
def expect (type : DataType) (value : Value) : Except Mismatch Value :=
  if value.type = type then .ok value else .error ⟨type, value.type⟩

/-- Reads a truth value, which is written in lower case. -/
def bool? : List Char → Option Bool
  | ['t', 'r', 'u', 'e'] => some true
  | ['f', 'a', 'l', 's', 'e'] => some false
  | _ => none

/-- Reads a literal of the given type from the text after the type's name. -/
def ofLiteral? (type : DataType) (text : List Char) : Option Value :=
  match type with
  | .nil => if text = ['n', 'i', 'l'] then some .nil else none
  | .bool => (bool? text).map .bool
  | .int => (Numeral.int? text).map .int
  | .string => (Text.Escape.decode? text).map fun chars => .string (String.ofList chars)
  | .float => (Binary64.float? text).map .float

/-- Reads a value of the given type from a line of input, and nil where the line holds none. A
string is the line as it is; of the other types the white space around it is ignored, and of truth
values the letter case too. -/
def ofInput (type : DataType) (line : String) : Value :=
  let chars := Text.trim line.toList
  match type with
  | .nil => .nil
  | .bool => ((bool? (chars.map Char.toLower)).map .bool).getD .nil
  | .int => ((Numeral.int? chars).map .int).getD .nil
  | .string => .string line
  | .float => ((Binary64.float? chars).map .float).getD .nil

end Value

end FrameCode
