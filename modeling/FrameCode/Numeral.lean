import FrameCode.Text.White

/-!
Integer numerals. A numeral is an optional sign followed by digits: hexadecimal after `0x`, octal
after `0o` or after a plain leading zero, decimal otherwise. An underscore may stand between two
digits. The value has to be a signed 64-bit integer.
-/

namespace FrameCode.Numeral

/-- The value of a digit of the given radix, which is at most sixteen. -/
def digit? (radix : Nat) (c : Char) : Option Nat :=
  let value :=
    if '0' ≤ c ∧ c ≤ '9' then some (c.toNat - '0'.toNat)
    else if 'a' ≤ c ∧ c ≤ 'f' then some (c.toNat - 'a'.toNat + 10)
    else if 'A' ≤ c ∧ c ≤ 'F' then some (c.toNat - 'A'.toNat + 10)
    else none
  value.filter (· < radix)

/-- The value of a row of digits, the most significant first; none if one of them is no digit. -/
def value? (radix : Nat) (digits : List Char) : Option Nat :=
  digits.foldlM (fun value c => (digit? radix c).map (value * radix + ·)) 0

/-- Takes one sign off the front; the flag says whether it was a minus. -/
def splitSign : List Char → Bool × List Char
  | '-' :: body => (true, body)
  | '+' :: body => (false, body)
  | body => (false, body)

/-- The radix that the start of an unsigned numeral selects, and the digits that are left. -/
def splitRadix : List Char → Nat × List Char
  | '0' :: 'x' :: digits => (16, digits)
  | '0' :: 'X' :: digits => (16, digits)
  | '0' :: 'o' :: digits => (8, digits)
  | '0' :: 'O' :: digits => (8, digits)
  | '0' :: c :: digits => (8, c :: digits)
  | digits => (10, digits)

/-- Takes the underscores out; none of the groups between them may be empty. -/
def ungroup? (digits : List Char) : Option (List Char) :=
  let groups := digits.splitOn '_'
  if groups.any List.isEmpty then none else some groups.flatten

/-- The signed 64-bit integer equal to `n`, if there is one. -/
def int64? (n : Int) : Option Int64 :=
  if -0x8000000000000000 ≤ n ∧ n < 0x8000000000000000 then some (Int64.ofInt n) else none

theorem int64?_eq_some_iff {n : Int} {k : Int64} : int64? n = some k ↔ k.toInt = n := by
  unfold int64?
  constructor
  · intro h
    split at h
    · next hn =>
      cases h
      exact Int64.toInt_ofInt_of_le (by simpa using hn.1) (by simpa using hn.2)
    · cases h
  · rintro rfl
    have low := k.le_toInt
    have high := k.toInt_lt
    rw [if_pos ⟨low, high⟩, Int64.ofInt_toInt]

/-- The value of a signed numeral whose digits have been put together. -/
def signed (negative : Bool) (magnitude : Nat) : Int :=
  if negative then -(magnitude : Int) else magnitude

def int? (text : List Char) : Option Int64 := do
  let (negative, body) := splitSign text
  let (radix, grouped) := splitRadix body
  let digits ← ungroup? grouped
  let magnitude ← value? radix digits
  int64? (signed negative magnitude)

end FrameCode.Numeral
