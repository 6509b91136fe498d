import FrameCode.Binary64.Hex

/-!
Decimal notation of doubles and the float numeral, which is a sign followed by either notation. The
decimal notation has a sign of its own, so a decimal numeral may carry two.
-/

namespace FrameCode.Binary64

/-- The value of an exponent's digits. It stops growing once it is past the range of doubles. -/
def saturate (digits : List Char) : Nat :=
  digits.foldl
    (fun value c => if value < 0x10000 then 10 * value + (c.toNat - '0'.toNat) else value) 0

/-- The part after the digits of a decimal: nothing, or a mark, a sign and decimal digits. -/
def decimalExponent? : List Char → Option Int
  | [] => some 0
  | mark :: text =>
      let (negative, digits) := Numeral.splitSign text
      if (mark == 'e' || mark == 'E') && !digits.isEmpty && digits.all Char.isDigit then
        some (Numeral.signed negative (saturate digits))
      else none

/-- The double nearest to `m * 10^e`; of two equally near ones, the one with even significand. -/
def ofDecimal (m : Nat) (e : Int) : Float :=
  Float.ofScientific m (e < 0) e.natAbs

/-- Reads an unsigned decimal: digits with at most one point, and an optional exponent. -/
def unsignedDecimal? (text : List Char) : Option Float := do
  let whole := text.takeWhile Char.isDigit
  let rest := text.dropWhile Char.isDigit
  let (fraction, rest) := match rest with
    | '.' :: rest => (rest.takeWhile Char.isDigit, rest.dropWhile Char.isDigit)
    | rest => ([], rest)
  if whole.isEmpty && fraction.isEmpty then none
  else
    let magnitude ← Numeral.value? 10 (whole ++ fraction)
    let e ← decimalExponent? rest
    some (ofDecimal magnitude (e - fraction.length))

def withSign (negative : Bool) (magnitude : Float) : Float :=
  if negative then -magnitude else magnitude

def decimal? (text : List Char) : Option Float :=
  let (negative, body) := Numeral.splitSign text
  (unsignedDecimal? body).map (withSign negative)

def unsigned? : List Char → Option Float
  | '0' :: 'x' :: body => hex? body
  | '0' :: 'X' :: body => hex? body
  | body => decimal? body

/-- Reads a float numeral. -/
def float? (text : List Char) : Option Float :=
  let (negative, body) := Numeral.splitSign text
  (unsigned? body).map (withSign negative)

end FrameCode.Binary64
