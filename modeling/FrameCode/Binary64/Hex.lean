import FrameCode.Binary64.Basic
import FrameCode.Numeral

/-!
Hexadecimal notation of doubles. Writing is exact: a lead digit, the fraction without its trailing
zeros, and the binary exponent. Reading accumulates the digits in double arithmetic, each step
rounded, and then scales by a power of two.
-/

namespace FrameCode.Binary64

/-- The low hexadecimal digits of a number, as many as `width` says, the most significant first. -/
def hexDigits : Nat → Nat → List Char
  | 0, _ => []
  | width + 1, n => hexDigits width (n / 16) ++ [Nat.digitChar (n % 16)]

def dropTrailingZeros (digits : List Char) : List Char :=
  (digits.reverse.dropWhile (· == '0')).reverse

/-- The fraction digits after the point, and no point if there are none. -/
def hexFraction (fraction : Nat) : List Char :=
  match dropTrailingZeros (hexDigits 13 fraction) with
  | [] => []
  | digits => '.' :: digits

def hexExponent (e : Int) : List Char :=
  'p' :: (if e < 0 then '-' else '+') :: Nat.toDigits 10 e.natAbs

/-- A number that is not zero nor normal is written with the least normal exponent. -/
def hexMagnitude (x : Float) : List Char :=
  if exponentField x = 0 then
    if fractionField x = 0 then '0' :: hexExponent 0
    else '0' :: hexFraction (fractionField x) ++ hexExponent (-1022)
  else '1' :: hexFraction (fractionField x) ++ hexExponent ((exponentField x : Int) - 1023)

def hexText (x : Float) : List Char :=
  let sign := if isNegative x then ['-'] else []
  if isFinite x then sign ++ '0' :: 'x' :: hexMagnitude x
  else if isInfinite x then sign ++ ['i', 'n', 'f']
  else ['n', 'a', 'n']

/-- The value of a row of hexadecimal digits, rounded after each digit. -/
def hexMantissa? (digits : List Char) : Option Float :=
  digits.foldlM
    (fun value c => (Numeral.digit? 16 c).map fun digit => value * 16.0 + digit.toUInt64.toFloat)
    0.0

/-- Multiplies as many times as the count says, rounding each time. -/
def multiplyTimes (factor : Float) : Nat → Float → Float
  | 0, value => value
  | count + 1, value => multiplyTimes factor count (value * factor)

/-- Multiplies by `2^e` in factors of at most `2^1000` in either direction. -/
def scale (value : Float) (e : Int) : Float :=
  let count := (e.natAbs - 1) / 1000
  if 0 ≤ e then multiplyTimes (twoPow 1000) count value * twoPow (e - 1000 * count)
  else multiplyTimes (twoPow (-1000)) count value * twoPow (e + 1000 * count)

/-- The exponent after the letter: a sign and decimal digits, below `2^31` in size. -/
def hexExponent? (text : List Char) : Option Int := do
  let (negative, digits) := Numeral.splitSign text
  if digits.isEmpty then none
  else
    let magnitude ← Numeral.value? 10 digits
    if magnitude < 0x80000000 then some (Numeral.signed negative magnitude) else none

def isExponentMark (c : Char) : Bool :=
  c == 'p' || c == 'P'

/-- What the digits behind the point take off the exponent: four for each of them, in thirty-two
bits, where a product that is too large wraps around. Their number has to be below `2^31`. -/
def placesExponent? (places : Nat) : Option Int32 :=
  if places < 0x80000000 then some (4 * Int32.ofNat places) else none

/-- Reads what follows the `0x` mark: digits with at most one point, and an optional exponent. The
exponent that is left after accounting for the digits behind the point must fit into thirty-two
bits. -/
def hex? (body : List Char) : Option Float := do
  let mantissa := body.takeWhile (!isExponentMark ·)
  let whole := mantissa.takeWhile (· != '.')
  let fraction := (mantissa.dropWhile (· != '.')).drop 1
  if whole.isEmpty && fraction.isEmpty then none
  else
    let value ← hexMantissa? (whole ++ fraction)
    let written ← match body.dropWhile (!isExponentMark ·) with
      | [] => some 0
      | _ :: text => hexExponent? text
    let places ← placesExponent? fraction.length
    let e := written - places.toInt
    if -0x80000000 ≤ e ∧ e < 0x80000000 then some (scale value e) else none

end FrameCode.Binary64
