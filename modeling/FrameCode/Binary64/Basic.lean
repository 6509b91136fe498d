/-!
The parts of a double-precision number, read off its bits. A finite number is
`(-1)^sign * significand * 2^exponent` exactly; conversions to and from integers are computed from
these parts.
-/

namespace FrameCode.Binary64

/-- The sign bit. -/
def isNegative (x : Float) : Bool :=
  0x8000000000000000 ≤ x.toBits.toNat

/-- The eleven exponent bits. -/
def exponentField (x : Float) : Nat :=
  x.toBits.toNat / 0x10000000000000 % 0x800

/-- The fifty-two fraction bits. -/
def fractionField (x : Float) : Nat :=
  x.toBits.toNat % 0x10000000000000

def isFinite (x : Float) : Bool :=
  exponentField x < 2047

def isInfinite (x : Float) : Bool :=
  exponentField x == 2047 && fractionField x == 0

/-- The integer that the exponent scales. Normal numbers have a hidden leading bit. -/
def significand (x : Float) : Nat :=
  if exponentField x = 0 then fractionField x else 0x10000000000000 + fractionField x

def exponent (x : Float) : Int :=
  max (exponentField x : Int) 1 - 1075

/-- The integer next to a finite number on the side of zero. -/
def truncate? (x : Float) : Option Int :=
  if isFinite x then
    let e := exponent x
    let magnitude :=
      if 0 ≤ e then significand x <<< e.toNat else significand x >>> (-e).toNat
    some (if isNegative x then -(magnitude : Int) else magnitude)
  else none

/-- The double nearest to an integer; of two equally near ones, the one with even significand. -/
def ofInt64 (n : Int64) : Float :=
  let magnitude := n.toInt.natAbs.toUInt64.toFloat
  if n < 0 then -magnitude else magnitude

/-- The number `2^e`, for an exponent in the range of normal numbers. -/
def twoPow (e : Int) : Float :=
  Float.ofBits ((e + 1023).toNat * 0x10000000000000).toUInt64

end FrameCode.Binary64
