import Fexpr.Number.Extended

/-!
# Doubles

Floating-point numbers of 53 bits, held as a sign, a significand and a power of two, and the double
nearest to a rational number.
-/

namespace Fexpr

/-- A double that is a number: `significand * 2 ^ exponent` with a sign, or an infinity. -/
inductive Double
  | finite (negative : Bool) (significand : Nat) (exponent : Int)
  | infinite (negative : Bool)
  deriving DecidableEq, Repr

namespace Double

/-- The least exponent, that of the subnormal doubles. -/
def leastExponent : Int := -1074

/-- The greatest exponent of a finite double. -/
def greatestExponent : Int := 971

/-- Zero with a sign. -/
def zero (negative : Bool) : Double := finite negative 0 leastExponent

/-- The quotient rounded to the nearest natural number, a half to the even neighbour. -/
def roundDiv (num den : Nat) : Nat :=
  let q := num / den
  let r := num % den
  if 2 * r < den then q
  else if den < 2 * r then q + 1
  else if q % 2 = 0 then q else q + 1

/-- The fraction `num / den` divided by `2 ^ e`, as a numerator and a denominator. -/
def scale (num den : Nat) (e : Int) : Nat × Nat :=
  if 0 ≤ e then (num, den * Nat.pow 2 e.toNat) else (num * Nat.pow 2 (-e).toNat, den)

/-- The greatest `e` with `2 ^ e ≤ num / den`, for positive numbers. -/
def floorLog (num den : Nat) : Int :=
  let e : Int := (num.log2 : Int) - den.log2
  let (n, d) := scale num den e
  if d ≤ n then e else e - 1

/-- The double nearest to `num / den`, of two equally near ones the one with the even
significand. -/
def ofRatio (negative : Bool) (num den : Nat) : Double :=
  if num = 0 then zero negative
  else
    let e := max (floorLog num den - 52) leastExponent
    let (n, d) := scale num den e
    let m := roundDiv n d
    let (m, e) := if m = Nat.pow 2 53 then (Nat.pow 2 52, e + 1) else (m, e)
    if greatestExponent < e then infinite negative else finite negative m e

/-- The double nearest to `m * 10 ^ e`. Powers of ten far outside the range of doubles are not
computed. -/
def ofDecimal (negative : Bool) (m : Nat) (e : Int) : Double :=
  if m = 0 then zero negative
  else if 400 < e then infinite negative
  else if e + m.log2 < -400 then zero negative
  else if 0 ≤ e then ofRatio negative (m * Nat.pow 10 e.toNat) 1
  else ofRatio negative m (Nat.pow 10 (-e).toNat)

/-- The number that a double is. -/
def toExtended : Double → Extended
  | finite negative m e => .dyadic (if negative then -m else m) e
  | infinite negative => if negative then .bottom else .top

end Double

end Fexpr
