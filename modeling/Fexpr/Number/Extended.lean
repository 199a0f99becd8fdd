/-!
# Exact comparison of numbers

Integers and finite doubles are dyadic rationals, so they compare without rounding.
-/

namespace Fexpr

/-- A dyadic rational `significand * 2 ^ exponent`, or an infinity. -/
inductive Extended
  | bottom
  | dyadic (significand exponent : Int)
  | top
  deriving DecidableEq, Repr

namespace Extended

/-- An integer. -/
def ofInt (n : Int) : Extended := dyadic n 0

/-- The significand of a dyadic once its exponent is lowered to `e`. -/
def align (significand exponent e : Int) : Int := significand * Nat.pow 2 (exponent - e).toNat

/-- Whether two numbers are the same number. -/
def same : Extended → Extended → Bool
  | bottom, bottom => true
  | top, top => true
  | dyadic m e, dyadic n f => align m e (min e f) == align n f (min e f)
  | _, _ => false

/-- Whether the first number is the smaller one. -/
def less : Extended → Extended → Bool
  | bottom, bottom => false
  | bottom, _ => true
  | _, bottom => false
  | top, _ => false
  | _, top => true
  | dyadic m e, dyadic n f => align m e (min e f) < align n f (min e f)

end Extended

end Fexpr
