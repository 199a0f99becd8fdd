import Fexpr.Number.Double
import Fexpr.Text.Digit

/-!
# Numerals

The text of a number: an optional sign, digits with at most one point among or around them, and an
optional exponent. Without point and exponent it is an integer.
-/

namespace Fexpr

/-- A numeral taken apart; digits are held by value. -/
structure Numeral where
  negative : Bool
  whole : List Nat
  fraction : Option (List Nat)
  exponent : Option Int
  deriving DecidableEq, Repr

namespace Numeral

/-- The exponent that a numeral ends with, if the rest of its text is one. -/
def exponent? : Text → Option (Option Int)
  | [] => some none
  | .scalar c :: t =>
    if c = 'e' ∨ c = 'E' then
      let (negative, t) := Text.sign t
      match Text.digits t with
      | (d :: ds, []) =>
        some (some (if negative then -Digit.value (d :: ds) else Digit.value (d :: ds)))
      | _ => none
    else none
  | .surrogate _ :: _ => none

/-- Take a numeral apart. -/
def parse? (t : Text) : Option Numeral :=
  let (negative, t) := Text.sign t
  match Text.digits t with
  | (whole, .scalar '.' :: t) =>
    let (fraction, t) := Text.digits t
    if whole.isEmpty && fraction.isEmpty then none
    else (exponent? t).map fun e => ⟨negative, whole, some fraction, e⟩
  | (whole, t) =>
    if whole.isEmpty then none
    else (exponent? t).map fun e => ⟨negative, whole, none, e⟩

/-- Whether a numeral is an integer. -/
def isInteger (n : Numeral) : Bool := n.fraction.isNone && n.exponent.isNone

/-- The integer that the digits before the point spell. -/
def toInt (n : Numeral) : Int :=
  if n.negative then -Digit.value n.whole else Digit.value n.whole

/-- The double nearest to the number. -/
def toDouble (n : Numeral) : Double :=
  let fraction := n.fraction.getD []
  .ofDecimal n.negative (Digit.value (n.whole ++ fraction)) (n.exponent.getD 0 - fraction.length)

end Numeral

end Fexpr
