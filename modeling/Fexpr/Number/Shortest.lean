import Fexpr.Number.Double
import Fexpr.Text.CodePoint

/-!
# Shortest decimals

A finite double is written with the fewest significant digits that read back as the same double; of
several such decimals the one nearest to it is taken.
-/

namespace Fexpr.Double

/-- A positive decimal `digits * 10 ^ exponent`. -/
structure Decimal where
  digits : Nat
  exponent : Int
  deriving DecidableEq, Repr

/-- The fraction `num / den` in units of `10 ^ e`, as a numerator and a denominator. -/
def inUnits (num den : Nat) (e : Int) : Nat × Nat :=
  if 0 ≤ e then (num, den * Nat.pow 10 e.toNat) else (num * Nat.pow 10 (-e).toNat, den)

/-- The nearest decimal on the grid of `10 ^ e` that reads back as `d`, where `num / den` is the
value of `d`: one of its two neighbours on the grid, and a tie goes to the even one. -/
def onGrid? (d : Double) (num den : Nat) (e : Int) : Option Decimal :=
  let (n, u) := inUnits num den e
  let low := n / u
  let near := roundDiv n u
  let far := if near = low then low + 1 else low
  if ofDecimal false near e = d then some ⟨near, e⟩
  else if ofDecimal false far e = d then some ⟨far, e⟩
  else none

/-- The number of decimal digits of the integer part of `num / den`, or minus the number of zeros
after the point if that part is zero. -/
def decimalPoint (num den : Nat) : Int :=
  if den ≤ num then ((Nat.toDigits 10 (num / den)).length : Int)
  else 1 - ((Nat.toDigits 10 ((den - 1) / num)).length : Int)

/-- Try the grids from the coarsest on. -/
def search (d : Double) (num den : Nat) (point : Int) : Nat → Nat → Decimal
  | 0, count => ⟨roundDiv (inUnits num den (point - count)).1 (inUnits num den (point - count)).2,
      point - count⟩
  | more + 1, count =>
    (onGrid? d num den (point - count)).getD (search d num den point more (count + 1))

/-- Drop trailing zeros of the digits; `fuel` bounds how many. -/
def trim : Nat → Decimal → Decimal
  | 0, x => x
  | fuel + 1, x =>
    if x.digits ≠ 0 ∧ x.digits % 10 = 0 then trim fuel ⟨x.digits / 10, x.exponent + 1⟩ else x

/-- The shortest decimal of the positive double `m * 2 ^ e`. Seventeen digits always read back. -/
def shortest (m : Nat) (e : Int) : Decimal :=
  let num := m * Nat.pow 2 e.toNat
  let den := Nat.pow 2 (-e).toNat
  trim 17 (search (finite false m e) num den (decimalPoint num den) 16 1)

/-- Digits with the decimal point put after the first `point` of them: positional from 0.0001 up to
sixteen digits before the point, otherwise with a signed exponent of at least two digits. -/
def layout (digits : List Char) (point : Int) : List Char :=
  let count : Int := digits.length
  if -4 < point ∧ point ≤ 16 then
    if point ≤ 0 then '0' :: '.' :: List.replicate (-point).toNat '0' ++ digits
    else if count ≤ point then
      digits ++ List.replicate (point - count).toNat '0' ++ ['.', '0']
    else digits.take point.toNat ++ '.' :: digits.drop point.toNat
  else
    let power := point - 1
    let power10 := Nat.toDigits 10 power.natAbs
    digits.take 1 ++ (if digits.length = 1 then [] else '.' :: digits.drop 1) ++
      ['e', if power < 0 then '-' else '+'] ++
      (if power10.length = 1 then '0' :: power10 else power10)

/-- The text of a double. -/
def toText : Double → Text
  | infinite negative => if negative then "-inf" else "inf"
  | finite negative m e =>
    let body :=
      if m = 0 then ['0', '.', '0']
      else
        let x := shortest m e
        let digits := Nat.toDigits 10 x.digits
        layout digits (digits.length + x.exponent)
    .ofChars (if negative then '-' :: body else body)

end Fexpr.Double
