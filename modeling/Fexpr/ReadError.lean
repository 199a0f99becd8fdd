import Fexpr.Text.Digit

/-! # Why source text cannot be read -/

namespace Fexpr

/-- The reasons why source text cannot be read. Positions count code points from the start of the
text. -/
inductive ReadError
  /-- A block comment is not closed. -/
  | openComment (start : Nat)
  /-- A string is not closed. -/
  | openString (start : Nat)
  /-- A list is not closed; the innermost open one starts here. -/
  | openList (start : Nat)
  /-- A closing parenthesis stands where an expression should. -/
  | strayClose (position : Nat)
  /-- A dot stands where an expression should. -/
  | strayDot (position : Nat)
  /-- A dot comes first in its list. -/
  | nothingBeforeDot (dot : Nat)
  /-- A dot comes last in its list or in the text. -/
  | nothingAfterDot (dot : Nat)
  /-- The expression after a dot is not the last one; `none` if the text ends after it. -/
  | notLast (position : Option Nat)
  /-- A string literal has a bad escape or a code point that may not stand in it. -/
  | badLiteral (literal : Text) (position : Nat)
  /-- An integer has more digits than the reader takes. -/
  | tooManyDigits (count : Nat)
  /-- One expression was asked for and the text has none. -/
  | nothing
  /-- One expression was asked for and more text follows it. -/
  | surplus (position : Nat)
  deriving DecidableEq, Repr

namespace ReadError

/-- The position that is reported; the end of the text after a dotted tail counts as minus one. -/
def position? : ReadError → Option Int
  | openComment p | openString p | openList p | strayClose p | strayDot p => some p
  | nothingBeforeDot p | nothingAfterDot p | badLiteral _ p | surplus p => some p
  | notLast (some p) => some p
  | notLast none => some (-1)
  | tooManyDigits _ | nothing => none

/-- The reason without the position. -/
def reason : ReadError → Text
  | openComment _ => "Unterminated multi-line comment"
  | openString _ => "Unexpected char '\"'"
  | openList _ => "Unmatched '('"
  | strayClose _ => "Unexpected ')'"
  | strayDot _ => "Unexpected '.'"
  | nothingBeforeDot _ => "Expected an expression before '.'"
  | nothingAfterDot _ => "Expected an expression after '.'"
  | notLast _ => "Expected ')' after dotted tail"
  | badLiteral literal _ => ("Invalid string literal " : Text) ++ literal
  | tooManyDigits n =>
    Digit.exceeded ((": value has " : Text) ++ Text.ofNat n ++ (" digits" : Text))
  | nothing => "Expected an expression, got end of input"
  | surplus _ => "Unexpected input after expression"

/-- The message: the reason and, if there is one, the position. -/
def message (e : ReadError) : Text :=
  match e.position? with
  | none => e.reason
  | some p => e.reason ++ (" at " : Text) ++ Text.ofInt p

end ReadError

end Fexpr
