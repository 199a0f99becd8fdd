import Fexpr.Path
import Fexpr.Text.Blank
import Fexpr.Text.Digit
import Fexpr.Text.Quoted

/-!
# Settings

The two settings of a session come as text: the files of the prelude, divided by colons, and the
least recursion limit.
-/

namespace Fexpr

/-- The settings of a session, as given. -/
structure Settings where
  preludePath : Option Text
  recursionLimit : Option Text
  deriving DecidableEq, Repr

/-- Why a recursion limit is refused. -/
inductive LimitError
  | notInteger (given : Text)
  | notPositive (n : Int)
  | tooLarge
  deriving DecidableEq, Repr

/-- The message of a refused recursion limit. -/
def LimitError.message : LimitError → Text
  | notInteger given =>
    ("VAU_RECURSION_LIMIT must be an integer, got " : Text) ++ Quoted.quote given
  | notPositive n => ("VAU_RECURSION_LIMIT must be positive, got " : Text) ++ Text.ofInt n
  | tooLarge => "Python int too large to convert to C int"

namespace Settings

/-- Digits by value; single underscores may stand between them. -/
def spacedDigits? : Text → Option (List Nat)
  | [] => none
  | c :: cs =>
    match c.digit?, cs with
    | none, _ => none
    | some d, [] => some [d]
    | some d, .scalar '_' :: rest => (spacedDigits? rest).map (d :: ·)
    | some d, c' :: rest => (spacedDigits? (c' :: rest)).map (d :: ·)

/-- The integer that a text spells, with an optional sign and not too many digits. -/
def integer? (t : Text) : Option Int :=
  let (negative, t) := Text.sign t
  match spacedDigits? t with
  | none => none
  | some ds =>
    if Digit.limit < ds.length then none
    else some (if negative then -Digit.value ds else Digit.value ds)

/-- The recursion limit asked for: none if the setting is missing or blank. -/
def limit? (given : Option Text) : Except LimitError (Option Nat) :=
  let t := Text.strip (given.getD [])
  if t.isEmpty then .ok none
  else
    match integer? t with
    | none => .error (.notInteger t)
    | some n => if 0 < n then .ok (some n.toNat) else .error (.notPositive n)

/-- The greatest recursion limit that can be set. -/
def greatestLimit : Nat := 2147483647

/-- The host's recursion limit once a session has begun: it is only ever raised. -/
def limit (present : Nat) (given : Option Text) : Except LimitError Nat := do
  match ← limit? given with
  | none => return present
  | some n =>
    if n ≤ present then return present
    else if n ≤ greatestLimit then return n
    else throw .tooLarge

/-- The paths that a setting names; the defaults if it is missing or empty. -/
def paths (given : Option Text) (defaults : List Text) : List Path :=
  match given with
  | none | some [] => defaults.map Path.ofText
  | some t => (((Path.split ':' t).map Text.strip).filter (!·.isEmpty)).map Path.ofText

end Settings

end Fexpr
