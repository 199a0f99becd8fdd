import Fexpr.Datum
import Fexpr.Number.Numeral
import Fexpr.ReadError
import Fexpr.Text.Literal
import Fexpr.Token

/-!
# Reading data from tokens

The reader takes one token at a time and keeps the lists that are still open on a stack. A token is
*rejected* when it cannot come next: it is then not consumed. A token is *at fault* when it is
consumed before its error is found.
-/

namespace Fexpr.Reader

/-- The datum of a symbol token: a number if it is a numeral, else a symbol. -/
def atom (t : Text) : Except ReadError Datum :=
  match Numeral.parse? t with
  | none => .ok (.symbol t)
  | some n =>
    if n.isInteger then
      if Digit.limit < n.whole.length then .error (.tooManyDigits n.whole.length)
      else .ok (.int n.toInt)
    else .ok (.float n.toDouble)

variable [CharacterNames]

/-- The datum of a string token. -/
def string (t : Token) : Except ReadError Datum :=
  match Literal.read t.text with
  | some s => .ok (.str s)
  | none => .error (.badLiteral (Literal.spellBreaks t.text) t.position)

/-- An open list that waits for an expression. Its items are held with the latest first. -/
inductive OpenList
  /-- Among the items of a list that starts at `start`. -/
  | items (start : Nat) (items : List Datum)
  /-- After the dot at `dot`. -/
  | dotted (items : List Datum) (dot : Nat)
  deriving DecidableEq, Repr

/-- What the reader waits for. -/
inductive State
  /-- An expression, or the end of the innermost open list. -/
  | expression (stack : List OpenList)
  /-- The end of a list whose dotted tail has been read. -/
  | closing (items : List Datum) (tail : Datum) (stack : List OpenList)
  deriving DecidableEq, Repr

/-- What a token leads to. -/
inductive Step
  | shift (s : State)
  | done (d : Datum)
  | reject (e : ReadError)
  | fault (e : ReadError)
  deriving DecidableEq, Repr

/-- Put a complete datum in its place. -/
def feed (d : Datum) : List OpenList → Step
  | [] => .done d
  | .items start ds :: stack => .shift (.expression (.items start (d :: ds) :: stack))
  | .dotted ds _ :: stack => .shift (.closing ds d stack)

/-- Put an atom or a string in its place, or report its error. -/
def feed? (stack : List OpenList) : Except ReadError Datum → Step
  | .ok d => feed d stack
  | .error e => .fault e

/-- Take a dot. -/
def dot (position : Nat) : List OpenList → Step
  | .items _ [] :: _ => .reject (.nothingBeforeDot position)
  | .items _ ds :: stack => .shift (.expression (.dotted ds position :: stack))
  | _ => .fault (.strayDot position)

/-- Take a closing parenthesis where an expression could stand. -/
def close (position : Nat) : List OpenList → Step
  | [] => .reject (.strayClose position)
  | .items _ ds :: stack => feed (.ofList ds.reverse) stack
  | .dotted _ dot :: _ => .reject (.nothingAfterDot dot)

/-- Take one token. -/
def State.step (s : State) (t : Token) : Step :=
  match s with
  | .closing ds d stack =>
    if t.kind = .closing then feed (.chain ds.reverse d) stack
    else .reject (.notLast (some t.position))
  | .expression stack =>
    match t.kind with
    | .opening => .shift (.expression (.items t.position [] :: stack))
    | .closing => close t.position stack
    | .string => feed? stack (string t)
    | .symbol => if t.isDot then dot t.position stack else feed? stack (atom t.text)

/-- What is wrong if the tokens end here; nothing before the first token of an expression. -/
def State.atEnd : State → Option ReadError
  | .expression [] => none
  | .expression (.items start _ :: _) => some (.openList start)
  | .expression (.dotted _ dot :: _) => some (.nothingAfterDot dot)
  | .closing _ _ _ => some (.notLast none)

end Fexpr.Reader
