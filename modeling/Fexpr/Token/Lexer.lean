import Fexpr.ReadError
import Fexpr.Text.Blank
import Fexpr.Token

/-!
# The lexer

A scanner goes through the text one code point at a time. Between tokens it skips white space, line
comments from `;` to the end of the line, and block comments from `#|` to the `|#` that closes it,
which nest. A `#|` opens a comment only where a token could start.
-/

namespace Fexpr

/-- Code points that end a symbol. -/
def CodePoint.isDelimiter (c : CodePoint) : Bool :=
  c.isBlank || c == '(' || c == ')' || c == '"' || c == ';'

/-- The tokens of a text in order, and why it was not read to its end, if so. -/
structure Lexed where
  tokens : List Token
  failure : Option ReadError
  deriving DecidableEq, Repr

namespace Lexer

/-- What the scanner is inside of. The text of a token so far is held with the latest code point
first. -/
inductive Mode
  /-- Between tokens. -/
  | gap
  /-- In a line comment. -/
  | line
  /-- In a block comment with `depth` further ones open in it. `last` is the code point before,
  unless it was the end of a comment mark. -/
  | block (start depth : Nat) (last : Option CodePoint)
  /-- In a string; `escaped` after a backslash that is not escaped itself. -/
  | string (start : Nat) (taken : Text) (escaped : Bool)
  /-- After a `#` that starts a token. -/
  | hash (start : Nat)
  /-- In a symbol. -/
  | symbol (start : Nat) (taken : Text)
  deriving DecidableEq, Repr

/-- The state of the scanner: the position of the next code point, the mode, and the tokens so far
with the latest first. -/
structure Scanner where
  position : Nat
  mode : Mode
  tokens : List Token
  deriving DecidableEq, Repr

namespace Scanner

/-- The scanner before the first code point. -/
def start : Scanner := ⟨0, .gap, []⟩

/-- Move past one code point into a mode. -/
def enter (s : Scanner) (m : Mode) : Scanner := ⟨s.position + 1, m, s.tokens⟩

/-- Add a token. -/
def emit (s : Scanner) (kind : TokenKind) (text : Text) (position : Nat) : Scanner :=
  { s with tokens := ⟨kind, text, position⟩ :: s.tokens }

/-- Take a code point where a token could start. -/
def begin (s : Scanner) (c : CodePoint) : Scanner :=
  if c.isBlank then s.enter .gap
  else if c = ';' then s.enter .line
  else if c = '(' then (s.emit .opening [c] s.position).enter .gap
  else if c = ')' then (s.emit .closing [c] s.position).enter .gap
  else if c = '"' then s.enter (.string s.position [c] false)
  else if c = '#' then s.enter (.hash s.position)
  else s.enter (.symbol s.position [c])

/-- Take a code point in a symbol. -/
def extend (s : Scanner) (start : Nat) (taken : Text) (c : CodePoint) : Scanner :=
  if c.isDelimiter then (s.emit .symbol taken.reverse start).begin c
  else s.enter (.symbol start (c :: taken))

/-- Take a code point in a block comment. -/
def comment (s : Scanner) (start depth : Nat) (last : Option CodePoint) (c : CodePoint) : Scanner :=
  if last = some (.scalar '#') ∧ c = '|' then s.enter (.block start (depth + 1) none)
  else if last = some (.scalar '|') ∧ c = '#' then
    match depth with
    | 0 => s.enter .gap
    | depth + 1 => s.enter (.block start depth none)
  else s.enter (.block start depth (some c))

/-- Take one code point. -/
def step (s : Scanner) (c : CodePoint) : Scanner :=
  match s.mode with
  | .gap => s.begin c
  | .line => s.enter (if c = '\n' then .gap else .line)
  | .block start depth last => s.comment start depth last c
  | .string start taken escaped =>
    if escaped then s.enter (.string start (c :: taken) false)
    else if c = '"' then (s.emit .string (c :: taken).reverse start).enter .gap
    else s.enter (.string start (c :: taken) (c == '\\'))
  | .hash start => if c = '|' then s.enter (.block start 0 none) else s.extend start ['#'] c
  | .symbol start taken => s.extend start taken c

/-- End the scan. -/
def finish (s : Scanner) : Lexed :=
  match s.mode with
  | .gap | .line => ⟨s.tokens.reverse, none⟩
  | .block start _ _ => ⟨s.tokens.reverse, some (.openComment start)⟩
  | .string start _ _ => ⟨s.tokens.reverse, some (.openString start)⟩
  | .hash start => ⟨(s.emit .symbol ['#'] start).tokens.reverse, none⟩
  | .symbol start taken => ⟨(s.emit .symbol taken.reverse start).tokens.reverse, none⟩

/-- Take the code points of a text. -/
def run (s : Scanner) (t : Text) : Scanner := t.foldl step s

@[simp] theorem run_nil (s : Scanner) : s.run [] = s := rfl

@[simp] theorem run_cons (s : Scanner) (c : CodePoint) (t : Text) :
    s.run (c :: t) = (s.step c).run t := rfl

theorem run_append (s : Scanner) (t u : Text) : s.run (t ++ u) = (s.run t).run u := by
  simp [run, List.foldl_append]

end Scanner

end Lexer

/-- The tokens of a text. -/
def lex (t : Text) : Lexed := (Lexer.Scanner.start.run t).finish

end Fexpr
