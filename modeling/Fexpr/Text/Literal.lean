import Fexpr.Text.CodePoint

/-!
# String literals

A literal is the text of a string token, quotes included. Raw line breaks in it are first spelled as
the escapes `\r` and `\n`; then the text between the quotes is decoded. An escape may give a
character by its name, for which the host has a table; the table is a parameter here.
-/

namespace Fexpr

/-- Code points that the names of characters are made of: letters, digits, blanks and hyphens. -/
def CodePoint.isNameLetter : CodePoint → Bool
  | scalar c => c.isAlphanum || c = ' ' || c = '-'
  | surrogate _ => false

/-- The host's table of the names of characters. -/
class CharacterNames where
  /-- The character of a name. -/
  find? : Text → Option Char
  ne_nil {name : Text} {c : Char} : find? name = some c → name ≠ []
  isNameLetter {name : Text} {c : Char} : find? name = some c → ∀ x ∈ name, x.isNameLetter = true

namespace CharacterNames

/-- The table that names no character. -/
scoped instance empty : CharacterNames where
  find? _ := none
  ne_nil := by simp
  isNameLetter := by simp

end CharacterNames

namespace Literal

/-- The literal with its raw line breaks spelled as escapes. -/
def spellBreaks : Text → Text
  | [] => []
  | .scalar '\r' :: cs => '\\' :: 'r' :: spellBreaks cs
  | .scalar '\n' :: cs => '\\' :: 'n' :: spellBreaks cs
  | c :: cs => c :: spellBreaks cs

/-- The text between the first and the last code point. -/
def body (literal : Text) : Text := literal.tail.dropLast

/-- Code points that may not stand in a literal: NUL and the surrogates. -/
def isForbidden (c : CodePoint) : Bool := c = '\x00' || c.isSurrogate

/-- The code point that a backslash and one letter stand for. -/
def letter? : CodePoint → Option Char
  | .scalar 'a' => some '\x07'
  | .scalar 'b' => some '\x08'
  | .scalar 'f' => some '\x0c'
  | .scalar 'n' => some '\n'
  | .scalar 'r' => some '\r'
  | .scalar 't' => some '\t'
  | .scalar 'v' => some '\x0b'
  | .scalar '\\' => some '\\'
  | .scalar '\'' => some '\''
  | .scalar '"' => some '"'
  | _ => none

/-- The number of hexadecimal digits after a backslash and `x`, `u` or `U`. -/
def width? : CodePoint → Option Nat
  | .scalar 'x' => some 2
  | .scalar 'u' => some 4
  | .scalar 'U' => some 8
  | _ => none

/-- The value of an ASCII digit below the base, up to base 16. -/
def digitBelow? (base : Nat) : CodePoint → Option Nat
  | .scalar c =>
    let d :=
      if '0' ≤ c ∧ c ≤ '9' then c.toNat - '0'.toNat
      else if 'a' ≤ c ∧ c ≤ 'f' then c.toNat - 'a'.toNat + 10
      else if 'A' ≤ c ∧ c ≤ 'F' then c.toNat - 'A'.toNat + 10
      else 16
    if d < base then some d else none
  | .surrogate _ => none

/-- Where decoding stands: outside an escape, after a backslash, among the digits of an escape,
before the brace that opens the name of a character, or among the letters of the name. -/
inductive State
  | plain
  | backslash
  | octal (left value : Nat)
  | hex (left value : Nat)
  | unnamed
  | name (letters : Text)
  deriving DecidableEq, Repr

variable [CharacterNames]

/-- What one code point adds to the decoded text, and the state after it; `none` if the literal is
bad. An escape that has no meaning stands for itself. -/
def State.step : State → CodePoint → Option (Text × State)
  | .plain, .scalar '\\' => some ([], .backslash)
  | .plain, c => some ([c], .plain)
  | .backslash, c =>
    match letter? c, width? c, digitBelow? 8 c with
    | some d, _, _ => some ([.scalar d], .plain)
    | none, some w, _ => some ([], .hex w 0)
    | none, none, some d => some ([], .octal 2 d)
    | none, none, none => if c = 'N' then some ([], .unnamed) else some (['\\', c], .plain)
  | .octal left v, c =>
    match left, digitBelow? 8 c with
    | k + 1, some d => some ([], .octal k (8 * v + d))
    | _, _ => do
      let e ← CodePoint.ofNat? v
      if c = '\\' then some ([e], .backslash) else some ([e, c], .plain)
  | .hex left v, c => do
    let d ← digitBelow? 16 c
    match left with
    | k + 2 => some ([], .hex (k + 1) (16 * v + d))
    | _ => do
      let e ← CodePoint.ofNat? (16 * v + d)
      some ([e], .plain)
  | .unnamed, c => if c = '\x7b' then some ([], .name []) else none
  | .name letters, c =>
    if c = '\x7d' then do
      let e ← CharacterNames.find? letters
      some ([.scalar e], .plain)
    else some ([], .name (letters ++ [c]))

/-- What the end of the literal adds. -/
def State.finish : State → Option Text
  | .plain => some []
  | .backslash => none
  | .octal _ v => do some [← CodePoint.ofNat? v]
  | .hex _ _ | .unnamed | .name _ => none

/-- Decode from a state on. -/
def decodeFrom (s : State) : Text → Option Text
  | [] => s.finish
  | c :: cs => do
    let (out, s') ← s.step c
    let rest ← decodeFrom s' cs
    some (out ++ rest)

/-- The text that the contents of a literal stand for, once its line breaks are spelled. -/
def decode (t : Text) : Option Text :=
  if t.any isForbidden then none else decodeFrom .plain t

/-- The string that a literal stands for. -/
def read (literal : Text) : Option Text := decode (body (spellBreaks literal))

end Literal

end Fexpr
