import Fexpr.Text.Printable

/-!
# Quoted text

Text between quotes, with escapes for all that is not printable. The quote is `'`, unless the text
holds a `'` and no `"`.
-/

namespace Fexpr.Quoted

/-- The last `width` hexadecimal digits of a number, in lower case. -/
def hex : Nat → Nat → List Char
  | 0, _ => []
  | width + 1, n => hex width (n / 16) ++ [Nat.digitChar (n % 16)]

/-- The escape of a code point that is not printable: two, four or eight hexadecimal digits. -/
def escape (n : Nat) : List Char :=
  if n < 0x100 then '\\' :: 'x' :: hex 2 n
  else if n < 0x10000 then '\\' :: 'u' :: hex 4 n
  else '\\' :: 'U' :: hex 8 n

/-- One code point of text quoted by `mark`. -/
def item (mark : Char) (c : CodePoint) : Text :=
  if c = mark || c = '\\' then ['\\', c]
  else if c = '\n' then ['\\', 'n']
  else if c = '\r' then ['\\', 'r']
  else if c = '\t' then ['\\', 't']
  else if c.isPrintable then [c]
  else .ofChars (escape c.toNat)

/-- The quote that a text is put in. -/
def mark (t : Text) : Char :=
  if t.contains '\'' && !t.contains '"' then '"' else '\''

/-- The quoted form of a text. -/
def quote (t : Text) : Text :=
  .scalar (mark t) :: (t.flatMap (item (mark t)) ++ [.scalar (mark t)])

end Fexpr.Quoted
