import Fexpr.Datum
import Fexpr.Number.Shortest

/-!
# Writing data

The text of a datum in concrete syntax.
-/

namespace Fexpr.Datum

/-- One code point of a string between quotes: only the backslash, the quote and the line feed are
escaped. -/
def quotedItem (c : CodePoint) : Text :=
  if c = '\\' then ['\\', '\\']
  else if c = '"' then ['\\', '"']
  else if c = '\n' then ['\\', 'n']
  else [c]

/-- A string between quotes. -/
def quoted (t : Text) : Text := .scalar '"' :: (t.flatMap quotedItem ++ [.scalar '"'])

/-- An atom written by itself, or as the tail of a list: the empty list then only ends it. -/
def atom (inTail : Bool) (t : Text) (isNil : Bool) : Text :=
  if inTail then
    if isNil then [.scalar ')']
    else .scalar ' ' :: .scalar '.' :: .scalar ' ' :: (t ++ [.scalar ')'])
  else t

/-- Write a datum, or with `inTail` what follows the first element of the list whose tail it is. -/
def write : Datum → Bool → Text
  | pair h t, inTail => .scalar (if inTail then ' ' else '(') :: (h.write false ++ t.write true)
  | nil, inTail => atom inTail ['(', ')'] true
  | int n, inTail => atom inTail (.ofInt n) false
  | float x, inTail => atom inTail x.toText false
  | str t, inTail => atom inTail (quoted t) false
  | symbol s, inTail => atom inTail s false

/-- The text of a datum. -/
def render (d : Datum) : Text := d.write false

end Fexpr.Datum
