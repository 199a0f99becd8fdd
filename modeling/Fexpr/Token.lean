import Fexpr.Text.CodePoint

/-! # Tokens -/

namespace Fexpr

/-- The kinds of token. -/
inductive TokenKind
  | opening
  | closing
  | string
  | symbol
  deriving DecidableEq, Repr

/-- A token: a piece of the source text and where it starts. -/
structure Token where
  kind : TokenKind
  text : Text
  position : Nat
  deriving DecidableEq, Repr

namespace Token

/-- The dot that comes before the tail of a list. -/
def isDot (t : Token) : Bool := t.kind == .symbol && t.text == [.scalar '.']

end Token

end Fexpr
