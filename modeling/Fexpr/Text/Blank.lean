import Fexpr.Text.CodePoint

/-! # White space -/

namespace Fexpr

/-- White space: the code points of bidirectional class B, S or WS or of category Zs. -/
def CodePoint.isBlank (c : CodePoint) : Bool :=
  let n := c.toNat
  (9 ≤ n && n ≤ 13) || (28 ≤ n && n ≤ 32) || n == 0x85 || n == 0xA0 || n == 0x1680 ||
    (0x2000 ≤ n && n ≤ 0x200A) || n == 0x2028 || n == 0x2029 || n == 0x202F || n == 0x205F ||
    n == 0x3000

/-- Text without the white space around it. -/
def Text.strip (t : Text) : Text :=
  ((t.dropWhile CodePoint.isBlank).reverse.dropWhile CodePoint.isBlank).reverse

end Fexpr
