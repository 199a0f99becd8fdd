import Fexpr.Text.CodePoint

/-!
# Decimal digits

Every script's decimal digits stand in one run of ten, from its zero to its nine.
-/

namespace Fexpr

namespace Digit

/-- The zeros of the scripts that have decimal digits of their own (category Nd). -/
def zeros : List Nat :=
  [0x30, 0x660, 0x6F0, 0x7C0, 0x966, 0x9E6, 0xA66, 0xAE6, 0xB66, 0xBE6, 0xC66, 0xCE6, 0xD66, 0xDE6,
   0xE50, 0xED0, 0xF20, 0x1040, 0x1090, 0x17E0, 0x1810, 0x1946, 0x19D0, 0x1A80, 0x1A90, 0x1B50,
   0x1BB0, 0x1C40, 0x1C50, 0xA620, 0xA8D0, 0xA900, 0xA9D0, 0xA9F0, 0xAA50, 0xABF0, 0xFF10, 0x104A0,
   0x10D30, 0x11066, 0x110F0, 0x11136, 0x111D0, 0x112F0, 0x11450, 0x114D0, 0x11650, 0x116C0,
   0x11730, 0x118E0, 0x11950, 0x11C50, 0x11D50, 0x11DA0, 0x16A60, 0x16AC0, 0x16B50, 0x1D7CE,
   0x1D7D8, 0x1D7E2, 0x1D7EC, 0x1D7F6, 0x1E140, 0x1E2F0, 0x1E950, 0x1FBF0]

/-- The number that a list of digit values spells, the most significant first. -/
def value (digits : List Nat) : Nat := digits.foldl (fun n d => 10 * n + d) 0

/-- The most digits of an integer that the host converts from decimal text or into it. -/
def limit : Nat := 4300

/-- The host's words for more digits than that. -/
def exceeded (detail : Text) : Text :=
  ("Exceeds the limit (" : Text) ++ Text.ofNat limit ++
    (" digits) for integer string conversion" : Text) ++ detail ++
    ("; use sys.set_int_max_str_digits() to increase the limit" : Text)

end Digit

/-- The decimal numeral of an integer; none if it has too many digits. -/
def Text.ofInt? (n : Int) : Option Text :=
  if (ofNat n.natAbs).length ≤ Digit.limit then some (ofInt n) else none

/-- The value of a decimal digit of any script. -/
def CodePoint.digit? (c : CodePoint) : Option Nat :=
  let n := c.toNat
  (Digit.zeros.find? fun z => z ≤ n && n < z + 10).map (n - ·)

/-- The leading digits of a text by value, and what follows them. -/
def Text.digits : Text → List Nat × Text
  | [] => ([], [])
  | c :: cs =>
    match c.digit? with
    | some d => let (ds, rest) := digits cs; (d :: ds, rest)
    | none => ([], c :: cs)

/-- Whether a text opens with a minus sign, and the text after its sign, if it has one. -/
def Text.sign : Text → Bool × Text
  | .scalar '-' :: cs => (true, cs)
  | .scalar '+' :: cs => (false, cs)
  | cs => (false, cs)

end Fexpr
