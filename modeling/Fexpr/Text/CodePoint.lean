/-!
# Code points and text

Text is a list of code points. A string escape may name a lone surrogate, which no `Char` stands
for, so a code point is a scalar value or a surrogate.
-/

namespace Fexpr

/-- A code point: a scalar value, or one of the 2048 surrogates counted from U+D800. -/
inductive CodePoint
  | scalar (c : Char)
  | surrogate (offset : Fin 2048)
  deriving DecidableEq, Repr

/-- Source text, names and the contents of strings. -/
abbrev Text := List CodePoint

namespace CodePoint

instance : Coe Char CodePoint := ⟨scalar⟩

/-- The number of a code point. -/
def toNat : CodePoint → Nat
  | scalar c => c.toNat
  | surrogate i => 0xD800 + i.val

/-- The code point of a number; there is none from U+110000 on. -/
def ofNat? (n : Nat) : Option CodePoint :=
  if h : n.isValidChar then some (scalar (Char.ofNatAux n h))
  else if h : 0xD800 ≤ n ∧ n < 0xE000 then some (surrogate ⟨n - 0xD800, by omega⟩)
  else none

/-- Whether a code point is a surrogate. -/
def isSurrogate : CodePoint → Bool
  | scalar _ => false
  | surrogate _ => true

@[simp] theorem isSurrogate_scalar (c : Char) : (scalar c).isSurrogate = false := rfl

@[simp] theorem isSurrogate_surrogate (i : Fin 2048) : (surrogate i).isSurrogate = true := rfl

@[simp] theorem toNat_scalar (c : Char) : (scalar c).toNat = c.toNat := rfl

@[simp] theorem toNat_surrogate (i : Fin 2048) : (surrogate i).toNat = 0xD800 + i.val := rfl

theorem toNat_lt (c : CodePoint) : c.toNat < 0x110000 := by
  cases c with
  | scalar c =>
    have hc : c.toNat < 0xD800 ∨ 0xDFFF < c.toNat ∧ c.toNat < 0x110000 := c.valid
    rw [toNat_scalar]
    omega
  | surrogate i =>
    rw [toNat_surrogate]
    omega

end CodePoint

namespace Text

/-- The text of a list of characters. -/
def ofChars (cs : List Char) : Text := cs.map .scalar

/-- The text of a string. -/
def ofString (s : String) : Text := ofChars s.toList

instance : Coe String Text := ⟨ofString⟩

/-- The decimal numeral of a natural number. -/
def ofNat (n : Nat) : Text := ofChars (Nat.toDigits 10 n)

/-- The decimal numeral of an integer, with a sign if it is negative. -/
def ofInt : Int → Text
  | .ofNat n => ofNat n
  | .negSucc n => .scalar '-' :: ofNat (n + 1)

@[simp] theorem ofChars_nil : ofChars [] = [] := rfl

@[simp] theorem ofChars_cons (c : Char) (cs : List Char) :
    ofChars (c :: cs) = .scalar c :: ofChars cs := rfl

@[simp] theorem ofChars_append (cs ds : List Char) :
    ofChars (cs ++ ds) = ofChars cs ++ ofChars ds := by simp [ofChars]

end Text

end Fexpr
