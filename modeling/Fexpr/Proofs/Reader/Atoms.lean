import Fexpr.Datum.Printer
import Fexpr.Datum.Reader
import Mathlib.Algebra.Group.Nat.Defs
import Mathlib.Tactic.SplitIfs

/-!
# Atoms read back

The decimal numeral of an integer is read as that integer, as long as it has no more digits than the
reader takes (`Reader.atom_ofInt`), and no integer that is read has more
(`Reader.natAbs_lt_of_atom`). A string between quotes is read as that string, unless it holds a code
point that may not stand in a literal (`Literal.read_quoted`).
-/

namespace Fexpr

/-! ## Decimal digits -/

/-- The value of an ASCII digit is its distance from `0`. -/
theorem CodePoint.digit?_of_isDigit {c : Char} (h : c.isDigit = true) :
    (CodePoint.scalar c).digit? = some (c.toNat - '0'.toNat) := by
  have hc : 48 ≤ c.toNat ∧ c.toNat ≤ 57 := Char.isDigit_iff_toNat.mp h
  simp [digit?, Digit.zeros, hc, Nat.lt_succ_iff]

theorem CodePoint.digit?_lt {c : CodePoint} {d : Nat} (h : c.digit? = some d) : d < 10 := by
  simp only [digit?, Option.map_eq_some_iff] at h
  obtain ⟨z, hz, rfl⟩ := h
  have hrange := List.find?_some hz
  simp only [Bool.and_eq_true, decide_eq_true_eq] at hrange
  omega

/-- ASCII digits are read to their end. -/
theorem Text.digits_ofChars {cs : List Char} (h : ∀ c ∈ cs, c.isDigit = true) :
    Text.digits (.ofChars cs) = (cs.map fun c ↦ c.toNat - '0'.toNat, []) := by
  induction cs with
  | nil => rfl
  | cons c cs ih =>
    have hc := CodePoint.digit?_of_isDigit (h c (by simp))
    rw [Text.ofChars_cons, Text.digits, hc, ih fun d hd ↦ h d (by simp [hd])]
    rfl

theorem Text.digits_lt (t : Text) : ∀ d ∈ (Text.digits t).1, d < 10 := by
  induction t with
  | nil => simp [Text.digits]
  | cons c t ih =>
    rw [Text.digits]
    cases hc : c.digit? with
    | none => simp
    | some d =>
      intro x hx
      rcases List.mem_cons.mp hx with rfl | hx
      · exact CodePoint.digit?_lt hc
      · exact ih x hx

/-- Digits spell a number below the power of ten that their count gives. -/
theorem Digit.foldl_lt {ds : List Nat} (h : ∀ d ∈ ds, d < 10) {n k : Nat} (hn : n < 10 ^ k) :
    ds.foldl (fun n d ↦ 10 * n + d) n < 10 ^ (k + ds.length) := by
  induction ds generalizing n k with
  | nil => exact hn
  | cons d ds ih =>
    have hd := h d (by simp)
    have hnext : 10 * n + d < 10 ^ (k + 1) := by
      rw [Nat.pow_succ]
      omega
    have hrest := ih (fun x hx ↦ h x (by simp [hx])) hnext
    rw [List.foldl_cons, List.length_cons, Nat.add_comm ds.length, ← Nat.add_assoc]
    exact hrest

theorem Digit.value_lt {ds : List Nat} (h : ∀ d ∈ ds, d < 10) :
    Digit.value ds < 10 ^ ds.length := by
  simpa [value] using foldl_lt h (k := 0) Nat.zero_lt_one

/-- The digits of a decimal numeral, by value. -/
def Digit.ofNat (n : Nat) : List Nat := (Nat.toDigits 10 n).map fun c ↦ c.toNat - '0'.toNat

theorem Digit.value_ofNat (n : Nat) : Digit.value (Digit.ofNat n) = n := by
  rw [Digit.ofNat, Digit.value, List.foldl_map]
  exact Nat.ofDigitChars_ten_toDigits

theorem Digit.length_ofNat_le {n k : Nat} (hk : 0 < k) (h : n < 10 ^ k) :
    (Digit.ofNat n).length ≤ k := by
  rw [Digit.ofNat, List.length_map]
  exact (Nat.length_toDigits_le_iff (by omega) hk).mpr h

/-! ## Integers -/

theorem Text.sign_ofNat (n : Nat) : Text.sign (.ofNat n) = (false, .ofNat n) := by
  obtain ⟨c, cs, h⟩ := List.exists_cons_of_ne_nil (Nat.toDigits_ne_nil (n := n) (b := 10))
  have hmem : c ∈ Nat.toDigits 10 n := by rw [h]; simp
  have hc : c.isDigit = true := Nat.isDigit_of_mem_toDigits (by omega) (by omega) hmem
  have hminus : c ≠ '-' := by rintro rfl; exact absurd hc (by decide)
  have hplus : c ≠ '+' := by rintro rfl; exact absurd hc (by decide)
  rw [Text.ofNat, h, Text.ofChars_cons]
  simp [Text.sign, hminus, hplus]

theorem Text.digits_ofNat (n : Nat) : Text.digits (.ofNat n) = (Digit.ofNat n, []) :=
  digits_ofChars fun _ hc ↦ Nat.isDigit_of_mem_toDigits (by omega) (by omega) hc

theorem Digit.ofNat_ne_nil (n : Nat) : Digit.ofNat n ≠ [] := by
  simp [Digit.ofNat, Nat.toDigits_ne_nil]

namespace Numeral

/-- After its sign, the decimal numeral of a natural number is taken apart into its digits. -/
theorem parse?_of_sign {t : Text} {negative : Bool} {n : Nat}
    (h : Text.sign t = (negative, .ofNat n)) :
    parse? t = some ⟨negative, Digit.ofNat n, none, none⟩ := by
  simp [parse?, h, Text.digits_ofNat, Digit.ofNat_ne_nil, exponent?]

/-- The decimal numeral of an integer is taken apart into its sign and its digits. -/
theorem parse?_ofInt (n : Int) :
    parse? (.ofInt n) = some ⟨decide (n < 0), Digit.ofNat n.natAbs, none, none⟩ := by
  cases n with
  | ofNat n => exact parse?_of_sign (Text.sign_ofNat n)
  | negSucc n =>
    have hsign : Text.sign (.ofInt (.negSucc n)) = (true, .ofNat (n + 1)) := rfl
    rw [parse?_of_sign hsign, decide_eq_true (Int.negSucc_lt_zero n), Int.natAbs_negSucc]

theorem digits_lt_of_parse? {t : Text} {n : Numeral} (h : parse? t = some n) :
    ∀ d ∈ n.whole, d < 10 := by
  simp only [parse?] at h
  have hall := Text.digits_lt (Text.sign t).2
  split at h
  · next heq =>
    rw [heq] at hall
    split_ifs at h
    obtain ⟨e, -, rfl⟩ := Option.map_eq_some_iff.mp h
    exact hall
  · next heq =>
    rw [heq] at hall
    split_ifs at h
    obtain ⟨e, -, rfl⟩ := Option.map_eq_some_iff.mp h
    exact hall

theorem natAbs_toInt (n : Numeral) : n.toInt.natAbs = Digit.value n.whole := by
  rw [toInt]
  split_ifs <;> simp

end Numeral

namespace Reader

/-- The numeral of an integer is read as that integer. -/
theorem atom_ofInt {n : Int} (h : n.natAbs < 10 ^ Digit.limit) :
    atom (.ofInt n) = .ok (.int n) := by
  have hlen : ¬ Digit.limit < (Digit.ofNat n.natAbs).length :=
    Nat.not_lt.mpr (Digit.length_ofNat_le (by decide) h)
  have hvalue : Numeral.toInt ⟨decide (n < 0), Digit.ofNat n.natAbs, none, none⟩ = n := by
    simp only [Numeral.toInt, Digit.value_ofNat, decide_eq_true_eq]
    split_ifs <;> omega
  simp [atom, Numeral.parse?_ofInt, Numeral.isInteger, hlen, hvalue]

/-- No integer that is read has more digits than the reader takes. -/
theorem natAbs_lt_of_atom {t : Text} {n : Int} (h : atom t = .ok (.int n)) :
    n.natAbs < 10 ^ Digit.limit := by
  rw [atom] at h
  split at h
  · simp at h
  · next m hm =>
    split_ifs at h with hint hlen
    · simp only [Except.ok.injEq, Datum.int.injEq] at h
      subst h
      rw [Numeral.natAbs_toInt]
      exact Nat.lt_of_lt_of_le (Digit.value_lt (Numeral.digits_lt_of_parse? hm))
        (Nat.pow_le_pow_right (by omega) (by omega))
    · simp at h

/-- A symbol that is read is named by its token. -/
theorem eq_of_atom_symbol {t name : Text} (h : atom t = .ok (.symbol name)) : name = t := by
  rw [atom] at h
  split at h
  · simpa using h.symm
  · split_ifs at h <;> simp at h

/-- An atom is an integer, a float or a symbol. -/
theorem atom_cases {t : Text} {d : Datum} (h : atom t = .ok d) :
    (∃ n, d = .int n) ∨ (∃ x, d = .float x) ∨ ∃ name, d = .symbol name := by
  rw [atom] at h
  split at h
  · simp only [Except.ok.injEq] at h
    exact .inr (.inr ⟨t, h.symm⟩)
  · split_ifs at h <;> simp only [Except.ok.injEq] at h
    · exact .inl ⟨_, h.symm⟩
    · exact .inr (.inl ⟨_, h.symm⟩)

end Reader

/-! ## Strings -/

namespace Literal

theorem spellBreaks_append (t u : Text) :
    spellBreaks (t ++ u) = spellBreaks t ++ spellBreaks u := by
  fun_induction spellBreaks t with
  | case1 => rfl
  | case2 cs ih => simp [spellBreaks, ih]
  | case3 cs ih => simp [spellBreaks, ih]
  | case4 c cs hr hn ih => simp_all [spellBreaks]

/-- One code point of a string between quotes, once raw line breaks are spelled. -/
def spelledItem (c : CodePoint) : Text := spellBreaks (Datum.quotedItem c)

theorem spellBreaks_flatMap (t : Text) :
    spellBreaks (t.flatMap Datum.quotedItem) = t.flatMap spelledItem := by
  induction t with
  | nil => rfl
  | cons c t ih => rw [List.flatMap_cons, List.flatMap_cons, spellBreaks_append, ih, spelledItem]

/-- The cases of a spelled code point: four are escaped and the others stand for themselves. -/
theorem spelledItem_cases (c : CodePoint) :
    (∃ x y : Char, spelledItem c = [.scalar '\\', .scalar x] ∧
        letter? (.scalar x) = some y ∧ c = .scalar y) ∨
      (spelledItem c = [c] ∧ c ≠ '\\') := by
  by_cases hb : c = '\\'
  · exact .inl ⟨'\\', '\\', by subst hb; rfl, rfl, hb⟩
  by_cases hq : c = '"'
  · exact .inl ⟨'"', '"', by subst hq; rfl, rfl, hq⟩
  by_cases hn : c = '\n'
  · exact .inl ⟨'n', '\n', by subst hn; rfl, rfl, hn⟩
  by_cases hr : c = '\r'
  · exact .inl ⟨'r', '\r', by subst hr; rfl, rfl, hr⟩
  · refine .inr ⟨?_, hb⟩
    simp [spelledItem, Datum.quotedItem, spellBreaks, hb, hq, hn]

theorem forbidden_spelledItem (c : CodePoint) :
    (spelledItem c).any isForbidden = isForbidden c := by
  rcases spelledItem_cases c with ⟨x, y, hs, hxy, rfl⟩ | ⟨hs, -⟩
  · rw [hs]
    unfold letter? at hxy
    split at hxy <;> simp_all <;> subst hxy <;> rfl
  · simp [hs]

variable [CharacterNames]

/-- A literal stands for what is decoded between its quotes. -/
theorem read_quotes (t : Text) :
    read (.scalar '"' :: (t ++ [.scalar '"'])) = decode (spellBreaks t) := by
  have hall : spellBreaks (.scalar '"' :: (t ++ [.scalar '"'])) =
      .scalar '"' :: (spellBreaks t ++ [.scalar '"']) := by
    simp [spellBreaks, spellBreaks_append]
  rw [read, hall, body, List.tail_cons, List.dropLast_concat]

theorem decodeFrom_spelledItem (c : CodePoint) (t : Text) :
    decodeFrom .plain (spelledItem c ++ t) = (decodeFrom .plain t).map (c :: ·) := by
  rcases spelledItem_cases c with ⟨x, y, hs, hxy, rfl⟩ | ⟨hs, hc⟩
  · rw [hs]
    cases ht : decodeFrom .plain t <;> simp [decodeFrom, State.step, hxy, ht]
  · rw [hs]
    cases ht : decodeFrom .plain t <;> simp [decodeFrom, State.step, ht]

theorem decodeFrom_spelled (t : Text) : decodeFrom .plain (t.flatMap spelledItem) = some t := by
  induction t with
  | nil => rfl
  | cons c t ih => rw [List.flatMap_cons, decodeFrom_spelledItem, ih, Option.map_some]

/-- A string between quotes stands for itself, unless a code point in it may not stand in a
literal. -/
theorem read_quoted (t : Text) :
    read (Datum.quoted t) = if t.any isForbidden then none else some t := by
  have hany : (t.flatMap spelledItem).any isForbidden = t.any isForbidden := by
    rw [List.any_flatMap]
    exact congrArg t.any (funext forbidden_spelledItem)
  rw [Datum.quoted, read_quotes, spellBreaks_flatMap, decode, hany, decodeFrom_spelled]

end Literal

end Fexpr
