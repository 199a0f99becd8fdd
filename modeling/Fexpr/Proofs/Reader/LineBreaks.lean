import Fexpr.Proofs.Reader.Atoms
import Fexpr.Proofs.Token.Layout

/-!
# Line breaks in string literals

Before a literal is decoded, its raw line breaks are spelled as escapes, whatever stands before
them. Right after a backslash that is not escaped itself this goes wrong: the backslash of the new
escape goes with the one before it, and a backslash and a letter are all that comes of the break
(`Literal.decodeFrom_backslash_breakLetter`).

No break is lost in any other place (`Literal.decodeFrom_breakLetter`), nor is one lost there if the
backslash before it is doubled first (`Literal.keepBreaks`). So the loss can be counted: it is the
number of escaped breaks (`Literal.count_of_decode_spellBreaks`).
-/

namespace Fexpr

/-- The code points that end a line. -/
def CodePoint.isBreak (c : CodePoint) : Bool := c = '\n' || c = '\r'

theorem CodePoint.isBreak_iff {c : CodePoint} : c.isBreak = true ↔ c = '\n' ∨ c = '\r' := by
  simp [isBreak]

namespace Literal

/-! ## Spelled line breaks -/

/-- The escaped code points of a text, the first of which may be escaped by what comes before. -/
def escapedFrom : Bool → Text → Text
  | _, [] => []
  | true, c :: t => c :: escapedFrom false t
  | false, c :: t => escapedFrom (c == '\\') t

/-- The escaped code points between the quotes of a literal: those right after a backslash that is
not escaped itself. -/
def escaped (t : Text) : Text := escapedFrom false t

/-- Taking a code point that is no escaped `b` leaves the same `b`s escaped. -/
theorem count_escapedFrom_cons {b c : CodePoint} {escape : Bool} (h : escape = true → c ≠ b)
    (t : Text) :
    (escapedFrom escape (c :: t)).count b = (escapedFrom (!escape && c == '\\') t).count b := by
  cases escape with
  | false => rfl
  | true => simp [escapedFrom, h rfl]

/-- The text with its raw line breaks spelled, where one more backslash is written before each of
them that is escaped; the first code point may be escaped by what comes before. -/
def keepBreaksFrom : Bool → Text → Text
  | _, [] => []
  | escape, c :: t =>
    (if escape && c.isBreak then [.scalar '\\'] else []) ++ spellBreaks [c] ++
      keepBreaksFrom (!escape && c == '\\') t

/-- The contents of a literal with the raw line breaks spelled, and with the backslash doubled
before each of them that is escaped. -/
def keepBreaks (t : Text) : Text := keepBreaksFrom false t

/-- `BreakLetter b x`: the line break `b` is spelled as a backslash and `x`. -/
inductive BreakLetter : Char → Char → Prop
  | lineFeed : BreakLetter '\n' 'n'
  | carriageReturn : BreakLetter '\r' 'r'

theorem BreakLetter.spellBreaks {b x : Char} (h : BreakLetter b x) :
    spellBreaks [.scalar b] = [.scalar '\\', .scalar x] := by
  cases h <;> rfl

theorem exists_breakLetter {c : CodePoint} (h : c.isBreak = true) :
    ∃ b x, c = .scalar b ∧ BreakLetter b x := by
  rcases CodePoint.isBreak_iff.mp h with rfl | rfl
  · exact ⟨_, _, rfl, .lineFeed⟩
  · exact ⟨_, _, rfl, .carriageReturn⟩

theorem spellBreaks_of_not_isBreak {c : CodePoint} (h : c.isBreak = false) :
    spellBreaks [c] = [c] := by
  have hn : c ≠ '\n' := by
    rintro rfl
    cases h
  have hr : c ≠ '\r' := by
    rintro rfl
    cases h
  simp [spellBreaks]

theorem spellBreaks_cons (c : CodePoint) (t : Text) :
    spellBreaks (c :: t) = spellBreaks [c] ++ spellBreaks t :=
  spellBreaks_append [c] t

/-- Spelling the line breaks, in either way, adds and removes nothing that may not stand in a
literal. -/
theorem any_isForbidden_keepBreaksFrom (escape : Bool) (t : Text) :
    (keepBreaksFrom escape t).any isForbidden = (spellBreaks t).any isForbidden := by
  induction t generalizing escape with
  | nil => rfl
  | cons c t ih =>
    have hslash :
        (if escape && c.isBreak then [.scalar '\\'] else ([] : Text)).any isForbidden = false := by
      split <;> rfl
    rw [keepBreaksFrom, spellBreaks_cons c t, List.any_append, List.any_append, List.any_append,
      hslash, ih, Bool.false_or]

/-! ## Steps of the decoder -/

/-- Whether the next code point is escaped. -/
def State.escapes : State → Bool
  | .backslash => true
  | _ => false

theorem ne_backslash_of_digitBelow? {base d : Nat} {c : CodePoint} (h : digitBelow? base c = some d)
    (hbase : base ≤ 16) : c ≠ '\\' := by
  rintro rfl
  have hnone : digitBelow? base '\\' = none := by simpa [digitBelow?] using hbase
  rw [hnone] at h
  cases h

variable [CharacterNames]

theorem decode_eq_some_iff {t r : Text} :
    decode t = some r ↔ t.any isForbidden = false ∧ decodeFrom .plain t = some r := by
  cases h : t.any isForbidden <;> simp [decode, h]

theorem decodeFrom_cons_eq_some_iff {s : State} {c : CodePoint} {t r : Text} :
    decodeFrom s (c :: t) = some r ↔
      ∃ out s' r', s.step c = some (out, s') ∧ decodeFrom s' t = some r' ∧ r = out ++ r' := by
  simp only [decodeFrom, Option.bind_eq_bind, Option.bind_eq_some_iff, Prod.exists,
    Option.some.injEq]
  constructor
  · rintro ⟨out, s', hstep, r', hr', rfl⟩
    exact ⟨out, s', r', hstep, hr', rfl⟩
  · rintro ⟨out, s', r', hstep, hr', rfl⟩
    exact ⟨out, s', hstep, r', hr', rfl⟩

/-- What is not in a name cannot be taken back: no character is found at its end. -/
theorem decodeFrom_name {letters : Text} {x : CodePoint} (hx : x ∈ letters)
    (hletter : x.isNameLetter = false) (t : Text) : decodeFrom (.name letters) t = none := by
  induction t generalizing letters with
  | nil => rfl
  | cons c t ih =>
    refine Option.eq_none_iff_forall_ne_some.mpr fun r hr ↦ ?_
    obtain ⟨out, s', r', hstep, hr', -⟩ := decodeFrom_cons_eq_some_iff.mp hr
    rw [State.step] at hstep
    split at hstep
    next =>
      obtain ⟨e, he, -⟩ := Option.bind_eq_some_iff.mp hstep
      rw [CharacterNames.isNameLetter he x hx] at hletter
      cases hletter
    next =>
      cases hstep
      rw [ih (List.mem_append_left _ hx)] at hr'
      cases hr'

/-- In a literal that can be decoded, a backslash escapes what comes next, unless it is escaped
itself. -/
theorem State.escapes_of_step {s s' : State} {c : CodePoint} {out t r : Text}
    (h : s.step c = some (out, s')) (ht : decodeFrom s' t = some r) :
    s'.escapes = (!s.escapes && c == '\\') := by
  cases s with
  | plain =>
    by_cases hc : c = '\\'
    · subst hc
      cases h
      rfl
    · have hstep : State.step .plain c = some ([c], .plain) := by simp [State.step]
      cases hstep.symm.trans h
      simp [escapes, hc]
  | backslash =>
    simp only [State.step] at h
    split at h
    · cases h
      rfl
    · cases h
      rfl
    · cases h
      rfl
    · split at h <;> cases h <;> rfl
  | octal left v =>
    simp only [State.step] at h
    split at h
    · next hd =>
      cases h
      simp [escapes, ne_backslash_of_digitBelow? hd]
    · obtain ⟨e, -, h⟩ := Option.bind_eq_some_iff.mp h
      split at h <;> cases h <;> simp_all [escapes]
  | hex left v =>
    obtain ⟨d, hd, h⟩ := Option.bind_eq_some_iff.mp h
    have hc := ne_backslash_of_digitBelow? hd (Nat.le_refl 16)
    split at h
    · cases h
      simp [escapes, hc]
    · obtain ⟨e, -, h⟩ := Option.bind_eq_some_iff.mp h
      cases h
      simp [escapes, hc]
  | unnamed =>
    rw [State.step] at h
    split at h
    next hc =>
      cases h
      simp [escapes, hc]
    next => cases h
  | name letters =>
    rw [State.step] at h
    split at h
    next hc =>
      obtain ⟨e, -, h⟩ := Option.bind_eq_some_iff.mp h
      cases h
      simp [escapes, hc]
    next =>
      cases h
      by_cases hc : c = '\\'
      · rw [decodeFrom_name (x := c) (by simp) (by rw [hc]; rfl)] at ht
        cases ht
      · simp [escapes, hc]

/-- Where it is not escaped, a spelled line break gives that line break: it ends an octal escape,
and it spoils the escapes that go on. -/
theorem decodeFrom_breakLetter {b x : Char} (h : BreakLetter b x) {s : State}
    (hs : s.escapes = false) {t r : Text}
    (hr : decodeFrom s (.scalar '\\' :: .scalar x :: t) = some r) :
    ∃ out r', decodeFrom .plain t = some r' ∧ r = out ++ .scalar b :: r' ∧
      ∀ u w, decodeFrom .plain u = some w →
        decodeFrom s (.scalar '\\' :: .scalar x :: u) = some (out ++ .scalar b :: w) := by
  have hletter : State.step .backslash (.scalar x) = some ([.scalar b], .plain) := by
    cases h <;> rfl
  -- It is enough that the backslash starts an escape.
  have hstart (out : Text) (hslash : s.step (.scalar '\\') = some (out, .backslash)) :
      ∃ out r', decodeFrom .plain t = some r' ∧ r = out ++ .scalar b :: r' ∧
        ∀ u w, decodeFrom .plain u = some w →
          decodeFrom s (.scalar '\\' :: .scalar x :: u) = some (out ++ .scalar b :: w) := by
    obtain ⟨_, _, _, hstep, hr, rfl⟩ := decodeFrom_cons_eq_some_iff.mp hr
    cases hslash.symm.trans hstep
    obtain ⟨_, _, r', hstep', hr', rfl⟩ := decodeFrom_cons_eq_some_iff.mp hr
    cases hletter.symm.trans hstep'
    refine ⟨out, r', hr', rfl, fun u w hw ↦ ?_⟩
    exact decodeFrom_cons_eq_some_iff.mpr ⟨_, _, _, hslash,
      decodeFrom_cons_eq_some_iff.mpr ⟨_, _, w, hletter, hw, rfl⟩, rfl⟩
  cases s with
  | plain => exact hstart [] rfl
  | backslash => cases hs
  | octal left v =>
    cases hv : CodePoint.ofNat? v with
    | some e => exact hstart [e] (by simp [State.step, digitBelow?, hv])
    | none => simp [decodeFrom, State.step, digitBelow?, hv] at hr
  | hex left v => cases hr
  | unnamed => cases hr
  | name letters =>
    have hnone : decodeFrom (.name (letters ++ [.scalar '\\'])) (.scalar x :: t) = none :=
      decodeFrom_name (x := '\\') (by simp) rfl _
    obtain ⟨_, _, _, hstep, hr, -⟩ := decodeFrom_cons_eq_some_iff.mp hr
    cases hstep
    rw [hnone] at hr
    cases hr

/-- After a backslash, a spelled line break gives a backslash and its letter. -/
theorem decodeFrom_backslash_breakLetter {b x : Char} (h : BreakLetter b x) (t : Text) :
    decodeFrom .backslash (.scalar '\\' :: .scalar x :: t) =
      (decodeFrom .plain t).map fun r ↦ .scalar '\\' :: .scalar x :: r := by
  have hslash : State.step .backslash (.scalar '\\') = some ([.scalar '\\'], .plain) := rfl
  have hletter : State.step .plain (.scalar x) = some ([.scalar x], .plain) := by
    cases h <;> rfl
  cases ht : decodeFrom .plain t <;> simp [decodeFrom, hslash, hletter, ht]

/-- With one backslash more, it gives a backslash and the line break. -/
theorem decodeFrom_backslash_keep {b x : Char} (h : BreakLetter b x) {t r : Text}
    (hr : decodeFrom .plain t = some r) :
    decodeFrom .backslash (.scalar '\\' :: .scalar '\\' :: .scalar x :: t) =
      some (.scalar '\\' :: .scalar b :: r) := by
  have hslash : State.step .backslash (.scalar '\\') = some ([.scalar '\\'], .plain) := rfl
  have hstart : State.step .plain (.scalar '\\') = some ([], .backslash) := rfl
  have hletter : State.step .backslash (.scalar x) = some ([.scalar b], .plain) := by
    cases h <;> rfl
  simp [decodeFrom, hslash, hstart, hletter, hr]

/-! ## Counting -/

/-- Spelling the line breaks loses those that are escaped, and all are kept with the backslashes
before these doubled. -/
theorem count_of_decodeFrom_spellBreaks {b : CodePoint} (hb : b.isBreak = true) {s : State}
    {t r : Text} (h : decodeFrom s (spellBreaks t) = some r) :
    ∃ r₀, decodeFrom s (keepBreaksFrom s.escapes t) = some r₀ ∧ t.count b ≤ r₀.count b ∧
      r.count b + (escapedFrom s.escapes t).count b = r₀.count b := by
  induction t generalizing s r with
  | nil => exact ⟨r, h, by simp, by simp [escapedFrom]⟩
  | cons c t ih =>
    rw [spellBreaks_cons] at h
    rw [keepBreaksFrom]
    cases hc : c.isBreak with
    | false =>
      -- The code point is taken in the same step on both sides.
      rw [spellBreaks_of_not_isBreak hc, List.singleton_append] at h
      rw [spellBreaks_of_not_isBreak hc, Bool.and_false]
      obtain ⟨out, s', r', hstep, hr', rfl⟩ := decodeFrom_cons_eq_some_iff.mp h
      obtain ⟨r₀, hr₀, hle, hcount⟩ := ih hr'
      have hne : c ≠ b := by
        rintro rfl
        rw [hc] at hb
        cases hb
      rw [State.escapes_of_step hstep hr'] at hr₀ hcount
      refine ⟨out ++ r₀, decodeFrom_cons_eq_some_iff.mpr ⟨out, s', r₀, hstep, hr₀, rfl⟩, ?_, ?_⟩
      · rw [List.count_cons_of_ne hne, List.count_append]
        omega
      · rw [count_escapedFrom_cons fun _ ↦ hne, List.count_append, List.count_append]
        omega
    | true =>
      obtain ⟨y, x, rfl, hyx⟩ := exists_breakLetter hc
      rw [hyx.spellBreaks] at h ⊢
      have hslash : (CodePoint.scalar '\\') ≠ b := by
        rintro rfl
        cases hb
      have hx : CodePoint.scalar x ≠ b := by
        rintro rfl
        cases hyx <;> cases hb
      have hy : (CodePoint.scalar y == '\\') = false := by
        cases hyx <;> rfl
      cases hs : s.escapes with
      | false =>
        obtain ⟨out, r', hr', rfl, hsame⟩ := decodeFrom_breakLetter hyx hs h
        obtain ⟨r₀, hr₀, hle, hcount⟩ := ih hr'
        refine ⟨_, hsame _ _ (by simpa [State.escapes, hy] using hr₀), ?_, ?_⟩
        · rw [List.count_append, List.count_cons, List.count_cons]
          omega
        · have hesc : escapedFrom false (.scalar y :: t) = escapedFrom false t := by
            rw [escapedFrom, hy]
          rw [hesc, List.count_append, List.count_append, List.count_cons, List.count_cons]
          simp only [State.escapes] at hcount
          omega
      | true =>
        obtain rfl : s = .backslash := by
          cases s with
          | backslash => rfl
          | _ => cases hs
        obtain ⟨r', hr', rfl⟩ := Option.map_eq_some_iff.mp
          ((decodeFrom_backslash_breakLetter hyx _).symm.trans h)
        obtain ⟨r₀, hr₀, hle, hcount⟩ := ih hr'
        refine ⟨_, decodeFrom_backslash_keep hyx (by simpa [State.escapes] using hr₀), ?_, ?_⟩
        · rw [List.count_cons_of_ne hslash, List.count_cons, List.count_cons]
          omega
        · rw [List.count_cons_of_ne hslash, List.count_cons_of_ne hx, List.count_cons_of_ne hslash,
            escapedFrom, List.count_cons, List.count_cons]
          simp only [State.escapes] at hcount
          omega

theorem count_of_decode_spellBreaks {b : CodePoint} (hb : b.isBreak = true) {t r : Text}
    (h : decode (spellBreaks t) = some r) :
    ∃ r₀, decode (keepBreaks t) = some r₀ ∧ t.count b ≤ r₀.count b ∧
      r.count b + (escaped t).count b = r₀.count b := by
  obtain ⟨hclean, hr⟩ := decode_eq_some_iff.mp h
  rw [← any_isForbidden_keepBreaksFrom false] at hclean
  obtain ⟨r₀, hr₀, hle, hcount⟩ := count_of_decodeFrom_spellBreaks hb hr
  exact ⟨r₀, decode_eq_some_iff.mpr ⟨hclean, hr₀⟩, hle, hcount⟩

end Literal

/-! ## String tokens -/

/-- A string token is a text between quotes. -/
theorem exists_quotes_of_mem_lex {s : Text} {t : Token} (h : t ∈ (lex s).tokens)
    (hk : t.kind = .string) : ∃ u, t.text = .scalar '"' :: (u ++ [.scalar '"']) := by
  obtain ⟨u, rest, -, hlayout, -⟩ := exists_layout_lex s
  obtain ⟨before, after, -, -, hlexeme⟩ := hlayout.exists_split h
  rw [hk] at hlexeme
  generalize t.text = text at hlexeme
  cases hlexeme with
  | @string body _ => exact ⟨body, rfl⟩

open Literal

/-- Raw line breaks between the quotes of a string token are kept, if none of them stands right
after a backslash that is not escaped itself. In general, exactly those that do are lost: with `r₀`
for what the literal would stand for if the backslash were doubled before each of these, which has
all of the breaks, the string that the token stands for has as many line breaks of each kind as
`r₀`, less the escaped ones. -/
theorem raw_breaks_kept [CharacterNames] {s : Text} {t : Token} (ht : t ∈ (lex s).tokens)
    (hk : t.kind = .string) {r : Text} (hr : Literal.read t.text = some r) {b : CodePoint}
    (hb : b.isBreak = true) :
    (b ∉ escaped (body t.text) → (body t.text).count b ≤ r.count b) ∧
    ∃ r₀, decode (keepBreaks (body t.text)) = some r₀ ∧ (body t.text).count b ≤ r₀.count b ∧
      r.count b + (escaped (body t.text)).count b = r₀.count b := by
  obtain ⟨u, hu⟩ := exists_quotes_of_mem_lex ht hk
  have hbody : body t.text = u := by rw [hu, body, List.tail_cons, List.dropLast_concat]
  rw [hu, read_quotes] at hr
  rw [hbody]
  obtain ⟨r₀, hr₀, hle, hcount⟩ := count_of_decode_spellBreaks hb hr
  refine ⟨?_, r₀, hr₀, hle, hcount⟩
  intro hescaped
  rw [List.count_eq_zero_of_not_mem hescaped] at hcount
  omega

/-- The table that names the bullet only. -/
abbrev bullet : CharacterNames where
  find? name := if name = "BULLET" then some '•' else none
  ne_nil {name _} h := by
    rintro rfl
    cases h
  isNameLetter {name _} h := by
    split at h
    next hname =>
      subst hname
      decide
    next => cases h

/-- A carriage return after a character given by its name and an escaped backslash is kept, and a
line feed after a backslash that is not escaped is lost. -/
theorem raw_breaks_kept_after_escape :
    letI := bullet
    ∃ t ∈ (lex "\"\\N\x7bBULLET\x7d\\\\\r\\\n\"").tokens, t.kind = .string ∧
      Literal.read t.text = some "•\\\r\\n" ∧ escaped (body t.text) = "N\\\n" ∧
      (body t.text).count (.scalar '\r') ≤ (Text.ofString "•\\\r\\n").count (.scalar '\r') ∧
      ∃ r₀, decode (keepBreaks (body t.text)) = some r₀ ∧
        (body t.text).count (.scalar '\n') ≤ r₀.count (.scalar '\n') ∧
        (Text.ofString "•\\\r\\n").count (.scalar '\n') +
          (escaped (body t.text)).count (.scalar '\n') = r₀.count (.scalar '\n') := by
  let _ := bullet
  have ht : (⟨.string, "\"\\N\x7bBULLET\x7d\\\\\r\\\n\"", 0⟩ : Token) ∈
      (lex "\"\\N\x7bBULLET\x7d\\\\\r\\\n\"").tokens := by decide
  have hread : Literal.read "\"\\N\x7bBULLET\x7d\\\\\r\\\n\"" = some "•\\\r\\n" := by decide
  refine ⟨_, ht, rfl, hread, by decide, ?_, ?_⟩
  · exact (raw_breaks_kept ht rfl hread rfl).1 (by decide)
  · exact (raw_breaks_kept ht rfl hread rfl).2

open scoped CharacterNames

/-- A line feed after a backslash is lost. -/
theorem escaped_break_lost :
    ¬ ∀ (s : Text) (t : Token) (r : Text), t ∈ (lex s).tokens → t.kind = .string →
      Literal.read t.text = some r → ∀ b : CodePoint, b.isBreak = true →
        (body t.text).count b ≤ r.count b := by
  intro h
  have hcount := h "\"\\\n\"" ⟨.string, "\"\\\n\"", 0⟩ "\\n" (by decide) rfl (by decide) '\n' rfl
  exact absurd hcount (by decide)

end Fexpr
