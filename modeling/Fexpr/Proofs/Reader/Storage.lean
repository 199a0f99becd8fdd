import Fexpr.Files
import Fexpr.Proofs.Reader.RoundTrip

/-!
# Data kept in source files

The text of a datum is stored in a file and read back from it. The file keeps all of the text but
its line ends. What becomes of these is followed through the reader:

* no line feed stands in the text of a datum (`Datum.Legible.lineFeed_notMem_render`), so that each
  carriage return comes back as a line feed (`Files.unifyBreaks_eq_map`);
* carriage returns stand in strings only, so that the text comes back with the same tokens but for
  the literals of strings (`Datum.lex_unify`);
* a raw line feed in a literal is read as one (`Literal.read_quoted_unify`), so that these tokens
  spell the datum with line feeds for the carriage returns in its strings (`Derives.mapStrings`).
-/

namespace Fexpr

/-! ## Text in files -/

/-- The character of a code point; a surrogate has none. -/
def CodePoint.char? : CodePoint → Option Char
  | scalar c => some c
  | surrogate _ => none

/-- The bytes of a text in UTF-8; there are none if a surrogate is in it. -/
def Text.utf8? (t : Text) : Option ByteArray :=
  (t.mapM CodePoint.char?).map fun cs ↦ (String.ofList cs).toUTF8

theorem Text.mapM_char?_ofChars (cs : List Char) : (ofChars cs).mapM CodePoint.char? = some cs := by
  induction cs with
  | nil => rfl
  | cons c cs ih => simp [List.mapM_cons, ih, CodePoint.char?]

theorem Text.utf8?_ofString (s : String) : (ofString s).utf8? = some s.toUTF8 := by
  rw [utf8?, ofString, mapM_char?_ofChars, Option.map_some, String.ofList_toList]

theorem Text.exists_ofString {t : Text} (h : ∀ c ∈ t, c.isSurrogate = false) :
    ∃ s : String, ofString s = t := by
  suffices hchars : ∃ cs : List Char, ofChars cs = t by
    obtain ⟨cs, rfl⟩ := hchars
    exact ⟨String.ofList cs, by rw [ofString, String.toList_ofList]⟩
  induction t with
  | nil => exact ⟨[], rfl⟩
  | cons c t ih =>
    obtain ⟨cs, rfl⟩ := ih fun d hd ↦ h d (List.mem_cons_of_mem _ hd)
    cases c with
    | scalar c => exact ⟨c :: cs, rfl⟩
    | surrogate i => exact absurd (h (.surrogate i) List.mem_cons_self) (by simp)

namespace Files

/-- What a code point of a text without line feeds comes back as. -/
def unify (c : CodePoint) : CodePoint := if c = '\r' then '\n' else c

theorem unify_of_ne {c : CodePoint} (h : c ≠ '\r') : unify c = c := if_neg h

theorem map_unify_eq_self_iff {t : Text} : t.map unify = t ↔ .scalar '\r' ∉ t := by
  induction t with
  | nil => simp
  | cons c t ih =>
    by_cases hc : c = '\r'
    · subst hc
      simp [unify]
    · simp [unify_of_ne hc, ih, Ne.symm hc]

/-- Without line feeds, no carriage return is the first half of a line end. -/
theorem unifyBreaks_eq_map {t : Text} (h : .scalar '\n' ∉ t) : unifyBreaks t = t.map unify := by
  fun_induction unifyBreaks t with
  | case1 => rfl
  | case2 cs ih => simp at h
  | case3 cs hcs ih => simp_all [unify]
  | case4 c cs hcrlf hcr ih => simp_all [unify]

/-- Strict decoding gives back the text of which the bytes are, with unified line ends. -/
theorem decode_toUTF8 (s : String) : decode s.toUTF8 = some (unifyBreaks (.ofString s)) := by
  have hvalid : String.fromUTF8? s.toUTF8 = some s := by
    rw [String.fromUTF8?, String.toUTF8_eq_toByteArray, dif_pos s.isValidUTF8]
    rfl
  rw [decode, hvalid, Option.map_some]

theorem read_of_find {fs : Files} {p : Path} {s : String} (h : fs.find p = .ok (.file s.toUTF8)) :
    fs.read p = .ok (unifyBreaks (.ofString s)) := by
  rw [read, h]
  simp only [decode_toUTF8]

end Files

/-! ## The text of a datum in a file -/

namespace Datum

/-- The names of the symbols in a datum, in the order in which they are written. -/
def symbols : Datum → List Text
  | symbol s => [s]
  | pair h t => h.symbols ++ t.symbols
  | _ => []

/-- A datum with its strings changed. -/
def mapStrings (f : Text → Text) : Datum → Datum
  | str t => str (f t)
  | pair h t => pair (h.mapStrings f) (t.mapStrings f)
  | d => d

theorem mapStrings_chain (f : Text → Text) (items : List Datum) (tail : Datum) :
    (chain items tail).mapStrings f = chain (items.map (mapStrings f)) (tail.mapStrings f) := by
  induction items with
  | nil => rfl
  | cons d items ih => rw [chain_cons, mapStrings, ih, List.map_cons, chain_cons]

theorem mapStrings_eq_self_iff {f : Text → Text} {d : Datum} :
    d.mapStrings f = d ↔ ∀ t ∈ d.strings, f t = t := by
  induction d with
  | str t => simp [mapStrings, strings]
  | pair hd tl ihh iht => simp [mapStrings, strings, ihh, iht, or_imp, forall_and]
  | _ => simp [mapStrings, strings]

section Write

variable {P : CodePoint → Prop} (hP : ∀ x : Char, x ≠ '\n' → P x)

include hP

theorem forall_mem_atom {t : Text} (ht : ∀ c ∈ t, P c) (inTail isNil : Bool) :
    ∀ c ∈ atom inTail t isNil, P c := by
  rw [atom]
  split_ifs
  · simp [hP]
  · simpa [hP, or_imp, forall_and] using ht
  · exact ht

theorem forall_mem_quoted {t : Text} (ht : ∀ c ∈ t, c ≠ '\n' → P c) : ∀ c ∈ quoted t, P c := by
  have hitem : ∀ x ∈ t, ∀ c ∈ quotedItem x, P c := by
    intro x hx
    rw [quotedItem]
    split_ifs with hb hq hn
    · simp [hP]
    · simp [hP]
    · simp [hP]
    · simpa using ht x hx hn
  intro c hc
  simp only [quoted, List.mem_cons, List.mem_append, List.mem_flatMap, List.not_mem_nil,
    or_false] at hc
  rcases hc with rfl | ⟨x, hx, hc⟩ | rfl
  · exact hP '"' (by decide)
  · exact hitem x hx c hc
  · exact hP '"' (by decide)

/-- A property of all characters but the line feed holds of all code points that are written, if in
strings and symbols it holds of all but the line feed. -/
theorem Legible.forall_mem_write {d : Datum} (h : d.Legible)
    (hstrings : ∀ t ∈ d.strings, ∀ c ∈ t, c ≠ '\n' → P c)
    (hsymbols : ∀ t ∈ d.symbols, ∀ c ∈ t, c ≠ '\n' → P c) (inTail : Bool) :
    ∀ c ∈ d.write inTail, P c := by
  have hsymbol {t : Text} (ht : IsSymbolText t) (hall : ∀ c ∈ t, c ≠ '\n' → P c) :
      ∀ c ∈ t, P c := by
    intro c hc
    refine hall c hc ?_
    rintro rfl
    exact absurd (ht.2.1 _ hc) (by decide)
  induction d generalizing inTail with
  | nil => exact forall_mem_atom hP (by simp [hP]) inTail true
  | int n =>
    refine forall_mem_atom hP (hsymbol (isSymbolText_ofInt n) ?_) inTail false
    intro c hc hne
    rcases mem_ofInt hc with rfl | ⟨x, hx, rfl⟩
    · exact hP '-' (by decide)
    · exact hP x (by simpa using hne)
  | float x => exact h.elim
  | str t =>
    exact forall_mem_atom hP (forall_mem_quoted hP (hstrings t (by simp [strings]))) inTail false
  | symbol s => exact forall_mem_atom hP (hsymbol h.1 (hsymbols s (by simp [symbols]))) inTail false
  | pair hd tl ihh iht =>
    have hhead := ihh h.1 (fun t ht ↦ hstrings t (List.mem_append_left _ ht))
      (fun t ht ↦ hsymbols t (List.mem_append_left _ ht)) false
    have htail := iht h.2 (fun t ht ↦ hstrings t (List.mem_append_right _ ht))
      (fun t ht ↦ hsymbols t (List.mem_append_right _ ht)) true
    intro c hc
    rcases List.mem_cons.mp hc with rfl | hc
    · cases inTail with
      | false => exact hP '(' (by decide)
      | true => exact hP ' ' (by decide)
    · rcases List.mem_append.mp hc with hc | hc
      · exact hhead c hc
      · exact htail c hc

end Write

theorem Legible.lineFeed_notMem_render {d : Datum} (h : d.Legible) : .scalar '\n' ∉ d.render := by
  intro hmem
  have hall := h.forall_mem_write (P := fun c ↦ c ≠ '\n') (by simp) (fun _ _ _ _ hc ↦ hc)
    (fun _ _ _ _ hc ↦ hc) false
  exact hall _ hmem rfl

end Datum

/-- A token of a text whose carriage returns have come back as line feeds. -/
def Token.unify (t : Token) : Token := { t with text := t.text.map Files.unify }

theorem isDelimiter_unify (c : CodePoint) : (Files.unify c).isDelimiter = c.isDelimiter := by
  by_cases hc : c = '\r'
  · subst hc
    rfl
  · rw [Files.unify_of_ne hc]

theorem IsSymbolText.map_unify {t : Text} (h : IsSymbolText t) : t.map Files.unify = t := by
  apply Files.map_unify_eq_self_iff.mpr
  intro hmem
  exact absurd (h.2.1 _ hmem) (by decide)

theorem IsStringBody.map_unify {t : Text} (h : IsStringBody t) :
    IsStringBody (t.map Files.unify) := by
  induction h with
  | nil => exact .nil
  | escape _ ih => exact .escape ih
  | @plain c t hslash hquote _ ih =>
    by_cases hc : c = '\r'
    · subst hc
      exact .plain (by decide) (by decide) ih
    · rw [List.map_cons, Files.unify_of_ne hc]
      exact .plain hslash hquote ih

namespace Datum

theorem map_unify_quoted (t : Text) : (quoted t).map Files.unify =
    .scalar '"' :: ((t.flatMap quotedItem).map Files.unify ++ [.scalar '"']) := by
  simp [quoted, Files.unify]

theorem lexes_quoted_unify (t : Text) :
    Lexes ((quoted t).map Files.unify) fun p ↦ [⟨.string, (quoted t).map Files.unify, p⟩] := by
  rw [map_unify_quoted]
  exact lexes_string (isStringBody_quotedItems t).map_unify

theorem lexes_atom_unify {t : Text} {kind : TokenKind}
    (h : Lexes (t.map Files.unify) fun p ↦ [⟨kind, t.map Files.unify, p⟩]) (inTail : Bool) :
    Lexes ((atom inTail t false).map Files.unify) fun p ↦
      (atomTokens inTail kind t p).map Token.unify := by
  have htext : (atom inTail t false).map Files.unify = atom inTail (t.map Files.unify) false := by
    cases inTail <;> simp [atom, Files.unify]
  have htokens : (fun p ↦ (atomTokens inTail kind t p).map Token.unify) =
      atomTokens inTail kind (t.map Files.unify) := by
    funext p
    cases inTail <;> simp [atomTokens, Token.unify, Files.unify]
  rw [htext, htokens]
  exact lexes_atom h inTail

/-- The text of a legible datum comes back with the tokens of the datum, up to line ends. -/
theorem lexes_write_unify {d : Datum} (h : d.Legible) (inTail : Bool) :
    Lexes ((d.write inTail).map Files.unify) fun p ↦ (d.tokens inTail p).map Token.unify := by
  have hsymbol {t : Text} (ht : IsSymbolText t) :
      Lexes (t.map Files.unify) fun p ↦ [⟨.symbol, t.map Files.unify, p⟩] := by
    rw [ht.map_unify]
    exact lexes_symbol ht
  induction d generalizing inTail with
  | nil =>
    cases inTail with
    | true => exact lexes_closing
    | false => exact lexes_closing.opening
  | int n => exact lexes_atom_unify (hsymbol (isSymbolText_ofInt n)) inTail
  | float x => exact h.elim
  | str t => exact lexes_atom_unify (lexes_quoted_unify t) inTail
  | symbol s => exact lexes_atom_unify (hsymbol h.1) inTail
  | pair hd tl ihh iht =>
    obtain ⟨c, u, hcu, hc⟩ := write_true_cons tl
    have hunified : (tl.write true).map Files.unify = Files.unify c :: u.map Files.unify := by
      rw [hcu, List.map_cons]
    have hboth := (ihh h.1 false).append (iht h.2 true) hunified (by rw [isDelimiter_unify, hc])
    cases inTail with
    | true => simpa [write, tokens, Files.unify] using hboth.blank
    | false => simpa [write, tokens, Files.unify, Token.unify] using hboth.opening

/-- Lexing the text of a legible datum that comes back from a file. -/
theorem lex_unify {d : Datum} (h : d.Legible) :
    lex (d.render.map Files.unify) = ⟨(d.tokens false 0).map Token.unify, none⟩ :=
  (lexes_write_unify h false).lex_eq

theorem mem_atomTokens {inTail : Bool} {kind : TokenKind} {u : Text} {p : Nat} {t : Token}
    (h : t ∈ atomTokens inTail kind u p) (hk : t.kind = .string) : kind = .string ∧ t.text = u := by
  cases inTail with
  | false =>
    obtain rfl := List.mem_singleton.mp h
    exact ⟨hk, rfl⟩
  | true =>
    simp only [atomTokens, if_true, List.mem_cons, List.not_mem_nil, or_false] at h
    rcases h with rfl | rfl | rfl
    · cases hk
    · exact ⟨hk, rfl⟩
    · cases hk

/-- The string tokens of a datum are its strings between quotes. -/
theorem exists_string_of_mem_tokens {d : Datum} {inTail : Bool} {p : Nat} {t : Token}
    (h : t ∈ d.tokens inTail p) (hk : t.kind = .string) : ∃ s ∈ d.strings, t.text = quoted s := by
  induction d generalizing inTail p with
  | nil =>
    cases inTail with
    | true =>
      obtain rfl := List.mem_singleton.mp h
      cases hk
    | false =>
      simp only [tokens, List.mem_cons, List.not_mem_nil, or_false] at h
      rcases h with rfl | rfl <;> cases hk
  | str s => exact ⟨s, by simp [strings], (mem_atomTokens h hk).2⟩
  | pair hd tl ihh iht =>
    have hrest : t ∈ hd.tokens false (p + 1) ∨
      t ∈ tl.tokens true (p + 1 + (hd.write false).length) := by
      rcases List.mem_append.mp h with h | h
      · cases inTail with
        | true => cases h
        | false =>
          obtain rfl := List.mem_singleton.mp h
          cases hk
      · exact List.mem_append.mp h
    rcases hrest with h | h
    · obtain ⟨s, hs, hs'⟩ := ihh h
      exact ⟨s, List.mem_append_left _ hs, hs'⟩
    · obtain ⟨s, hs, hs'⟩ := iht h
      exact ⟨s, List.mem_append_right _ hs, hs'⟩
  | _ => cases (mem_atomTokens h hk).1

end Datum

/-! ## Reading it back -/

namespace Literal

/-- A carriage return between quotes that has come back as a line feed is read as one. -/
theorem read_quoted_unify [CharacterNames] (t : Text) :
    read ((Datum.quoted t).map Files.unify) = read (Datum.quoted (t.map Files.unify)) := by
  have hitem : ∀ c, spellBreaks ((Datum.quotedItem c).map Files.unify) =
      spellBreaks (Datum.quotedItem (Files.unify c)) := by
    intro c
    by_cases hc : c = '\r'
    · subst hc
      rfl
    · have hmem : .scalar '\r' ∉ Datum.quotedItem c := by
        rw [Datum.quotedItem]
        split_ifs <;> simp [Ne.symm hc]
      rw [Files.map_unify_eq_self_iff.mpr hmem, Files.unify_of_ne hc]
  have hitems : spellBreaks ((t.flatMap Datum.quotedItem).map Files.unify) =
      spellBreaks ((t.map Files.unify).flatMap Datum.quotedItem) := by
    induction t with
    | nil => rfl
    | cons c t ih =>
      rw [List.flatMap_cons, List.map_append, spellBreaks_append, ih, hitem, List.map_cons,
        List.flatMap_cons, spellBreaks_append]
  rw [Datum.map_unify_quoted, read_quotes, hitems, ← read_quotes, Datum.quoted]

theorem any_isForbidden_unify (t : Text) :
    (t.map Files.unify).any isForbidden = t.any isForbidden := by
  have hone : isForbidden ∘ Files.unify = isForbidden := by
    funext c
    by_cases hc : c = '\r'
    · subst hc
      rfl
    · rw [Function.comp_apply, Files.unify_of_ne hc]
  rw [List.any_map, hone]

end Literal

/-- `Respells f g t`: `g` changes nothing but the literal of a string token `t`, and this as `f`
changes the string. -/
structure Respells [CharacterNames] (f : Text → Text) (g : Token → Token) (t : Token) : Prop where
  kind : (g t).kind = t.kind
  symbol : t.kind = .symbol → (g t).text = t.text
  string : t.kind = .string → ∀ s, Literal.read t.text = some s →
    Literal.read (g t).text = some (f s)

section Respelling

variable {f : Text → Text} {g : Token → Token}

theorem Respells.isDot [CharacterNames] {t : Token} (h : Respells f g t) (hk : t.kind = .symbol) :
    (g t).isDot = t.isDot := by
  rw [Token.isDot, h.kind, h.symbol hk, Token.isDot]

/-- A segment with respelled strings. -/
def Segment.respell (f : Text → Text) (g : Token → Token) : Segment → Segment :=
  Prod.map (List.map g) (Datum.mapStrings f)

theorem map_flatMap_fst (parts : List Segment) :
    (parts.flatMap Prod.fst).map g = (parts.map (Segment.respell f g)).flatMap Prod.fst := by
  simp [Segment.respell, List.map_flatMap, List.flatMap_map]

theorem map_map_snd (parts : List Segment) :
    (parts.map Prod.snd).map (Datum.mapStrings f) =
      (parts.map (Segment.respell f g)).map Prod.snd := by
  simp [Segment.respell]

theorem derives_of_mem_respell [CharacterNames] {parts : List Segment}
    (h : ∀ p ∈ parts, (∀ t ∈ p.1, Respells f g t) → Derives (p.1.map g) (p.2.mapStrings f))
    (hg : ∀ t ∈ parts.flatMap Prod.fst, Respells f g t) :
    ∀ p ∈ parts.map (Segment.respell f g), Derives p.1 p.2 := by
  intro p hp
  obtain ⟨q, hq, rfl⟩ := List.mem_map.mp hp
  apply h q hq
  intro t ht
  exact hg t (List.mem_flatMap.mpr ⟨q, hq, ht⟩)

/-- Tokens with respelled strings spell the expression with changed strings. -/
theorem Derives.mapStrings [CharacterNames] {ts : List Token} {d : Datum} (h : Derives ts d)
    (hg : ∀ t ∈ ts, Respells f g t) : Derives (ts.map g) (d.mapStrings f) := by
  induction h with
  | @atom t d hk hdot ha =>
    have ht := hg t List.mem_cons_self
    have hd : d.mapStrings f = d := by
      rcases Reader.atom_cases ha with ⟨n, rfl⟩ | ⟨x, rfl⟩ | ⟨name, rfl⟩ <;> rfl
    rw [hd]
    exact .atom (ht.kind.trans hk) ((ht.isDot hk).trans hdot) (ht.symbol hk ▸ ha)
  | @string t s hk hs =>
    have ht := hg t List.mem_cons_self
    exact .string (ht.kind.trans hk) (ht.string hk s hs)
  | @list o c parts ho hc _ ih =>
    rw [List.map_cons, List.map_append, map_flatMap_fst (f := f), Datum.ofList,
      Datum.mapStrings_chain, map_map_snd (g := g)]
    refine .list ((hg o (by simp)).kind.trans ho) ((hg c (by simp)).kind.trans hc) ?_
    apply derives_of_mem_respell ih
    intro t ht
    exact hg t (List.mem_cons_of_mem _ (List.mem_append_left _ ht))
  | @dotted o t c parts us d ho ht hc hne _ _ ihs ih =>
    have hdot := Token.kind_of_isDot ht
    rw [List.map_cons, List.map_append, map_flatMap_fst (f := f), List.map_cons, List.map_append,
      Datum.mapStrings_chain, map_map_snd (g := g)]
    refine .dotted ((hg o (by simp)).kind.trans ho) (((hg t (by simp)).isDot hdot).trans ht)
      ((hg c (by simp)).kind.trans hc) (by simpa using hne) ?_ (ih fun u hu ↦ hg u (by simp [hu]))
    apply derives_of_mem_respell ihs
    intro u hu
    exact hg u (List.mem_cons_of_mem _ (List.mem_append_left _ hu))

end Respelling

/-- The text of a legible datum that comes back from a file is read as the datum with its carriage
returns turned into line feeds. -/
theorem readOne_unify [CharacterNames] {d : Datum} (h : d.Legible)
    (hs : ∀ t ∈ d.strings, t.any Literal.isForbidden = false) :
    readOne (d.render.map Files.unify) = .ok (d.mapStrings (List.map Files.unify)) := by
  have hlex := Datum.lex_render h
  have hderives := ((readOne_eq_ok_iff _ _).mp (h.readOne hs)).2
  rw [hlex] at hderives
  have hrespells : ∀ t ∈ d.tokens false 0, Respells (List.map Files.unify) Token.unify t := by
    intro t ht
    refine ⟨rfl, ?_, ?_⟩
    · intro hk
      have hmem : t ∈ (lex d.render).tokens := by rwa [hlex]
      exact (isSymbolText_of_mem_lex hmem hk).map_unify
    · intro hk s hread
      obtain ⟨u, hu, htext⟩ := Datum.exists_string_of_mem_tokens ht hk
      rw [htext, Literal.read_quoted, hs u hu] at hread
      obtain rfl : u = s := by simpa using hread
      rw [Token.unify, htext, Literal.read_quoted_unify, Literal.read_quoted,
        Literal.any_isForbidden_unify, hs u hu]
      rfl
  refine (readOne_eq_ok_iff _ _).mpr ?_
  rw [Datum.lex_unify h]
  exact ⟨rfl, hderives.mapStrings hrespells⟩

/-- Everything that is read can be stored in a file as it is written, unless a float is in it, a
surrogate, or a string that holds NUL. From the file exactly one expression is read: the one stored,
with each carriage return in its strings turned into a line feed. So it is the one stored if and
only if no string in it holds a carriage return. -/
theorem readAll_stored [CharacterNames] {s : Text} {d : Datum} (h : readOne s = .ok d)
    (hf : d.hasFloat = false)
    (hstrings : ∀ t ∈ d.strings, ∀ c ∈ t, c ≠ '\x00' ∧ c.isSurrogate = false)
    (hsymbols : ∀ t ∈ d.symbols, ∀ c ∈ t, c.isSurrogate = false) :
    ∃ bytes, d.render.utf8? = some bytes ∧
      ∀ (fs : Files) (p : Path), fs.find p = .ok (.file bytes) →
        ∃ u, fs.read p = .ok u ∧ (readAll u).failure = none ∧
          (readAll u).data = [d.mapStrings (List.map Files.unify)] ∧
          ((readAll u).data = [d] ↔ ∀ t ∈ d.strings, .scalar '\r' ∉ t) := by
  obtain ⟨-, hd⟩ := (readOne_eq_ok_iff s d).mp h
  have hlegible := hd.legible (fun t ht hk ↦ isSymbolText_of_mem_lex ht hk) hf
  have hclean : ∀ t ∈ d.strings, t.any Literal.isForbidden = false := by
    intro t ht
    exact any_isForbidden_eq_false (hstrings t ht)
  have hscalar : ∀ c ∈ d.render, c.isSurrogate = false :=
    hlegible.forall_mem_write (P := fun c ↦ c.isSurrogate = false) (fun _ _ ↦ rfl)
      (fun t ht c hc _ ↦ (hstrings t ht c hc).2) (fun t ht c hc _ ↦ hsymbols t ht c hc) false
  obtain ⟨str, hstr⟩ := Text.exists_ofString hscalar
  refine ⟨str.toUTF8, by rw [← hstr, Text.utf8?_ofString], ?_⟩
  intro fs p hp
  have hread := Files.read_of_find hp
  rw [hstr, Files.unifyBreaks_eq_map hlegible.lineFeed_notMem_render] at hread
  obtain ⟨hdata, hfailure⟩ := (readOne_eq_ok_iff_readAll _ _).mp (readOne_unify hlegible hclean)
  refine ⟨_, hread, hfailure, hdata, ?_⟩
  rw [hdata, List.singleton_inj, Datum.mapStrings_eq_self_iff]
  simp only [Files.map_unify_eq_self_iff]

open scoped CharacterNames

/-- A carriage return in a string comes back as a line feed, wherever the string stands. -/
theorem readAll_stored_carriage_return :
    readOne "(a . \"x\\ry\")" = .ok (.pair (.symbol "a") (.str "x\ry")) ∧
    ∃ bytes, (Datum.pair (.symbol "a") (.str "x\ry")).render.utf8? = some bytes ∧
      ∃ u, Files.read ⟨[(["stored"], .file bytes)]⟩ ⟨0, ["stored"]⟩ = .ok u ∧
        (readAll u).failure = none ∧
        (readAll u).data = [.pair (.symbol "a") (.str "x\ny")] := by
  have hread : readOne "(a . \"x\\ry\")" = .ok (.pair (.symbol "a") (.str "x\ry")) := by decide
  obtain ⟨bytes, hbytes, hstored⟩ := readAll_stored hread rfl (by decide) (by decide)
  obtain ⟨u, hu, hfailure, hdata, -⟩ :=
    hstored ⟨[(["stored"], .file bytes)]⟩ ⟨0, ["stored"]⟩ rfl
  exact ⟨hread, bytes, hbytes, u, hu, hfailure, hdata⟩

/-- A string that is a carriage return does not come back from a file. -/
theorem carriage_return_changed_in_file :
    ¬ ∀ (s : Text) (d : Datum) (bytes : ByteArray) (fs : Files) (p : Path) (u : Text),
      readOne s = .ok d → d.hasFloat = false →
      (∀ t ∈ d.strings, ∀ c ∈ t, c ≠ '\x00' ∧ c.isSurrogate = false) →
      (∀ t ∈ d.symbols, ∀ c ∈ t, c.isSurrogate = false) →
      d.render.utf8? = some bytes → fs.find p = .ok (.file bytes) → fs.read p = .ok u →
      (readAll u).data = [d] := by
  intro h
  have hfind : Files.find ⟨[(["stored"], .file (String.toUTF8 "\"\r\""))]⟩ ⟨0, ["stored"]⟩ =
      .ok (.file (String.toUTF8 "\"\r\"")) := rfl
  have hdata := h "\"\\r\"" (.str "\r") _ _ _ _ (by decide) rfl (by decide) (by decide)
    (Text.utf8?_ofString "\"\r\"") hfind (Files.read_of_find hfind)
  exact absurd hdata (by decide)

end Fexpr
