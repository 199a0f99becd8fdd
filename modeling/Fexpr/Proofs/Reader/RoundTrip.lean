import Fexpr.Proofs.Reader.Atoms
import Fexpr.Proofs.Reader.Grammar
import Fexpr.Proofs.Token.Layout

/-!
# Reading what is written

The text of a datum is read as that datum. Three facts meet here:

* the text of a datum is lexed into the tokens that `Datum.tokens` lists (`Datum.lex_render`);
* from these the reader takes the datum (`Datum.takes_tokens`), unless a string in it holds a code
  point that may not stand in a literal: then it stops at the first such string
  (`Datum.stops_tokens`);
* everything that is read can be written so (`Derives.legible`).

Floats are left out: their text is the shortest one that is nearest to them.
-/

namespace Fexpr

namespace Datum

/-- Whether a float stands in a datum. -/
def hasFloat : Datum → Bool
  | float _ => true
  | pair h t => h.hasFloat || t.hasFloat
  | _ => false

/-- The strings in a datum, in the order in which they are written. -/
def strings : Datum → List Text
  | str t => [t]
  | pair h t => h.strings ++ t.strings
  | _ => []

/-- A datum without floats whose atoms are read back: integers are not too long, and a symbol has a
text that is neither a dot nor a numeral. -/
def Legible : Datum → Prop
  | nil | str _ => True
  | int n => n.natAbs < 10 ^ Digit.limit
  | float _ => False
  | symbol s => IsSymbolText s ∧ s ≠ [.scalar '.'] ∧ Reader.atom s = .ok (.symbol s)
  | pair h t => h.Legible ∧ t.Legible

theorem legible_chain {items : List Datum} {tail : Datum} (hitems : ∀ d ∈ items, d.Legible)
    (htail : tail.Legible) : (chain items tail).Legible := by
  induction items with
  | nil => exact htail
  | cons d items ih => exact ⟨hitems d (by simp), ih fun e he ↦ hitems e (by simp [he])⟩

theorem hasFloat_chain {items : List Datum} {tail : Datum}
    (h : (chain items tail).hasFloat = false) :
    (∀ d ∈ items, d.hasFloat = false) ∧ tail.hasFloat = false := by
  induction items with
  | nil => exact ⟨by simp, h⟩
  | cons d items ih =>
    obtain ⟨hd, hrest⟩ := Bool.or_eq_false_iff.mp h
    obtain ⟨hitems, htail⟩ := ih hrest
    refine ⟨?_, htail⟩
    intro e he
    rcases List.mem_cons.mp he with rfl | he
    · exact hd
    · exact hitems e he

end Datum

/-- What is read is legible, if no float is in it and the symbol tokens have the text of symbols. -/
theorem Derives.legible [CharacterNames] {ts : List Token} {d : Datum} (h : Derives ts d)
    (hts : ∀ t ∈ ts, t.kind = .symbol → IsSymbolText t.text) (hf : d.hasFloat = false) :
    d.Legible := by
  induction h with
  | @atom t d hk hdot ha =>
    rcases Reader.atom_cases ha with ⟨n, rfl⟩ | ⟨x, rfl⟩ | ⟨name, rfl⟩
    · exact Reader.natAbs_lt_of_atom ha
    · exact absurd hf (by simp [Datum.hasFloat])
    · obtain rfl := Reader.eq_of_atom_symbol ha
      refine ⟨hts t (by simp) hk, ?_, ha⟩
      intro he
      simp [Token.isDot, hk, he] at hdot
  | string => trivial
  | @list o c parts ho hc _ ih =>
    obtain ⟨hitems, -⟩ := Datum.hasFloat_chain hf
    refine Datum.legible_chain ?_ trivial
    intro e he
    obtain ⟨p, hp, rfl⟩ := List.mem_map.mp he
    refine ih p hp (fun t ht hk ↦ hts t ?_ hk) (hitems _ he)
    exact List.mem_cons_of_mem _ (List.mem_append_left _ (List.mem_flatMap.mpr ⟨p, hp, ht⟩))
  | @dotted o t c parts us d ho ht hc hne _ _ ihs ih =>
    obtain ⟨hitems, htail⟩ := Datum.hasFloat_chain hf
    refine Datum.legible_chain ?_ (ih (fun t ht ↦ hts t (by simp [ht])) htail)
    intro e he
    obtain ⟨p, hp, rfl⟩ := List.mem_map.mp he
    refine ihs p hp (fun t ht hk ↦ hts t ?_ hk) (hitems _ he)
    exact List.mem_cons_of_mem _ (List.mem_append_left _ (List.mem_flatMap.mpr ⟨p, hp, ht⟩))

namespace Datum

/-! ## The tokens of the text of a datum -/

/-- The tokens of an atom at `p`, or with `inTail` of what ends the list whose tail it is. -/
def atomTokens (inTail : Bool) (kind : TokenKind) (t : Text) (p : Nat) : List Token :=
  if inTail then
    [⟨.symbol, ['.'], p + 1⟩, ⟨kind, t, p + 3⟩, ⟨.closing, [')'], p + 3 + t.length⟩]
  else [⟨kind, t, p⟩]

/-- The tokens of what is written for a datum from position `p` on. -/
def tokens : Datum → Bool → Nat → List Token
  | pair h t, inTail, p =>
    (if inTail then [] else [⟨.opening, ['('], p⟩]) ++
      (h.tokens false (p + 1) ++ t.tokens true (p + 1 + (h.write false).length))
  | nil, true, p => [⟨.closing, [')'], p⟩]
  | nil, false, p => [⟨.opening, ['('], p⟩, ⟨.closing, [')'], p + 1⟩]
  | int n, inTail, p => atomTokens inTail .symbol (.ofInt n) p
  | float x, inTail, p => atomTokens inTail .symbol x.toText p
  | str t, inTail, p => atomTokens inTail .string (quoted t) p
  | symbol s, inTail, p => atomTokens inTail .symbol s p

theorem tokens_pair_true (h t : Datum) (p : Nat) : (pair h t).tokens true p =
    h.tokens false (p + 1) ++ t.tokens true (p + 1 + (h.write false).length) := rfl

/-- `Lexes t make`: between tokens, and up to a symbol held back, the scanner goes over `t` and
gives out the tokens that `make` lists for its position. -/
def Lexes (t : Text) (make : Nat → List Token) : Prop :=
  ∀ p ts, (Lexer.Scanner.run ⟨p, .gap, ts⟩ t).flush =
    ⟨p + t.length, .gap, (make p).reverse ++ ts⟩

open Lexer.Scanner

/-- At the end of the text nothing is held back. -/
theorem Lexes.lex_eq {t : Text} {make : Nat → List Token} (h : Lexes t make) :
    lex t = ⟨make 0, none⟩ := by
  rw [lex, ← finish_flush, show Lexer.Scanner.start = ⟨0, .gap, []⟩ from rfl, h 0 []]
  simp [finish]

/-- A delimiter parts what comes before it from the rest. -/
theorem Lexes.append {t u : Text} {make make' : Nat → List Token} (ht : Lexes t make)
    (hu : Lexes u make') {c : CodePoint} {v : Text} (hcu : u = c :: v)
    (hc : c.isDelimiter = true) :
    Lexes (t ++ u) fun p ↦ make p ++ make' (p + t.length) := by
  intro p ts
  subst hcu
  rw [run_append, run_delimiter _ hc, ht p ts, hu]
  simp [Nat.add_assoc]

theorem lexes_symbol {t : Text} (h : IsSymbolText t) : Lexes t fun p ↦ [⟨.symbol, t, p⟩] := by
  intro p ts
  exact flush_run_symbol h p ts

theorem lexes_closing : Lexes [.scalar ')'] fun p ↦ [⟨.closing, [')'], p⟩] := by
  intro p ts
  rw [run_cons, run_nil, step_gap_closing]
  rfl

/-- A blank before it only moves a text. -/
theorem Lexes.blank {t : Text} {make : Nat → List Token} (h : Lexes t make) :
    Lexes (.scalar ' ' :: t) fun p ↦ make (p + 1) := by
  intro p ts
  rw [run_cons, step_gap_blank (by decide), h]
  simp [Nat.add_comm, Nat.add_left_comm]

theorem Lexes.opening {t : Text} {make : Nat → List Token} (h : Lexes t make) :
    Lexes (.scalar '(' :: t) fun p ↦ ⟨.opening, ['('], p⟩ :: make (p + 1) := by
  intro p ts
  rw [run_cons, step_gap_opening, h]
  simp [Nat.add_comm, Nat.add_left_comm]

theorem lexes_string {body : Text} (h : IsStringBody body) :
    Lexes (.scalar '"' :: (body ++ [.scalar '"']))
      fun p ↦ [⟨.string, .scalar '"' :: (body ++ [.scalar '"']), p⟩] := by
  intro p ts
  have hlast : ∀ q taken, step ⟨q, .string p taken false, ts⟩ '"' =
      ⟨q + 1, .gap, ⟨.string, (.scalar '"' :: taken).reverse, p⟩ :: ts⟩ := by
    simp [step, enter, emit]
  rw [run_cons, step_gap_quote, h.run, run_cons, run_nil, hlast]
  simp [Nat.add_comm, Nat.add_left_comm]

/-- The code points of a string can stand between its quotes. -/
theorem isStringBody_quotedItems (t : Text) : IsStringBody (t.flatMap quotedItem) := by
  induction t with
  | nil => exact .nil
  | cons c t ih =>
    rw [List.flatMap_cons, quotedItem]
    split_ifs with hb hq hn
    · exact .escape ih
    · exact .escape ih
    · exact .escape ih
    · exact .plain hb hq ih

theorem lexes_quoted (t : Text) : Lexes (quoted t) fun p ↦ [⟨.string, quoted t, p⟩] :=
  lexes_string (isStringBody_quotedItems t)

theorem isSymbolText_dot : IsSymbolText [.scalar '.'] := isSymbolText_singleton (by decide)

/-- What is written for an atom has the tokens of the atom. -/
theorem lexes_atom {t : Text} {kind : TokenKind} (h : Lexes t fun p ↦ [⟨kind, t, p⟩])
    (inTail : Bool) : Lexes (atom inTail t false) (atomTokens inTail kind t) := by
  cases inTail with
  | false => exact h
  | true =>
    have hend := h.append lexes_closing rfl (by decide)
    have hdot := (lexes_symbol isSymbolText_dot).append hend.blank rfl (by decide)
    intro p ts
    simpa [atom, atomTokens, Nat.add_assoc] using hdot.blank p ts

theorem isDelimiter_of_isDigit {c : Char} (h : c.isDigit = true) :
    (CodePoint.scalar c).isDelimiter = false := by
  have hc : 48 ≤ (CodePoint.scalar c).toNat ∧ (CodePoint.scalar c).toNat ≤ 57 :=
    Char.isDigit_iff_toNat.mp h
  have hne : ∀ x : Char, x.isDigit = false → c ≠ x := by
    rintro x hx rfl
    rw [h] at hx
    exact absurd hx (by decide)
  have hblank : (CodePoint.scalar c).isBlank = false := by
    simp only [CodePoint.isBlank, Bool.or_eq_false_iff, Bool.and_eq_false_iff,
      decide_eq_false_iff_not, beq_eq_false_iff_ne]
    omega
  simp [CodePoint.isDelimiter, hblank, hne]

/-- The numeral of an integer is made of digits and the minus sign. -/
theorem mem_ofInt {n : Int} {x : CodePoint} (h : x ∈ Text.ofInt n) :
    x = '-' ∨ ∃ c : Char, c.isDigit = true ∧ x = c := by
  have hdigits : ∀ m : Nat, x ∈ Text.ofNat m → ∃ c : Char, c.isDigit = true ∧ x = c := by
    intro m hm
    obtain ⟨c, hc, rfl⟩ := List.mem_map.mp hm
    exact ⟨c, Nat.isDigit_of_mem_toDigits (by omega) (by omega) hc, rfl⟩
  cases n with
  | ofNat n => exact .inr (hdigits n h)
  | negSucc n =>
    rcases List.mem_cons.mp h with h | h
    · exact .inl h
    · exact .inr (hdigits _ h)

theorem isSymbolText_ofInt (n : Int) : IsSymbolText (.ofInt n) := by
  refine ⟨?_, ?_, ?_⟩
  · cases n with
    | ofNat n => simp [Text.ofInt, Text.ofNat, Text.ofChars, Nat.toDigits_ne_nil]
    | negSucc n => simp [Text.ofInt]
  · intro x hx
    rcases mem_ofInt hx with rfl | ⟨c, hc, rfl⟩
    · decide
    · exact isDelimiter_of_isDigit hc
  · intro hstart
    rcases mem_ofInt (hstart.mem (List.mem_cons_self)) with h | ⟨c, hc, h⟩
    · exact absurd h (by decide)
    · obtain rfl := CodePoint.scalar.inj h
      exact absurd hc (by decide)

theorem write_true_cons (d : Datum) :
    ∃ c t, d.write true = c :: t ∧ c.isDelimiter = true := by
  cases d with
  | nil => exact ⟨.scalar ')', _, rfl, by decide⟩
  | _ => exact ⟨.scalar ' ', _, rfl, by decide⟩

/-- The text of a legible datum has the tokens of the datum. -/
theorem lexes_write {d : Datum} (h : d.Legible) (inTail : Bool) :
    Lexes (d.write inTail) (d.tokens inTail) := by
  induction d generalizing inTail with
  | nil =>
    cases inTail with
    | true => exact lexes_closing
    | false => exact lexes_closing.opening
  | int n => exact lexes_atom (lexes_symbol (isSymbolText_ofInt n)) inTail
  | float x => exact h.elim
  | str t => exact lexes_atom (lexes_quoted t) inTail
  | symbol s => exact lexes_atom (lexes_symbol h.1) inTail
  | pair hd tl ihh iht =>
    obtain ⟨c, u, hcu, hc⟩ := write_true_cons tl
    have hboth := (ihh h.1 false).append (iht h.2 true) hcu hc
    cases inTail with
    | true => exact hboth.blank
    | false => exact hboth.opening

/-- Lexing the text of a legible datum. -/
theorem lex_render {d : Datum} (h : d.Legible) : lex d.render = ⟨d.tokens false 0, none⟩ :=
  (lexes_write h false).lex_eq

/-! ## Reading the tokens of a datum -/

open Reader

/-- An atom that is fed to every stack is taken wherever it is written. -/
theorem takes_atomTokens [CharacterNames] {d : Datum} {kind : TokenKind} {t : Text}
    (h : ∀ p stack, Takes (.expression stack) [⟨kind, t, p⟩] (feed d stack)) (p start : Nat)
    {ds : List Datum} (hds : ds ≠ []) (stack : List OpenList) :
    Takes (.expression (.items start ds :: stack)) (atomTokens true kind t p)
      (feed (chain ds.reverse d) stack) := by
  have hdot := takes_dot (t := ⟨.symbol, ['.'], p + 1⟩) rfl start hds stack
  have hatom := h (p + 3) (.dotted ds (p + 1) :: stack)
  have hclose := takes_closing_tail (c := ⟨.closing, [')'], p + 3 + t.length⟩) rfl ds d stack
  exact hdot.trans (Takes.trans hatom hclose)

theorem takes_symbol [CharacterNames] {t : Text} {d : Datum} (hdot : t ≠ [.scalar '.'])
    (ha : Reader.atom t = .ok d) (p : Nat) (stack : List OpenList) :
    Takes (.expression stack) [⟨.symbol, t, p⟩] (feed d stack) :=
  (Derives.atom rfl (by simpa [Token.isDot] using hdot) ha).takes stack

theorem takes_string [CharacterNames] {t : Text} (h : t.any Literal.isForbidden = false) (p : Nat)
    (stack : List OpenList) :
    Takes (.expression stack) [⟨.string, quoted t, p⟩] (feed (.str t) stack) :=
  (Derives.string rfl (by simp [Literal.read_quoted, h])).takes stack

theorem ofInt_ne_dot (n : Int) : Text.ofInt n ≠ [.scalar '.'] := by
  intro h
  rcases mem_ofInt (h ▸ List.mem_cons_self : .scalar '.' ∈ Text.ofInt n) with h | ⟨c, hc, h⟩
  · exact absurd h (by decide)
  · obtain rfl := CodePoint.scalar.inj h
    exact absurd hc (by decide)

/-- From the tokens of a legible datum the reader takes the datum, if all its strings may be
written. After the first element of a list it takes what follows as the tail of that list. -/
theorem takes_tokens [CharacterNames] {d : Datum} (h : d.Legible)
    (hs : ∀ t ∈ d.strings, t.any Literal.isForbidden = false) :
    (∀ p stack, Takes (.expression stack) (d.tokens false p) (feed d stack)) ∧
      ∀ p start ds stack, ds ≠ [] → Takes (.expression (.items start ds :: stack))
        (d.tokens true p) (feed (chain ds.reverse d) stack) := by
  induction d with
  | nil =>
    refine ⟨fun p stack ↦ ?_, fun p start ds stack _ ↦ takes_closing_items rfl start ds stack⟩
    exact (takes_opening rfl stack).trans (takes_closing_items rfl p [] stack)
  | int n =>
    have hatom := takes_symbol (ofInt_ne_dot n) (atom_ofInt h)
    exact ⟨hatom, fun p start ds stack hds ↦ takes_atomTokens hatom p start hds stack⟩
  | float x => exact h.elim
  | str t =>
    have hatom := takes_string (hs t (by simp [strings]))
    exact ⟨hatom, fun p start ds stack hds ↦ takes_atomTokens hatom p start hds stack⟩
  | symbol s =>
    have hatom := takes_symbol h.2.1 h.2.2
    exact ⟨hatom, fun p start ds stack hds ↦ takes_atomTokens hatom p start hds stack⟩
  | pair hd tl ihh iht =>
    have hhead := (ihh h.1 fun t ht ↦ hs t (by simp [strings, ht])).1
    have htail := (iht h.2 fun t ht ↦ hs t (by simp [strings, ht])).2
    refine ⟨fun p stack ↦ ?_, fun p start ds stack hds ↦ ?_⟩
    · have h1 := hhead (p + 1) (.items p [] :: stack)
      have h2 := htail (p + 1 + (hd.write false).length) p [hd] stack (by simp)
      exact (takes_opening rfl stack).trans (Takes.trans h1 h2)
    · have h1 := hhead (p + 1) (.items start ds :: stack)
      have h2 := htail (p + 1 + (hd.write false).length) start (hd :: ds) stack (by simp)
      have hchain : chain (hd :: ds).reverse tl = chain ds.reverse (.pair hd tl) := by
        simp [chain]
      rw [hchain] at h2
      rw [tokens_pair_true]
      exact Takes.trans h1 h2

/-- A legible datum without forbidden strings is read back from its text. -/
theorem Legible.readOne [CharacterNames] {d : Datum} (h : d.Legible)
    (hs : ∀ t ∈ d.strings, t.any Literal.isForbidden = false) : readOne d.render = .ok d := by
  apply readOne_of_takes (lex_render h)
  exact (takes_tokens h hs).1 0 []

/-- `Stops texts s ts`: from the state `s` the reader comes among `ts` to the literal of one of
`texts` that may not be written, and reports it. -/
def Stops [CharacterNames] (texts : List Text) (s : State) (ts : List Token) : Prop :=
  ∃ us vs, ts = us ++ vs ∧ ∃ t ∈ texts, t.any Literal.isForbidden = true ∧ ∃ p,
    Takes s us (.fault (.badLiteral (Literal.spellBreaks (quoted t)) p))

theorem Stops.mono [CharacterNames] {texts texts' : List Text} {s : State} {ts : List Token}
    (h : Stops texts s ts) (hsub : texts ⊆ texts') : Stops texts' s ts := by
  obtain ⟨us, vs, hts, t, ht, hp⟩ := h
  exact ⟨us, vs, hts, t, hsub ht, hp⟩

theorem Stops.append [CharacterNames] {texts : List Text} {s : State} {ts : List Token}
    (h : Stops texts s ts) (us : List Token) : Stops texts s (ts ++ us) := by
  obtain ⟨vs, ws, rfl, ht⟩ := h
  exact ⟨vs, ws ++ us, by simp, ht⟩

theorem Stops.after [CharacterNames] {texts : List Text} {s s' : State} {ts us : List Token}
    (h : Takes s ts (.shift s')) (hs : Stops texts s' us) : Stops texts s (ts ++ us) := by
  obtain ⟨vs, ws, rfl, t, ht, hbad, p, hp⟩ := hs
  exact ⟨ts ++ vs, ws, by simp, t, ht, hbad, p, h.trans hp⟩

theorem stops_string [CharacterNames] {t : Text} (h : t.any Literal.isForbidden = true) (p : Nat)
    (stack : List OpenList) :
    Stops [t] (.expression stack) [⟨.string, quoted t, p⟩] := by
  refine ⟨_, [], (List.append_nil _).symm, t, by simp, h, p, Takes.single ?_ (by simp)⟩
  simp [State.step, Reader.string, Literal.read_quoted, h, feed?]

/-- Among the tokens of a legible datum the reader stops at a string that may not be written, if
there is one. -/
theorem stops_tokens [CharacterNames] {d : Datum} (h : d.Legible)
    (hs : ∃ t ∈ d.strings, t.any Literal.isForbidden = true) :
    (∀ p stack, Stops d.strings (.expression stack) (d.tokens false p)) ∧
      ∀ p start ds stack, ds ≠ [] →
        Stops d.strings (.expression (.items start ds :: stack)) (d.tokens true p) := by
  induction d with
  | str t =>
    have ht : t.any Literal.isForbidden = true := by simpa [strings] using hs
    refine ⟨stops_string ht, fun p start ds stack hds ↦ ?_⟩
    have hdot := takes_dot (t := ⟨.symbol, ['.'], p + 1⟩) rfl start hds stack
    exact .after hdot ((stops_string ht (p + 3) _).append _)
  | pair hd tl ihh iht =>
    by_cases hhd : ∃ t ∈ hd.strings, t.any Literal.isForbidden = true
    · have hhead := (ihh h.1 hhd).1
      have hsub : hd.strings ⊆ (pair hd tl).strings := List.subset_append_left _ _
      refine ⟨fun p stack ↦ ?_, fun p start ds stack _ ↦ ?_⟩
      · exact .after (takes_opening rfl stack) (((hhead (p + 1) _).mono hsub).append _)
      · exact ((hhead (p + 1) _).mono hsub).append _
    · have hclean : ∀ t ∈ hd.strings, t.any Literal.isForbidden = false := by simpa using hhd
      have htl : ∃ t ∈ tl.strings, t.any Literal.isForbidden = true := by
        obtain ⟨t, ht, hbad⟩ := hs
        rcases List.mem_append.mp ht with ht | ht
        · exact absurd ⟨t, ht, hbad⟩ hhd
        · exact ⟨t, ht, hbad⟩
      have hhead := (takes_tokens h.1 hclean).1
      have htail := (iht h.2 htl).2
      have hsub : tl.strings ⊆ (pair hd tl).strings := List.subset_append_right _ _
      refine ⟨fun p stack ↦ ?_, fun p start ds stack _ ↦ ?_⟩
      · have h1 := hhead (p + 1) (.items p [] :: stack)
        have h2 := htail (p + 1 + (hd.write false).length) p [hd] stack (by simp)
        exact .after (takes_opening rfl stack) (.after h1 (h2.mono hsub))
      · have h1 := hhead (p + 1) (.items start ds :: stack)
        have h2 := htail (p + 1 + (hd.write false).length) start (hd :: ds) stack (by simp)
        rw [tokens_pair_true]
        exact .after h1 (h2.mono hsub)
  | _ => simp [strings] at hs

end Datum

/-! ## The round trip -/

theorem any_isForbidden {t : Text} :
    t.any Literal.isForbidden = true ↔ ∃ c ∈ t, c = '\x00' ∨ c.isSurrogate = true := by
  simp [Literal.isForbidden]

theorem any_isForbidden_eq_false {t : Text} (h : ∀ c ∈ t, c ≠ '\x00' ∧ c.isSurrogate = false) :
    t.any Literal.isForbidden = false := by
  rw [Bool.eq_false_iff]
  intro hbad
  obtain ⟨c, hc, hnul | hsurrogate⟩ := any_isForbidden.mp hbad
  · exact (h c hc).1 hnul
  · rw [(h c hc).2] at hsurrogate
    cases hsurrogate

/-- Everything that is read is read again from its text, unless a float is in it, or a string that
holds NUL or a surrogate: the literal of such a string is then reported as invalid. -/
theorem readOne_render [CharacterNames] {s : Text} {d : Datum} (h : readOne s = .ok d)
    (hf : d.hasFloat = false) :
    (readOne d.render = .ok d ↔
      ¬ ∃ t ∈ d.strings, ∃ c ∈ t, c = '\x00' ∨ c.isSurrogate = true) ∧
    ((∃ t ∈ d.strings, ∃ c ∈ t, c = '\x00' ∨ c.isSurrogate = true) →
      ∃ t ∈ d.strings, (∃ c ∈ t, c = '\x00' ∨ c.isSurrogate = true) ∧ ∃ p, readOne d.render =
        .error (.badLiteral (Literal.spellBreaks (Datum.quoted t)) p)) := by
  obtain ⟨-, hd⟩ := (readOne_eq_ok_iff s d).mp h
  have hlegible := hd.legible (fun t ht hk ↦ isSymbolText_of_mem_lex ht hk) hf
  have hlex := Datum.lex_render hlegible
  simp only [← any_isForbidden]
  have hstop : (∃ t ∈ d.strings, t.any Literal.isForbidden = true) →
      ∃ t ∈ d.strings, t.any Literal.isForbidden = true ∧ ∃ p, readOne d.render =
        .error (.badLiteral (Literal.spellBreaks (Datum.quoted t)) p) := by
    intro hs
    obtain ⟨us, vs, hts, t, ht, hbad, p, hp⟩ := (Datum.stops_tokens hlegible hs).1 0 []
    exact ⟨t, ht, hbad, p, readOne_of_fault (hts ▸ hlex) hp⟩
  refine ⟨⟨?_, ?_⟩, hstop⟩
  · intro hok hs
    obtain ⟨t, -, -, p, herror⟩ := hstop hs
    rw [hok] at herror
    exact absurd herror (by simp)
  · intro hs
    have hclean : ∀ t ∈ d.strings, t.any Literal.isForbidden = false := by simpa using hs
    exact readOne_of_takes hlex ((Datum.takes_tokens hlegible hclean).1 0 [])

open scoped CharacterNames

/-- A symbol with a comment mark in it and a string with a line break come back; a lone surrogate
does not. -/
theorem readOne_render_hash_surrogate :
    (readOne "(x#|y \"\\\\\n\" . -07)" =
        .ok (.pair (.symbol "x#|y") (.pair (.str "\\\n") (.int (-7)))) ∧
      readOne (Datum.render (.pair (.symbol "x#|y") (.pair (.str "\\\n") (.int (-7))))) =
        .ok (.pair (.symbol "x#|y") (.pair (.str "\\\n") (.int (-7))))) ∧
    (readOne "(a . \"\\ud800\")" = .ok (.pair (.symbol "a") (.str [.surrogate 0])) ∧
      ∃ t ∈ ([[.surrogate 0]] : List Text), (∃ c ∈ t, c = '\x00' ∨ c.isSurrogate = true) ∧
        ∃ p, readOne (Datum.render (.pair (.symbol "a") (.str [.surrogate 0]))) =
          .error (.badLiteral (Literal.spellBreaks (Datum.quoted t)) p)) := by
  have hclean : readOne "(x#|y \"\\\\\n\" . -07)" =
      .ok (.pair (.symbol "x#|y") (.pair (.str "\\\n") (.int (-7)))) := by decide
  have hlone : readOne "(a . \"\\ud800\")" = .ok (.pair (.symbol "a") (.str [.surrogate 0])) := by
    decide
  refine ⟨⟨hclean, (readOne_render hclean (by decide)).1.mpr (by decide)⟩, hlone, ?_⟩
  exact (readOne_render hlone (by decide)).2 (by decide)

end Fexpr
