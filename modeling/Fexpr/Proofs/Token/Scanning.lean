import Fexpr.Token.Lexer
import Mathlib.Tactic.SplitIfs

/-!
# What the scanner makes of a piece of text

A symbol is only known to be complete when something follows that ends it, so the scanner holds the
last symbol of a text back. `Scanner.flush` gives it out. Up to that, a scanner between tokens goes
over the text of a symbol as one step (`Scanner.flush_run_symbol`), whatever comes next: a delimiter
flushes the scanner (`Scanner.run_delimiter`), and so does the end of the text
(`Scanner.finish_flush`).

The other direction is an invariant of the scan, `Scanner.Named`: what it gives out as a symbol has
the text of one.
-/

namespace Fexpr

/-- The text of a symbol token: not empty, without delimiters, and not the start of a block
comment. -/
def IsSymbolText (t : Text) : Prop :=
  t ≠ [] ∧ (∀ c ∈ t, c.isDelimiter = false) ∧ ¬ [.scalar '#', .scalar '|'] <+: t

namespace CodePoint

theorem isDelimiter_eq_false {c : CodePoint} (h : c.isDelimiter = false) :
    c.isBlank = false ∧ c ≠ '(' ∧ c ≠ ')' ∧ c ≠ '"' ∧ c ≠ ';' := by
  simp only [isDelimiter, Bool.or_eq_false_iff, beq_eq_false_iff_ne] at h
  obtain ⟨⟨⟨⟨hb, ho⟩, hc⟩, hq⟩, hs⟩ := h
  exact ⟨hb, ho, hc, hq, hs⟩

theorem ne_bar_of_isDelimiter {c : CodePoint} (h : c.isDelimiter = true) : c ≠ '|' := by
  rintro rfl
  exact absurd h (by decide)

end CodePoint

/-- More code points that end no symbol leave the text of a symbol one; only after a `#` alone must
no `|` follow. -/
theorem IsSymbolText.concat {t : Text} {c : CodePoint} (h : IsSymbolText t)
    (hc : c.isDelimiter = false) (hbar : t = [.scalar '#'] → c ≠ '|') :
    IsSymbolText (t ++ [c]) := by
  obtain ⟨hne, hall, hstart⟩ := h
  refine ⟨by simp, ?_, ?_⟩
  · intro x hx
    rcases List.mem_append.mp hx with hx | hx
    · exact hall x hx
    · rw [List.mem_singleton.mp hx]
      exact hc
  · rintro ⟨rest, hrest⟩
    rcases t with _ | ⟨a, _ | ⟨b, t⟩⟩
    · exact hne rfl
    · simp only [List.cons_append, List.nil_append, List.cons.injEq] at hrest
      exact hbar (by rw [← hrest.1]) hrest.2.1.symm
    · simp only [List.cons_append, List.nil_append, List.cons.injEq] at hrest
      obtain ⟨rfl, rfl, -⟩ := hrest
      exact hstart ⟨t, rfl⟩

theorem isSymbolText_singleton {c : CodePoint} (hc : c.isDelimiter = false) :
    IsSymbolText [c] := by
  refine ⟨by simp, by simpa using hc, ?_⟩
  rintro ⟨rest, hrest⟩
  simp at hrest

theorem isSymbolText_hash : IsSymbolText [.scalar '#'] := isSymbolText_singleton (by decide)

namespace Lexer.Scanner

/-! ## The symbol that is held back -/

/-- Give out the symbol that the scanner is inside of, if any. -/
def flush (s : Scanner) : Scanner :=
  match s.mode with
  | .hash start => ⟨s.position, .gap, ⟨.symbol, ['#'], start⟩ :: s.tokens⟩
  | .symbol start taken => ⟨s.position, .gap, ⟨.symbol, taken.reverse, start⟩ :: s.tokens⟩
  | _ => s

@[simp] theorem flush_gap (p : Nat) (ts : List Token) :
    flush ⟨p, .gap, ts⟩ = ⟨p, .gap, ts⟩ := rfl

/-- The end of the text gives out what is held back. -/
theorem finish_flush (s : Scanner) : s.flush.finish = s.finish := by
  obtain ⟨p, mode, ts⟩ := s
  cases mode <;> simp [flush, finish, emit]

/-- Where a token starts, it does not matter what came before it. -/
theorem begin_mode (p : Nat) (m m' : Mode) (ts : List Token) (c : CodePoint) :
    begin ⟨p, m, ts⟩ c = begin ⟨p, m', ts⟩ c := rfl

/-- A delimiter gives out what is held back. -/
theorem step_delimiter (s : Scanner) {c : CodePoint} (hc : c.isDelimiter = true) :
    s.step c = s.flush.step c := by
  obtain ⟨p, mode, ts⟩ := s
  cases mode with
  | hash start =>
    simp only [step, flush, extend, emit, hc, CodePoint.ne_bar_of_isDelimiter hc, if_true, if_false]
    exact begin_mode _ _ _ _ _
  | symbol start taken =>
    simp only [step, flush, extend, emit, hc, if_true]
    exact begin_mode _ _ _ _ _
  | _ => rfl

theorem run_delimiter (s : Scanner) {c : CodePoint} (hc : c.isDelimiter = true) (t : Text) :
    s.run (c :: t) = s.flush.run (c :: t) := by
  rw [run_cons, run_cons, step_delimiter s hc]

/-! ## Going over one token -/

theorem step_gap_blank {c : CodePoint} (hc : c.isBlank = true) (p : Nat) (ts : List Token) :
    step ⟨p, .gap, ts⟩ c = ⟨p + 1, .gap, ts⟩ := by
  simp [step, begin, enter, hc]

theorem step_gap_opening (p : Nat) (ts : List Token) :
    step ⟨p, .gap, ts⟩ '(' = ⟨p + 1, .gap, ⟨.opening, ['('], p⟩ :: ts⟩ := by
  simp [step, begin, enter, emit, show (CodePoint.scalar '(').isBlank = false by decide]

theorem step_gap_closing (p : Nat) (ts : List Token) :
    step ⟨p, .gap, ts⟩ ')' = ⟨p + 1, .gap, ⟨.closing, [')'], p⟩ :: ts⟩ := by
  simp [step, begin, enter, emit, show (CodePoint.scalar ')').isBlank = false by decide]

/-- Inside of a symbol, code points that end none are added to it. -/
theorem run_symbol {t : Text} (h : ∀ c ∈ t, c.isDelimiter = false) (p start : Nat) (taken : Text)
    (ts : List Token) :
    run ⟨p, .symbol start taken, ts⟩ t =
      ⟨p + t.length, .symbol start (t.reverse ++ taken), ts⟩ := by
  induction t generalizing p taken with
  | nil => rfl
  | cons c t ih =>
    have hc := h c (by simp)
    have hrest := ih (fun d hd ↦ h d (by simp [hd])) (p + 1) (c :: taken)
    rw [run_cons, show step ⟨p, .symbol start taken, ts⟩ c =
      ⟨p + 1, .symbol start (c :: taken), ts⟩ by simp [step, extend, enter, hc], hrest]
    simp [Nat.add_comm, Nat.add_left_comm]

/-- Between tokens, the text of a symbol becomes that symbol. -/
theorem flush_run_symbol {t : Text} (h : IsSymbolText t) (p : Nat) (ts : List Token) :
    (run ⟨p, .gap, ts⟩ t).flush = ⟨p + t.length, .gap, ⟨.symbol, t, p⟩ :: ts⟩ := by
  obtain ⟨hne, hall, hstart⟩ := h
  obtain ⟨c, t, rfl⟩ := List.exists_cons_of_ne_nil hne
  have hc := hall c (by simp)
  obtain ⟨hb, ho, hcl, hq, hs⟩ := CodePoint.isDelimiter_eq_false hc
  by_cases hhash : c = '#'
  · subst hhash
    have hfirst : step ⟨p, .gap, ts⟩ '#' = ⟨p + 1, .hash p, ts⟩ := by
      simp [step, begin, enter, hb]
    rw [run_cons, hfirst]
    cases t with
    | nil => rfl
    | cons d t =>
      have hd := hall d (by simp)
      have hbar : d ≠ '|' := by
        rintro rfl
        exact hstart ⟨t, rfl⟩
      have hsecond : step ⟨p + 1, .hash p, ts⟩ d = ⟨p + 2, .symbol p [d, '#'], ts⟩ := by
        simp [step, extend, enter, hbar, hd]
      rw [run_cons, hsecond, run_symbol (fun x hx ↦ hall x (by simp [hx]))]
      simp [flush, Nat.add_comm, Nat.add_left_comm]
  · have hfirst : step ⟨p, .gap, ts⟩ c = ⟨p + 1, .symbol p [c], ts⟩ := by
      simp [step, begin, enter, hb, ho, hcl, hq, hs, hhash]
    rw [run_cons, hfirst, run_symbol (fun x hx ↦ hall x (by simp [hx]))]
    simp [flush, Nat.add_comm, Nat.add_left_comm]

/-! ## Symbols have the text of symbols -/

/-- The symbols given out so far, and the one that is held back, have the text of symbols. A `#`
alone is held back in a mode of its own. -/
def Named (s : Scanner) : Prop :=
  (∀ t ∈ s.tokens, t.kind = .symbol → IsSymbolText t.text) ∧
    ∀ start taken, s.mode = .symbol start taken →
      IsSymbolText taken.reverse ∧ taken ≠ [.scalar '#']

theorem Named.enter {s : Scanner} (h : s.Named) {m : Mode}
    (hm : ∀ start taken, m = .symbol start taken →
      IsSymbolText taken.reverse ∧ taken ≠ [.scalar '#']) : (s.enter m).Named :=
  ⟨h.1, hm⟩

theorem Named.emit {s : Scanner} (h : s.Named) {kind : TokenKind} {text : Text} (position : Nat)
    (ht : kind = .symbol → IsSymbolText text) : (s.emit kind text position).Named := by
  refine ⟨?_, h.2⟩
  intro t hmem hk
  rcases List.mem_cons.mp hmem with rfl | hmem
  · exact ht hk
  · exact h.1 t hmem hk

theorem Named.begin {s : Scanner} (h : s.Named) (c : CodePoint) : (s.begin c).Named := by
  rw [Scanner.begin]
  split_ifs with hb hs ho hc hq hhash
  · exact h.enter (by simp)
  · exact h.enter (by simp)
  · exact (h.emit _ (by simp)).enter (by simp)
  · exact (h.emit _ (by simp)).enter (by simp)
  · exact h.enter (by simp)
  · exact h.enter (by simp)
  · have hd : c.isDelimiter = false := by
      simp [CodePoint.isDelimiter, hb, hs, ho, hc, hq]
    refine h.enter ?_
    rintro start taken ⟨⟩
    exact ⟨isSymbolText_singleton hd, by simpa using hhash⟩

theorem Named.extend {s : Scanner} (h : s.Named) {taken : Text} (ht : IsSymbolText taken.reverse)
    (start : Nat) {c : CodePoint} (hbar : taken = [.scalar '#'] → c ≠ '|') :
    (s.extend start taken c).Named := by
  rw [Scanner.extend]
  split_ifs with hd
  · exact (h.emit start fun _ ↦ ht).begin c
  · refine h.enter ?_
    rintro start' taken' ⟨⟩
    have hne : taken ≠ [] := by simpa using ht.1
    rw [List.reverse_cons]
    exact ⟨ht.concat (by simpa using hd) (by simpa [List.reverse_eq_iff] using hbar), by simp [hne]⟩

/-- One step of the scan keeps its symbols symbols. -/
theorem Named.step {s : Scanner} (h : s.Named) (c : CodePoint) : (s.step c).Named := by
  obtain ⟨p, mode, ts⟩ := s
  cases mode with
  | gap => exact h.begin c
  | line =>
    refine h.enter ?_
    split_ifs <;> simp
  | block start depth last =>
    cases depth <;> simp only [Scanner.step, Scanner.comment] <;> split_ifs <;>
      exact h.enter (by simp)
  | string start taken escaped =>
    simp only [Scanner.step]
    split_ifs
    · exact h.enter (by simp)
    · exact (h.emit _ (by simp)).enter (by simp)
    · exact h.enter (by simp)
  | hash start =>
    simp only [Scanner.step]
    split_ifs with hbar
    · exact h.enter (by simp)
    · have ht : IsSymbolText (List.reverse [.scalar '#']) := isSymbolText_hash
      exact h.extend ht start fun _ ↦ hbar
  | symbol start taken =>
    obtain ⟨ht, hhash⟩ := h.2 start taken rfl
    exact h.extend ht start fun he ↦ absurd he hhash

/-- Symbols have the text of symbols at the end of every scan. -/
theorem Named.run {s : Scanner} (h : s.Named) (t : Text) : (s.run t).Named := by
  induction t generalizing s with
  | nil => exact h
  | cons c t ih => exact ih (h.step c)

theorem Named.finish {s : Scanner} (h : s.Named) :
    ∀ t ∈ s.finish.tokens, t.kind = .symbol → IsSymbolText t.text := by
  obtain ⟨p, mode, ts⟩ := s
  cases mode with
  | hash start =>
    simpa [Scanner.finish] using
      (h.emit start fun (_ : TokenKind.symbol = .symbol) ↦ isSymbolText_hash).1
  | symbol start taken =>
    have ht := (h.2 start taken rfl).1
    simpa [Scanner.finish] using (h.emit start fun (_ : TokenKind.symbol = .symbol) ↦ ht).1
  | _ => simpa [Scanner.finish] using h.1

end Lexer.Scanner

/-- Every symbol token of a text has the text of a symbol. -/
theorem isSymbolText_of_mem_lex {s : Text} {t : Token} (h : t ∈ (lex s).tokens)
    (hk : t.kind = .symbol) : IsSymbolText t.text :=
  (Lexer.Scanner.Named.run ⟨by simp [Lexer.Scanner.start], by simp [Lexer.Scanner.start]⟩ s).finish
    t h hk

end Fexpr
