import Fexpr.Proofs.Token.Scanning
import Mathlib.Data.List.Induction
import Mathlib.Data.List.TakeWhile

/-!
# The layout of a text

How a text is made up of tokens and of what is skipped between them is said here without the
scanner. Between tokens there are gaps of white space and comments (`Gap`), a token is a piece of
text of its kind (`Lexeme`), and a text is laid out as gaps and tokens in turn (`Layout`). Whether a
line comment or a symbol ends somewhere depends on what follows, so all three are given the rest of
the text.

The two sides meet in two facts: the scanner follows every layout (`Layout.finish_run`), and every
text is laid out up to its end, or up to a string or a block comment that is never closed
(`exists_layout_lex`).
-/

namespace Fexpr

/-! ## Gaps, tokens and layouts -/

/-- `Closes depth t`: read from left to right, `t` closes `depth` block comments and the one around
them, and ends where it closes the last. Marks do not overlap, so a mark is looked for after the end
of the one before. -/
inductive Closes : Nat → Text → Prop
  | last : Closes 0 [.scalar '|', .scalar '#']
  | close {depth : Nat} {t : Text} : Closes depth t →
      Closes (depth + 1) (.scalar '|' :: .scalar '#' :: t)
  | nest {depth : Nat} {t : Text} : Closes (depth + 1) t →
      Closes depth (.scalar '#' :: .scalar '|' :: t)
  | other {depth : Nat} {c : CodePoint} {t : Text} : ¬ [.scalar '#', .scalar '|'] <+: c :: t →
      ¬ [.scalar '|', .scalar '#'] <+: c :: t → Closes depth t → Closes depth (c :: t)

/-- What stands between the quotes of a string: a backslash goes with the code point after it, and
any other quote would end the string. -/
inductive IsStringBody : Text → Prop
  | nil : IsStringBody []
  | escape {c : CodePoint} {t : Text} : IsStringBody t → IsStringBody (.scalar '\\' :: c :: t)
  | plain {c : CodePoint} {t : Text} : c ≠ '\\' → c ≠ '"' → IsStringBody t → IsStringBody (c :: t)

/-- White space, line comments that run up to a line feed or the end, and closed block comments,
before `rest`. -/
inductive Gap (rest : Text) : Text → Prop
  | nil : Gap rest []
  | blank {c : CodePoint} {g : Text} : c.isBlank = true → Gap rest g → Gap rest (c :: g)
  | line {body g : Text} : (∀ c ∈ body, c ≠ '\n') →
    (g ++ rest).head?.all (· == .scalar '\n') = true →
      Gap rest g → Gap rest (.scalar ';' :: (body ++ g))
  | block {body g : Text} : Closes 0 body → Gap rest g →
      Gap rest (.scalar '#' :: .scalar '|' :: (body ++ g))

/-- The text of a token of a kind, before `rest`. A symbol goes on up to a delimiter or the end. -/
inductive Lexeme (rest : Text) : TokenKind → Text → Prop
  | opening : Lexeme rest .opening [.scalar '(']
  | closing : Lexeme rest .closing [.scalar ')']
  | string {body : Text} : IsStringBody body →
      Lexeme rest .string (.scalar '"' :: (body ++ [.scalar '"']))
  | symbol {t : Text} : IsSymbolText t → rest.head?.all CodePoint.isDelimiter = true →
      Lexeme rest .symbol t

/-- `Layout rest p u ts`: the text `u` at position `p`, before `rest`, is gaps and the tokens `ts`
in turn. -/
inductive Layout (rest : Text) : Nat → Text → List Token → Prop
  | gap {p : Nat} {g : Text} : Gap rest g → Layout rest p g []
  | token {p : Nat} {g t u : Text} {kind : TokenKind} {ts : List Token} :
      Gap (t ++ (u ++ rest)) g → Lexeme (u ++ rest) kind t →
      Layout rest (p + g.length + t.length) u ts →
      Layout rest p (g ++ (t ++ u)) (⟨kind, t, p + g.length⟩ :: ts)

/-- A string starts here and is never closed. -/
def OpensString (rest : Text) : Prop :=
  ∃ t, rest = .scalar '"' :: t ∧ ∀ body after, IsStringBody body → t ≠ body ++ .scalar '"' :: after

/-- A block comment starts here and is never closed. -/
def OpensComment (rest : Text) : Prop :=
  ∃ t, rest = .scalar '#' :: .scalar '|' :: t ∧ ∀ body after, Closes 0 body → t ≠ body ++ after

/-! ## The scanner goes over gaps and tokens -/

namespace Lexer.Scanner

variable {p start depth : Nat} {acc : List Token} {taken : Text}

theorem run_block_nest (t : Text) :
    run ⟨p, .block start depth none, acc⟩ (.scalar '#' :: .scalar '|' :: t) =
      run ⟨p + 2, .block start (depth + 1) none, acc⟩ t := by
  simp [step, comment, enter]

theorem run_block_last (t : Text) :
    run ⟨p, .block start 0 none, acc⟩ (.scalar '|' :: .scalar '#' :: t) =
      run ⟨p + 2, .gap, acc⟩ t := by
  simp [step, comment, enter]

theorem run_block_close (t : Text) :
    run ⟨p, .block start (depth + 1) none, acc⟩ (.scalar '|' :: .scalar '#' :: t) =
      run ⟨p + 2, .block start depth none, acc⟩ t := by
  simp [step, comment, enter]

/-- A code point that starts no mark is as good as forgotten. -/
theorem run_block_other {c d : CodePoint} (hopen : ¬ (c = '#' ∧ d = '|'))
    (hclose : ¬ (c = '|' ∧ d = '#')) (t : Text) :
    run ⟨p, .block start depth none, acc⟩ (c :: d :: t) =
      run ⟨p + 1, .block start depth none, acc⟩ (d :: t) := by
  simp [step, comment, enter, hopen, hclose]

theorem run_string_escape (c : CodePoint) (t : Text) :
    run ⟨p, .string start taken false, acc⟩ (.scalar '\\' :: c :: t) =
      run ⟨p + 2, .string start (c :: .scalar '\\' :: taken) false, acc⟩ t := by
  simp [step, enter]

theorem run_string_plain {c : CodePoint} (hslash : c ≠ '\\') (hquote : c ≠ '"') (t : Text) :
    run ⟨p, .string start taken false, acc⟩ (c :: t) =
      run ⟨p + 1, .string start (c :: taken) false, acc⟩ t := by
  simp [step, enter, hquote, beq_eq_false_iff_ne.mpr hslash]

/-- Up to a line feed or the end, a line comment takes everything. -/
theorem run_line {body : Text} (h : ∀ c ∈ body, c ≠ '\n') :
    run ⟨p, .line, acc⟩ body = ⟨p + body.length, .line, acc⟩ := by
  induction body generalizing p with
  | nil => rfl
  | cons c body ih =>
    have hc : step ⟨p, .line, acc⟩ c = ⟨p + 1, .line, acc⟩ := by simp [step, enter, h c (by simp)]
    rw [run_cons, hc, ih fun d hd ↦ h d (by simp [hd])]
    simp [Nat.add_comm, Nat.add_left_comm]

/-- Before a line feed or the end, it does not matter whether the scanner is in a line comment. -/
theorem finish_run_line {rest : Text} (h : rest.head?.all (· == .scalar '\n') = true) :
    (run ⟨p, .line, acc⟩ rest).finish = (run ⟨p, .gap, acc⟩ rest).finish := by
  cases rest with
  | nil => rfl
  | cons c rest =>
    have hc : c = .scalar '\n' := by simpa using h
    subst hc
    have hblank : (CodePoint.scalar '\n').isBlank = true := by decide
    rw [run_cons, run_cons, step_gap_blank hblank]
    simp [step, enter]

theorem step_gap_semicolon : step ⟨p, .gap, acc⟩ ';' = ⟨p + 1, .line, acc⟩ := by
  simp [step, begin, enter, show (CodePoint.scalar ';').isBlank = false by decide]

theorem step_gap_quote :
    step ⟨p, .gap, acc⟩ '"' = ⟨p + 1, .string p [.scalar '"'] false, acc⟩ := by
  simp [step, begin, enter, show (CodePoint.scalar '"').isBlank = false by decide]

theorem run_gap_comment (t : Text) :
    run ⟨p, .gap, acc⟩ (.scalar '#' :: .scalar '|' :: t) = run ⟨p + 2, .block p 0 none, acc⟩ t := by
  simp [step, begin, enter, show (CodePoint.scalar '#').isBlank = false by decide]

end Lexer.Scanner

open Lexer Lexer.Scanner

theorem Closes.ne_nil {depth : Nat} {t : Text} (h : Closes depth t) : t ≠ [] := by
  cases h <;> simp

/-- What closes a block comment takes the scanner out of it. -/
theorem Closes.run {depth : Nat} {t : Text} (h : Closes depth t) (p start : Nat) (acc : List Token)
    (rest : Text) :
    Scanner.run ⟨p, .block start depth none, acc⟩ (t ++ rest) =
      Scanner.run ⟨p + t.length, .gap, acc⟩ rest := by
  induction h generalizing p with
  | last => exact run_block_last rest
  | @close depth t _ ih =>
    rw [List.cons_append, List.cons_append, run_block_close, ih]
    simp [Nat.add_comm, Nat.add_left_comm]
  | @nest depth t _ ih =>
    rw [List.cons_append, List.cons_append, run_block_nest, ih]
    simp [Nat.add_comm, Nat.add_left_comm]
  | @other depth c t hopen hclose ht ih =>
    obtain ⟨d, t, rfl⟩ := List.exists_cons_of_ne_nil ht.ne_nil
    have hopen' : ¬ (c = '#' ∧ d = '|') := by
      rintro ⟨rfl, rfl⟩
      exact hopen ⟨t, rfl⟩
    have hclose' : ¬ (c = '|' ∧ d = '#') := by
      rintro ⟨rfl, rfl⟩
      exact hclose ⟨t, rfl⟩
    rw [List.cons_append, List.cons_append, run_block_other hopen' hclose', ← List.cons_append, ih]
    simp [Nat.add_comm, Nat.add_left_comm]

/-- Without an end to it, the scanner stays in a block comment. -/
theorem exists_run_block {depth : Nat} {t : Text}
    (h : ∀ body after, Closes depth body → t ≠ body ++ after) (p start : Nat) (acc : List Token) :
    ∃ depth' last, Scanner.run ⟨p, .block start depth none, acc⟩ t =
      ⟨p + t.length, .block start depth' last, acc⟩ := by
  induction t using List.twoStepInduction generalizing depth p with
  | nil => exact ⟨depth, none, rfl⟩
  | singleton c => exact ⟨depth, some c, by simp [Scanner.step, comment, enter]⟩
  | cons_cons c d t ih ih' =>
    by_cases hopen : c = '#' ∧ d = '|'
    · obtain ⟨rfl, rfl⟩ := hopen
      have hrest : ∀ body after, Closes (depth + 1) body → t ≠ body ++ after := by
        rintro body after hbody rfl
        exact h _ after (.nest hbody) rfl
      obtain ⟨depth', last, hrun⟩ := ih hrest (p + 2)
      refine ⟨depth', last, ?_⟩
      rw [run_block_nest, hrun]
      simp [Nat.add_comm, Nat.add_left_comm]
    by_cases hclose : c = '|' ∧ d = '#'
    · obtain ⟨rfl, rfl⟩ := hclose
      cases depth with
      | zero => exact absurd rfl (h _ t .last)
      | succ depth =>
        have hrest : ∀ body after, Closes depth body → t ≠ body ++ after := by
          rintro body after hbody rfl
          exact h _ after (.close hbody) rfl
        obtain ⟨depth', last, hrun⟩ := ih hrest (p + 2)
        refine ⟨depth', last, ?_⟩
        rw [run_block_close, hrun]
        simp [Nat.add_comm, Nat.add_left_comm]
    · have hrest : ∀ body after, Closes depth body → d :: t ≠ body ++ after := by
        intro body after hbody heq
        obtain ⟨e, body, rfl⟩ := List.exists_cons_of_ne_nil hbody.ne_nil
        obtain ⟨rfl, rfl⟩ := List.cons.inj heq
        refine h (c :: d :: body) after (.other ?_ ?_ hbody) rfl
        · simpa [List.cons_prefix_cons, eq_comm] using hopen
        · simpa [List.cons_prefix_cons, eq_comm] using hclose
      obtain ⟨depth', last, hrun⟩ := ih' d hrest (p + 1)
      refine ⟨depth', last, ?_⟩
      rw [run_block_other hopen hclose, hrun]
      simp [Nat.add_comm, Nat.add_left_comm]

/-- What stands between quotes is taken into the string. -/
theorem IsStringBody.run {body : Text} (h : IsStringBody body) (p start : Nat) (taken : Text)
    (acc : List Token) (rest : Text) :
    Scanner.run ⟨p, .string start taken false, acc⟩ (body ++ rest) =
      Scanner.run ⟨p + body.length, .string start (body.reverse ++ taken) false, acc⟩ rest := by
  induction h generalizing p taken with
  | nil => rfl
  | escape _ ih =>
    rw [List.cons_append, List.cons_append, run_string_escape, ih]
    simp [Nat.add_comm, Nat.add_left_comm]
  | plain hslash hquote _ ih =>
    rw [List.cons_append, run_string_plain hslash hquote, ih]
    simp [Nat.add_comm, Nat.add_left_comm]

/-- Without a quote to end it, the scanner stays in a string. -/
theorem exists_run_string {t : Text}
    (h : ∀ body after, IsStringBody body → t ≠ body ++ .scalar '"' :: after) (p start : Nat)
    (taken : Text) (acc : List Token) :
    ∃ taken' escaped, Scanner.run ⟨p, .string start taken false, acc⟩ t =
      ⟨p + t.length, .string start taken' escaped, acc⟩ := by
  have hquote : ∀ c u, t = c :: u → c ≠ '"' := by
    rintro c u rfl rfl
    exact h [] u .nil rfl
  induction t using List.twoStepInduction generalizing p taken with
  | nil => exact ⟨taken, false, rfl⟩
  | singleton c =>
    exact ⟨c :: taken, c == '\\', by simp [Scanner.step, enter, hquote c [] rfl]⟩
  | cons_cons c d t ih ih' =>
    by_cases hslash : c = '\\'
    · subst hslash
      have hrest : ∀ body after, IsStringBody body → t ≠ body ++ .scalar '"' :: after := by
        rintro body after hbody rfl
        exact h _ after (.escape (c := d) hbody) rfl
      obtain ⟨taken', escaped, hrun⟩ := ih hrest (p + 2) (d :: .scalar '\\' :: taken) <| by
        rintro e u rfl rfl
        exact hrest [] u .nil rfl
      refine ⟨taken', escaped, ?_⟩
      rw [run_string_escape, hrun]
      simp [Nat.add_comm, Nat.add_left_comm]
    · have hrest : ∀ body after, IsStringBody body → d :: t ≠ body ++ .scalar '"' :: after := by
        intro body after hbody heq
        exact h (c :: body) after (.plain hslash (hquote c _ rfl) hbody) (congrArg (c :: ·) heq)
      obtain ⟨taken', escaped, hrun⟩ := ih' d hrest (p + 1) (c :: taken) <| by
        rintro e u heq rfl
        exact hrest [] u .nil heq
      refine ⟨taken', escaped, ?_⟩
      rw [run_string_plain hslash (hquote c _ rfl), hrun]
      simp [Nat.add_comm, Nat.add_left_comm]

/-- Over a gap the scanner stays between tokens. -/
theorem Gap.finish_run {rest g : Text} (h : Gap rest g) (p : Nat) (acc : List Token) :
    (Scanner.run ⟨p, .gap, acc⟩ (g ++ rest)).finish =
      (Scanner.run ⟨p + g.length, .gap, acc⟩ rest).finish := by
  induction h generalizing p with
  | nil => rfl
  | blank hc _ ih =>
    rw [List.cons_append, run_cons, step_gap_blank hc, ih]
    simp [Nat.add_comm, Nat.add_left_comm]
  | line hbody hend _ ih =>
    rw [List.cons_append, run_cons, step_gap_semicolon, List.append_assoc, run_append,
      run_line hbody, finish_run_line hend, ih]
    simp [Nat.add_assoc, Nat.add_comm, Nat.add_left_comm]
  | block hbody _ ih =>
    rw [List.cons_append, List.cons_append, run_gap_comment, List.append_assoc, hbody.run, ih]
    simp [Nat.add_assoc, Nat.add_comm, Nat.add_left_comm]

/-- Over the text of a token the scanner gives out that token. -/
theorem Lexeme.finish_run {rest t : Text} {kind : TokenKind} (h : Lexeme rest kind t) (p : Nat)
    (acc : List Token) :
    (Scanner.run ⟨p, .gap, acc⟩ (t ++ rest)).finish =
      (Scanner.run ⟨p + t.length, .gap, ⟨kind, t, p⟩ :: acc⟩ rest).finish := by
  cases h with
  | opening => rw [List.singleton_append, run_cons, step_gap_opening, List.length_singleton]
  | closing => rw [List.singleton_append, run_cons, step_gap_closing, List.length_singleton]
  | @string body hbody =>
    rw [List.cons_append, run_cons, step_gap_quote, List.append_assoc, hbody.run,
      List.singleton_append, run_cons]
    simp [Scanner.step, emit, enter, Nat.add_comm, Nat.add_left_comm]
  | symbol ht hend =>
    -- The symbol is held back until the scanner sees a delimiter or the end.
    rw [run_append]
    cases rest with
    | nil => rw [run_nil, run_nil, ← finish_flush, flush_run_symbol ht]
    | cons c rest =>
      have hc : c.isDelimiter = true := by simpa using hend
      rw [run_delimiter _ hc, flush_run_symbol ht]

/-- The scanner follows every layout. -/
theorem Layout.finish_run {rest u : Text} {p : Nat} {ts : List Token} (h : Layout rest p u ts)
    (acc : List Token) :
    (Scanner.run ⟨p, .gap, acc⟩ (u ++ rest)).finish =
      (Scanner.run ⟨p + u.length, .gap, ts.reverse ++ acc⟩ rest).finish := by
  induction h generalizing acc with
  | gap hg => exact hg.finish_run _ acc
  | token hg ht _ ih =>
    rw [List.append_assoc, List.append_assoc, hg.finish_run, ht.finish_run, ih]
    simp [Nat.add_assoc]

/-- A text that is laid out to its end is lexed to its end. -/
theorem lex_of_layout {s : Text} {ts : List Token} (h : Layout [] 0 s ts) : lex s = ⟨ts, none⟩ := by
  have hrun := h.finish_run []
  rw [List.append_nil] at hrun
  rw [lex, start, hrun]
  simp [Scanner.finish]

/-- Lexing stops at a string that is never closed. -/
theorem lex_of_opensString {u rest : Text} {ts : List Token} (h : Layout rest 0 u ts)
    (hrest : OpensString rest) : lex (u ++ rest) = ⟨ts, some (.openString u.length)⟩ := by
  obtain ⟨t, rfl, ht⟩ := hrest
  rw [lex, start, h.finish_run, run_cons, step_gap_quote]
  obtain ⟨taken, escaped, hrun⟩ := exists_run_string ht (0 + u.length + 1) (0 + u.length)
    [.scalar '"'] (ts.reverse ++ [])
  rw [hrun]
  simp [Scanner.finish]

/-- Lexing stops at a block comment that is never closed. -/
theorem lex_of_opensComment {u rest : Text} {ts : List Token} (h : Layout rest 0 u ts)
    (hrest : OpensComment rest) : lex (u ++ rest) = ⟨ts, some (.openComment u.length)⟩ := by
  obtain ⟨t, rfl, ht⟩ := hrest
  rw [lex, start, h.finish_run, run_gap_comment]
  obtain ⟨depth, last, hrun⟩ := exists_run_block ht (0 + u.length + 2) (0 + u.length)
    (ts.reverse ++ [])
  rw [hrun]
  simp [Scanner.finish]

/-! ## Every text is laid out -/

namespace Layout

variable {rest u : Text} {p : Nat} {ts : List Token}

/-- What makes a longer gap of every gap that starts the text after it can be put before the
text. -/
theorem skip {x : Text} (h : Layout rest (p + x.length) u ts)
    (hx : ∀ rest' g, g ++ rest' = u ++ rest → Gap rest' g → Gap rest' (x ++ g)) :
    Layout rest p (x ++ u) ts := by
  cases h with
  | gap hg => exact .gap (hx _ _ rfl hg)
  | @token _ g t u kind ts hg ht hu =>
    have hlen : p + x.length + g.length = p + (x ++ g).length := by
      rw [List.length_append, Nat.add_assoc]
    rw [hlen] at hu ⊢
    rw [← List.append_assoc]
    exact .token (hx _ _ (by simp) hg) ht hu

theorem blank {c : CodePoint} (hc : c.isBlank = true) (h : Layout rest (p + 1) u ts) :
    Layout rest p (c :: u) ts :=
  skip (x := [c]) h fun _ _ _ hg ↦ .blank hc hg

theorem line {body : Text} (hbody : ∀ c ∈ body, c ≠ '\n')
    (hend : (u ++ rest).head?.all (· == .scalar '\n') = true)
    (h : Layout rest (p + (.scalar ';' :: body).length) u ts) :
    Layout rest p (.scalar ';' :: body ++ u) ts :=
  h.skip fun _ _ heq hg ↦ .line hbody (heq ▸ hend) hg

theorem block {body : Text} (hbody : Closes 0 body)
    (h : Layout rest (p + (.scalar '#' :: .scalar '|' :: body).length) u ts) :
    Layout rest p (.scalar '#' :: .scalar '|' :: body ++ u) ts :=
  h.skip fun _ _ _ hg ↦ .block hbody hg

theorem lexeme {t : Text} {kind : TokenKind} (ht : Lexeme (u ++ rest) kind t)
    (h : Layout rest (p + t.length) u ts) : Layout rest p (t ++ u) (⟨kind, t, p⟩ :: ts) :=
  .token (g := []) .nil ht h

end Layout

/-- Text is laid out up to its end, or up to a string or a block comment that is never closed. -/
def LaidOut (p : Nat) (s : Text) : Prop :=
  ∃ u rest ts, u ++ rest = s ∧ Layout rest p u ts ∧
    (rest = [] ∨ OpensString rest ∨ OpensComment rest)

namespace LaidOut

variable {p : Nat} {s x : Text}

/-- What can be put before a layout can be put before text that is laid out. -/
theorem prepend (h : LaidOut (p + x.length) s)
    (hx : ∀ {u rest ts}, u ++ rest = s → Layout rest (p + x.length) u ts →
      ∃ ts', Layout rest p (x ++ u) ts') : LaidOut p (x ++ s) := by
  obtain ⟨u, rest, ts, rfl, hu, hrest⟩ := h
  obtain ⟨ts', hu'⟩ := hx rfl hu
  exact ⟨x ++ u, rest, ts', List.append_assoc _ _ _, hu', hrest⟩

theorem lexeme {kind : TokenKind} (hx : Lexeme s kind x) (h : LaidOut (p + x.length) s) :
    LaidOut p (x ++ s) := by
  apply h.prepend
  rintro u rest ts rfl hu
  exact ⟨_, hu.lexeme hx⟩

theorem stop (h : OpensString s ∨ OpensComment s) :
    LaidOut p s := ⟨[], s, [], rfl, .gap .nil, .inr h⟩

end LaidOut

theorem head?_dropWhile_all {q r : CodePoint → Bool} (h : ∀ c, q c = false → r c = true)
    (t : Text) :
    (t.dropWhile q).head?.all r = true := by
  have hd := List.head?_dropWhile_not q t
  cases ht : (t.dropWhile q).head? with
  | none => rfl
  | some c =>
    rw [ht] at hd
    exact h c (by simpa using hd)

/-- Whatever piece is taken off its front, the rest of a text is laid out. -/
def RestLaidOut (p : Nat) (s : Text) : Prop := ∀ x t, s = x ++ t → x ≠ [] → LaidOut (p + x.length) t

section

variable {p : Nat} {c : CodePoint} {t : Text}

theorem laidOut_of_blank (h : RestLaidOut p (c :: t)) (hc : c.isBlank = true) :
    LaidOut p (c :: t) := by
  apply (h [c] t rfl (by simp)).prepend
  intro u rest ts _ hu
  exact ⟨ts, hu.blank hc⟩

theorem laidOut_of_semicolon (h : RestLaidOut p (.scalar ';' :: t)) :
    LaidOut p (.scalar ';' :: t) := by
  have hsplit : .scalar ';' :: t =
      .scalar ';' :: t.takeWhile (· != .scalar '\n') ++ t.dropWhile (· != .scalar '\n') := by
    rw [List.cons_append, List.takeWhile_append_dropWhile]
  rw [hsplit]
  apply (h _ _ hsplit (by simp)).prepend
  intro u rest ts hu hlayout
  refine ⟨ts, hlayout.line (fun c hc ↦ by simpa using List.mem_takeWhile_imp hc) ?_⟩
  rw [hu]
  exact head?_dropWhile_all (fun c hc ↦ by simpa using hc) t

theorem laidOut_of_quote (h : RestLaidOut p (.scalar '"' :: t)) : LaidOut p (.scalar '"' :: t) := by
  by_cases hclosed : ∃ body after, IsStringBody body ∧ t = body ++ .scalar '"' :: after
  · obtain ⟨body, after, hbody, rfl⟩ := hclosed
    have hsplit : .scalar '"' :: (body ++ .scalar '"' :: after) =
        .scalar '"' :: (body ++ [.scalar '"']) ++ after := by simp
    rw [hsplit]
    exact (h _ after hsplit (by simp)).lexeme (.string hbody)
  · refine .stop (.inl ⟨t, rfl, fun body after hbody heq ↦ ?_⟩)
    exact hclosed ⟨body, after, hbody, heq⟩

theorem laidOut_of_comment (h : RestLaidOut p (.scalar '#' :: .scalar '|' :: t)) :
    LaidOut p (.scalar '#' :: .scalar '|' :: t) := by
  by_cases hclosed : ∃ body after, Closes 0 body ∧ t = body ++ after
  · obtain ⟨body, after, hbody, rfl⟩ := hclosed
    have hsplit : .scalar '#' :: .scalar '|' :: (body ++ after) =
        .scalar '#' :: .scalar '|' :: body ++ after := rfl
    rw [hsplit]
    apply (h _ after hsplit (by simp)).prepend
    intro u rest ts _ hlayout
    exact ⟨ts, hlayout.block hbody⟩
  · refine .stop (.inr ⟨t, rfl, fun body after hbody heq ↦ ?_⟩)
    exact hclosed ⟨body, after, hbody, heq⟩

theorem laidOut_of_symbol (h : RestLaidOut p (c :: t)) (hc : c.isDelimiter = false)
    (hmark : ¬ [.scalar '#', .scalar '|'] <+: c :: t) : LaidOut p (c :: t) := by
  have hsplit : c :: t =
      c :: t.takeWhile (!CodePoint.isDelimiter ·) ++ t.dropWhile (!CodePoint.isDelimiter ·) := by
    rw [List.cons_append, List.takeWhile_append_dropWhile]
  have hsymbol : IsSymbolText (c :: t.takeWhile (!CodePoint.isDelimiter ·)) := by
    refine ⟨by simp, ?_, fun hstart ↦ hmark ?_⟩
    · intro d hd
      rcases List.mem_cons.mp hd with rfl | hd
      · exact hc
      · simpa using List.mem_takeWhile_imp hd
    · rw [hsplit]
      exact hstart.trans (List.prefix_append _ _)
  rw [hsplit]
  apply (h _ _ hsplit (by simp)).lexeme
  exact .symbol hsymbol (head?_dropWhile_all (fun d hd ↦ by simpa using hd) t)

end

/-- Every text is laid out. -/
theorem laidOut (s : Text) (p : Nat) : LaidOut p s := by
  -- Each case takes a piece off the front, and the rest is shorter.
  induction hn : s.length using Nat.strong_induction_on generalizing s p with
  | _ n ih =>
  have hrest : RestLaidOut p s := by
    rintro x t rfl hx
    refine ih t.length ?_ t _ rfl
    rw [← hn, List.length_append]
    exact Nat.lt_add_of_pos_left (List.length_pos_iff.mpr hx)
  cases s with
  | nil => exact ⟨[], [], [], rfl, .gap .nil, .inl rfl⟩
  | cons c t =>
    by_cases hblank : c.isBlank = true
    · exact laidOut_of_blank hrest hblank
    by_cases hline : c = ';'
    · subst hline
      exact laidOut_of_semicolon hrest
    by_cases hopen : c = '('
    · subst hopen
      exact (hrest [_] t rfl (by simp)).lexeme .opening
    by_cases hclose : c = ')'
    · subst hclose
      exact (hrest [_] t rfl (by simp)).lexeme .closing
    by_cases hquote : c = '"'
    · subst hquote
      exact laidOut_of_quote hrest
    by_cases hmark : [.scalar '#', .scalar '|'] <+: c :: t
    · obtain ⟨t, ht⟩ := hmark
      rw [← ht] at hrest ⊢
      exact laidOut_of_comment hrest
    · refine laidOut_of_symbol hrest ?_ hmark
      simp [CodePoint.isDelimiter, hblank, hline, hopen, hclose, hquote]

/-! ## What a layout says of its tokens -/

theorem Lexeme.ne_nil {rest t : Text} {kind : TokenKind} (h : Lexeme rest kind t) : t ≠ [] := by
  cases h with
  | symbol ht _ => exact ht.1
  | _ => simp

namespace Layout

variable {rest u : Text} {p : Nat} {ts : List Token}

/-- Each token stands where its position says, and what follows it lets it be one. -/
theorem exists_split (h : Layout rest p u ts) {t : Token} (ht : t ∈ ts) :
    ∃ before after, u ++ rest = before ++ (t.text ++ after) ∧ t.position = p + before.length ∧
      Lexeme after t.kind t.text := by
  induction h with
  | gap => cases ht
  | @token p g x u kind ts hg hx _ ih =>
    rcases List.mem_cons.mp ht with rfl | ht
    · exact ⟨g, u ++ rest, by simp, rfl, hx⟩
    · obtain ⟨before, after, heq, hpos, hlex⟩ := ih ht
      refine ⟨g ++ x ++ before, after, by simp [heq], ?_, hlex⟩
      rw [hpos]
      simp [Nat.add_assoc]

/-- Tokens come one after another and do not overlap. -/
theorem pairwise (h : Layout rest p u ts) :
    ts.Pairwise fun a b ↦ a.position < b.position ∧ a.position + a.text.length ≤ b.position := by
  induction h with
  | gap => exact .nil
  | @token p g x u kind ts hg hx hu ih =>
    refine .cons (fun b hb ↦ ?_) ih
    obtain ⟨before, after, -, hpos, -⟩ := hu.exists_split hb
    have hlen : 0 < x.length := List.length_pos_iff.mpr hx.ne_nil
    rw [hpos]
    dsimp only
    omega

end Layout

/-- A text is laid out as gaps and the tokens that lexing it gives, up to where lexing ends or
fails. -/
theorem exists_layout_lex (s : Text) :
    ∃ u rest, u ++ rest = s ∧ Layout rest 0 u (lex s).tokens ∧
      ((lex s).failure = none ∧ rest = [] ∨
        (lex s).failure = some (.openString u.length) ∧ OpensString rest ∨
        (lex s).failure = some (.openComment u.length) ∧ OpensComment rest) := by
  obtain ⟨u, rest, ts, rfl, hu, rfl | hstring | hcomment⟩ := laidOut s 0
  · refine ⟨u, [], rfl, ?_⟩
    rw [List.append_nil, lex_of_layout hu]
    exact ⟨hu, .inl ⟨rfl, rfl⟩⟩
  · refine ⟨u, rest, rfl, ?_⟩
    rw [lex_of_opensString hu hstring]
    exact ⟨hu, .inr (.inl ⟨rfl, hstring⟩)⟩
  · refine ⟨u, rest, rfl, ?_⟩
    rw [lex_of_opensComment hu hcomment]
    exact ⟨hu, .inr (.inr ⟨rfl, hcomment⟩)⟩

/-- Lexing fails exactly where a string or a block comment that is never closed follows text that is
laid out. -/
theorem lex_fails_at_iff (s : Text) (p : Nat) :
    (∃ e, (lex s).failure = some e ∧ e.position? = some (p : Int)) ↔
      ∃ u rest ts, u ++ rest = s ∧ u.length = p ∧ Layout rest 0 u ts ∧
        (OpensString rest ∨ OpensComment rest) := by
  constructor
  · rintro ⟨e, he, hp⟩
    obtain ⟨u, rest, heq, hu, ⟨hnone, -⟩ | ⟨hsome, hopens⟩ | ⟨hsome, hopens⟩⟩ := exists_layout_lex s
    · rw [hnone] at he
      cases he
    · cases he.symm.trans hsome
      exact ⟨u, rest, _, heq, Int.ofNat_inj.mp (Option.some.inj hp), hu, .inl hopens⟩
    · cases he.symm.trans hsome
      exact ⟨u, rest, _, heq, Int.ofNat_inj.mp (Option.some.inj hp), hu, .inr hopens⟩
  · rintro ⟨u, rest, ts, rfl, rfl, hu, hopens | hopens⟩
    · exact ⟨_, by rw [lex_of_opensString hu hopens], rfl⟩
    · exact ⟨_, by rw [lex_of_opensComment hu hopens], rfl⟩

/-- The lexer loses nothing and fails for two reasons only. A text is laid out as gaps and the
tokens that lexing it gives, up to its end or up to the string or block comment where lexing fails
because it is never closed. Each token is the slice of the text at its position, tokens do not
overlap and come in order, and a symbol ends at a delimiter or at the end. Lexing fails wherever a
string or a block comment that is never closed follows text that is laid out, and only there. -/
theorem lex_layout (s : Text) :
    (∃ u rest, u ++ rest = s ∧ Layout rest 0 u (lex s).tokens ∧
      ((lex s).failure = none ∧ rest = [] ∨
        (lex s).failure = some (.openString u.length) ∧ OpensString rest ∨
        (lex s).failure = some (.openComment u.length) ∧ OpensComment rest)) ∧
    (∀ t ∈ (lex s).tokens, (s.drop t.position).take t.text.length = t.text ∧
      (t.kind = .symbol → IsSymbolText t.text ∧
        (s.drop (t.position + t.text.length)).head?.all CodePoint.isDelimiter = true)) ∧
    ((lex s).tokens.Pairwise fun a b ↦
      a.position < b.position ∧ a.position + a.text.length ≤ b.position) ∧
    ∀ p : Nat, (∃ e, (lex s).failure = some e ∧ e.position? = some (p : Int)) ↔
      ∃ u rest ts, u ++ rest = s ∧ u.length = p ∧ Layout rest 0 u ts ∧
        (OpensString rest ∨ OpensComment rest) := by
  obtain ⟨u, rest, heq, hu, hend⟩ := exists_layout_lex s
  refine ⟨⟨u, rest, heq, hu, hend⟩, fun t ht ↦ ?_, hu.pairwise, lex_fails_at_iff s⟩
  obtain ⟨before, after, hsplit, hpos, hlexeme⟩ := hu.exists_split ht
  rw [heq] at hsplit
  rw [Nat.zero_add] at hpos
  refine ⟨by simp [hsplit, hpos], fun hkind ↦ ?_⟩
  rw [hkind] at hlexeme
  cases hlexeme with
  | symbol hsymbol hafter => exact ⟨hsymbol, by simpa [hsplit, hpos] using hafter⟩

end Fexpr
