import Fexpr.Proofs.Token.Layout

/-!
# Lexing one text after another

Text that is laid out stays laid out wherever it stands, up to the positions of its tokens
(`Layout.later`), and the layouts of two texts make one of both (`Layout.append`). So after text
that is laid out whatever follows it, lexing starts anew (`lex_append_of_layout`). A line feed,
which ends every symbol and every line comment, makes such text of any that is lexed to its end, and
so do white space and comments after it: `lex_append_filler`.
-/

namespace Fexpr

/-! ## Moving positions -/

/-- The token `k` code points later. -/
def Token.later (k : Nat) (t : Token) : Token := { t with position := t.position + k }

/-- The error `k` code points later. -/
def ReadError.later (k : Nat) : ReadError → ReadError
  | openComment p => openComment (p + k)
  | openString p => openString (p + k)
  | openList p => openList (p + k)
  | strayClose p => strayClose (p + k)
  | strayDot p => strayDot (p + k)
  | nothingBeforeDot p => nothingBeforeDot (p + k)
  | nothingAfterDot p => nothingAfterDot (p + k)
  | notLast p => notLast (p.map (· + k))
  | badLiteral literal p => badLiteral literal (p + k)
  | tooManyDigits n => tooManyDigits n
  | nothing => nothing
  | surplus p => surplus (p + k)

/-! ## Joining layouts -/

/-- Two gaps in a row are one. -/
theorem Gap.append {rest g h : Text} (hg : Gap (h ++ rest) g) (hh : Gap rest h) :
    Gap rest (g ++ h) := by
  induction hg with
  | nil => exact hh
  | blank hc _ ih => exact .blank hc ih
  | line hbody hend _ ih =>
    rw [List.cons_append, List.append_assoc]
    refine .line hbody ?_ ih
    rwa [List.append_assoc]
  | block hbody _ ih =>
    rw [List.cons_append, List.cons_append, List.append_assoc]
    exact .block hbody ih

/-- A gap at the end is one before a line feed too: no line comment goes on. -/
theorem Gap.before_newline {rest g : Text} (h : Gap rest g) (v : Text) :
    Gap (rest ++ .scalar '\n' :: v) g := by
  induction h with
  | nil => exact .nil
  | blank hc _ ih => exact .blank hc ih
  | @line body g hbody hend _ ih =>
    refine .line hbody ?_ ih
    rw [← List.append_assoc]
    cases hg : g ++ rest with
    | nil => rfl
    | cons c t =>
      rw [hg] at hend
      exact hend
  | block hbody _ ih => exact .block hbody ih

/-- A symbol that ends does so before a line feed too. -/
theorem Lexeme.before_newline {rest t : Text} {kind : TokenKind} (h : Lexeme rest kind t)
    (v : Text) :
    Lexeme (rest ++ .scalar '\n' :: v) kind t := by
  cases h with
  | opening => exact .opening
  | closing => exact .closing
  | string hbody => exact .string hbody
  | symbol ht hend =>
    refine .symbol ht ?_
    cases rest with
    | nil => rfl
    | cons c rest => exact hend

namespace Layout

variable {rest u : Text} {p : Nat} {ts : List Token}

theorem later (h : Layout rest p u ts) (k : Nat) :
    Layout rest (p + k) u (ts.map (Token.later k)) := by
  induction h with
  | gap hg => exact .gap hg
  | @token p g t u kind ts hg ht _ ih =>
    have hpos : p + g.length + k = p + k + g.length := by omega
    have hnext : p + g.length + t.length + k = p + k + g.length + t.length := by omega
    rw [hnext] at ih
    rw [List.map_cons, Token.later, hpos]
    exact .token hg ht ih

/-- Text that is laid out after text that is laid out. -/
theorem append {v : Text} {us : List Token} (hu : Layout (v ++ rest) p u ts)
    (hv : Layout rest (p + u.length) v us) : Layout rest p (u ++ v) (ts ++ us) := by
  induction hu with
  | gap hg =>
    refine hv.skip fun rest' h heq hh ↦ ?_
    rw [← heq] at hg
    exact hg.append hh
  | @token p g t u kind ts hg ht _ ih =>
    have hlen : p + (g ++ (t ++ u)).length = p + g.length + t.length + u.length := by
      simp [Nat.add_assoc]
    rw [hlen] at hv
    rw [← List.append_assoc u v rest] at hg ht
    rw [List.append_assoc, List.append_assoc, List.cons_append]
    exact .token hg ht (ih hv)

/-- What is laid out to the end is laid out before a line feed: no line comment and no symbol goes
on. -/
theorem before_newline (h : Layout rest p u ts) (v : Text) :
    Layout (rest ++ .scalar '\n' :: v) p u ts := by
  induction h with
  | gap hg => exact .gap (hg.before_newline v)
  | token hg ht _ ih =>
    have hg := hg.before_newline v
    have ht := ht.before_newline v
    rw [List.append_assoc, List.append_assoc] at hg
    rw [List.append_assoc] at ht
    exact .token hg ht ih

end Layout

theorem layout_of_lex {u : Text} (h : (lex u).failure = none) : Layout [] 0 u (lex u).tokens := by
  obtain ⟨v, rest, rfl, hv, ⟨-, rfl⟩ | ⟨hfail, -⟩ | ⟨hfail, -⟩⟩ := exists_layout_lex u
  · rwa [List.append_nil] at hv ⊢
  · rw [h] at hfail
    cases hfail
  · rw [h] at hfail
    cases hfail

/-- After a text that is laid out whatever follows it, lexing starts anew. -/
theorem lex_append_of_layout {u : Text} {ts : List Token} (hu : ∀ rest, Layout rest 0 u ts)
    (v : Text) :
    lex (u ++ v) = ⟨ts ++ (lex v).tokens.map (Token.later u.length),
      (lex v).failure.map (ReadError.later u.length)⟩ := by
  obtain ⟨w, rest, rfl, hw, hend⟩ := exists_layout_lex v
  have hboth := (hu (w ++ rest)).append (hw.later u.length)
  have hlen : (u ++ w).length = w.length + u.length := by rw [List.length_append, Nat.add_comm]
  rw [← List.append_assoc]
  rcases hend with ⟨hfail, rfl⟩ | ⟨hfail, hopens⟩ | ⟨hfail, hopens⟩
  · rw [hfail, List.append_nil, lex_of_layout hboth, List.append_nil]
    rfl
  · rw [lex_of_opensString hboth hopens, hfail, hlen]
    rfl
  · rw [lex_of_opensComment hboth hopens, hfail, hlen]
    rfl

/-! ## Lexing across white space and comments -/

/-- White space, line comments with the line feeds that end them, and closed block comments, in any
order. -/
inductive Filler : Text → Prop
  | nil : Filler []
  | blank {c : CodePoint} {g : Text} : c.isBlank = true → Filler g → Filler (c :: g)
  | line {body g : Text} : (∀ c ∈ body, c ≠ '\n') → Filler g →
      Filler (.scalar ';' :: (body ++ .scalar '\n' :: g))
  | block {body g : Text} : Closes 0 body → Filler g →
      Filler (.scalar '#' :: .scalar '|' :: (body ++ g))

theorem isBlank_newline : (CodePoint.scalar '\n').isBlank = true := by decide

/-- Filler is a gap whatever follows it. -/
theorem Filler.gap {g : Text} (h : Filler g) (rest : Text) : Gap rest g := by
  induction h with
  | nil => exact .nil
  | blank hc _ ih => exact .blank hc ih
  | line hbody _ ih => exact .line hbody rfl (.blank isBlank_newline ih)
  | block hbody _ ih => exact .block hbody ih

/-- What is laid out to its end, a line feed and filler are laid out whatever follows them: the line
feed ends every symbol and every line comment. -/
theorem Layout.append_filler {u g : Text} {p : Nat} {ts : List Token} (hu : Layout [] p u ts)
    (hg : Filler g) (rest : Text) : Layout rest p (u ++ .scalar '\n' :: g) ts := by
  have hbefore : Layout (.scalar '\n' :: g ++ rest) p u ts := hu.before_newline (g ++ rest)
  have hgap : Layout rest (p + u.length) (.scalar '\n' :: g) [] :=
    .gap ((Filler.blank isBlank_newline hg).gap rest)
  have hboth := hbefore.append hgap
  rwa [List.append_nil] at hboth

/-- After a text that is lexed to its end and a line feed, lexing starts anew. -/
theorem lex_append_newline {u : Text} (hu : (lex u).failure = none) (v : Text) :
    lex (u ++ .scalar '\n' :: v) =
      ⟨(lex u).tokens ++ (lex v).tokens.map (Token.later (u.length + 1)),
        (lex v).failure.map (ReadError.later (u.length + 1))⟩ := by
  have h := lex_append_of_layout ((layout_of_lex hu).append_filler .nil) v
  rwa [List.append_assoc, List.length_append] at h

/-- Let a text `u` be lexed to its end, and let a line feed and any mix of white space, line
comments with the line feeds that end them, and block comments that close at their ends follow it.
After these a text `v` is lexed as it is alone: to the tokens of `u` its own are added, and it ends
or fails as it does alone, where tokens and failure stand later by the length of what comes before
`v`. -/
theorem lex_append_filler {u g : Text} (hu : (lex u).failure = none) (hg : Filler g) (v : Text) :
    let before := u ++ .scalar '\n' :: g
    lex (before ++ v) =
      ⟨(lex u).tokens ++ (lex v).tokens.map (Token.later before.length),
        (lex v).failure.map (ReadError.later before.length)⟩ :=
  lex_append_of_layout ((layout_of_lex hu).append_filler hg) v

/-- The comments hold a quote and a parenthesis that nothing closes, before and after the line feed,
and are nested; after them a symbol and a string that is not closed are found where they stand. -/
theorem lex_append_filler_nested :
    let u : Text := "a;\""
    let g : Text := ";)\n#|\"(#||#|#"
    let v : Text := "b \""
    (lex u).failure = none ∧ Filler g ∧
    lex (u ++ .scalar '\n' :: g ++ v) =
      ⟨[⟨.symbol, "a", 0⟩, ⟨.symbol, "b", 17⟩], some (.openString 19)⟩ := by
  intro u g v
  have hu : lex u = ⟨[⟨.symbol, "a", 0⟩], none⟩ := by decide
  have hv : lex v = ⟨[⟨.symbol, "b", 0⟩], some (.openString 2)⟩ := by decide
  have hbody : Closes 0 ("\"(#||#|#" : Text) := .other (by decide) (by decide) <|
    .other (by decide) (by decide) (.nest (.close .last))
  have hline : ∀ c ∈ ([.scalar ')'] : Text), c ≠ '\n' := by simp
  have hg : Filler g := .line hline (.block (g := []) hbody .nil)
  have hfailure : (lex u).failure = none := by rw [hu]
  refine ⟨hfailure, hg, ?_⟩
  rw [lex_append_filler hfailure hg v, hu, hv]
  rfl

end Fexpr
