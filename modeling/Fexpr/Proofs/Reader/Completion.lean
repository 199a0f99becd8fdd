import Fexpr.Proofs.Reader.Append
import Fexpr.Proofs.Reader.Errors
import Mathlib.Tactic.WLOG

/-!
# Texts that only lack closing parentheses

Some texts are read once enough closing parentheses stand after them. Reading such a text alone
fails, and the error tells them from all others: it is that a list is not closed, or that the text
ends after a dotted tail.

The reader's stack of open lists is what connects the two. It is the stack of the opening
parentheses that are still open, which `openParens` finds by counting; each closing parenthesis
takes one list from it (`Reader.takes_closings`); and since the grammar is unambiguous, no other
number of them will do. Main statement: `incomplete_iff_closable`.
-/

namespace Fexpr

open Reader

/-! ## Closing parentheses after a text -/

/-- The text with a line feed and `n` closing parentheses after it. -/
def Text.close (s : Text) (n : Nat) : Text := s ++ .scalar '\n' :: List.replicate n (.scalar ')')

/-- The tokens of `n` closing parentheses from the position `p` on. -/
def closings (p n : Nat) : List Token := (List.range' p n).map fun i ↦ ⟨.closing, [.scalar ')'], i⟩

theorem kind_of_mem_closings (p n : Nat) : ∀ c ∈ closings p n, c.kind = .closing := by
  intro c h
  obtain ⟨i, -, rfl⟩ := List.mem_map.mp h
  rfl

@[simp] theorem length_closings (p n : Nat) : (closings p n).length = n := by simp [closings]

theorem closings_append (p n m : Nat) :
    closings p n ++ closings (p + n) m = closings p (n + m) := by
  rw [closings, closings, closings, ← List.map_append, List.range'_append_1]

theorem closings_later (k n : Nat) : (closings 0 n).map (Token.later k) = closings k n := by
  have hrange : List.range' k n = (List.range' 0 n).map (k + ·) := by
    rw [List.map_add_range', Nat.add_zero]
  rw [closings, closings, hrange, List.map_map, List.map_map]
  apply List.map_congr_left
  intro i _
  simp [Token.later, Nat.add_comm]

theorem layout_closings (p n : Nat) :
    Layout [] p (List.replicate n (.scalar ')')) (closings p n) := by
  induction n generalizing p with
  | zero => exact .gap .nil
  | succ n ih => exact Layout.lexeme .closing (ih (p + 1))

namespace Lexer

/-- The scanner is inside of something that has to be closed. -/
def Mode.isOpen : Mode → Bool
  | block _ _ _ | string _ _ _ => true
  | _ => false

namespace Scanner

theorem isSome_failure_finish (s : Scanner) : s.finish.failure.isSome = s.mode.isOpen := by
  obtain ⟨p, mode, ts⟩ := s
  cases mode <;> rfl

/-- Only a quote or a `#` can close what is open. -/
theorem isOpen_step {s : Scanner} (h : s.mode.isOpen = true) {c : CodePoint} (hquote : c ≠ '"')
    (hhash : c ≠ '#') : (s.step c).mode.isOpen = true := by
  obtain ⟨p, mode, ts⟩ := s
  cases mode with
  | block start depth last =>
    simp only [step, comment, hhash, and_false, if_false]
    split <;> rfl
  | string start taken escaped =>
    simp only [step, hquote, if_false]
    split <;> rfl
  | _ => cases h

theorem isOpen_run {s : Scanner} (h : s.mode.isOpen = true) {t : Text}
    (ht : ∀ c ∈ t, c ≠ '"' ∧ c ≠ '#') : (s.run t).mode.isOpen = true := by
  induction t generalizing s with
  | nil => exact h
  | cons c t ih =>
    obtain ⟨hquote, hhash⟩ := ht c (by simp)
    exact ih (isOpen_step h hquote hhash) fun d hd ↦ ht d (by simp [hd])

end Scanner

end Lexer

/-- Closing parentheses close no string and no comment. -/
theorem lex_close_of_failure {s : Text} (h : (lex s).failure ≠ none) (n : Nat) :
    (lex (s.close n)).failure ≠ none := by
  rw [← Option.isSome_iff_ne_none, lex, Lexer.Scanner.isSome_failure_finish] at h ⊢
  rw [Text.close, Lexer.Scanner.run_append]
  apply Lexer.Scanner.isOpen_run h
  intro c hc
  rcases List.mem_cons.mp hc with rfl | hc
  · decide
  · rw [List.eq_of_mem_replicate hc]
    decide

theorem lex_close {s : Text} (h : (lex s).failure = none) (n : Nat) :
    lex (s.close n) = ⟨(lex s).tokens ++ closings (s.length + 1) n, none⟩ := by
  rw [Text.close, lex_append_newline h, lex_of_layout (layout_closings 0 n), closings_later]
  rfl

/-- A text with parentheses after it is read if it is lexed to its end and its tokens with these
spell an expression. -/
theorem readOne_close_iff [CharacterNames] (s : Text) (n : Nat) (d : Datum) :
    readOne (s.close n) = .ok d ↔
      (lex s).failure = none ∧ Derives ((lex s).tokens ++ closings (s.length + 1) n) d := by
  rw [readOne_eq_ok_iff]
  by_cases h : (lex s).failure = none
  · simp [lex_close h, h]
  · simp [lex_close_of_failure h, h]

/-- No two numbers of parentheses will do. -/
theorem close_unique [CharacterNames] {s : Text} {n m : Nat} {d e : Datum}
    (hn : readOne (s.close n) = .ok d) (hm : readOne (s.close m) = .ok e) : n = m := by
  wlog h : n ≤ m generalizing n m d e
  · exact (this hm hn (Nat.le_of_not_le h)).symm
  obtain ⟨k, rfl⟩ := Nat.exists_eq_add_of_le h
  obtain ⟨-, hn⟩ := (readOne_close_iff s n d).mp hn
  obtain ⟨-, hm⟩ := (readOne_close_iff s (n + k) e).mp hm
  rw [← closings_append, ← List.append_assoc] at hm
  obtain ⟨-, -, hnil⟩ := hn.append_cancel hm (List.append_nil _).symm
  have hk : k = 0 := by simpa using congrArg List.length hnil
  rw [hk, Nat.add_zero]

/-! ## Parentheses that are still open -/

/-- The parentheses that are open after one more token, innermost first. -/
def track (opens : List Token) (t : Token) : List Token :=
  match t.kind with
  | .opening => t :: opens
  | .closing => opens.tail
  | _ => opens

/-- The opening parentheses among tokens that are still open at their end, innermost first. -/
def openParens (ts : List Token) : List Token := ts.foldl track []

theorem openParens_append (ts us : List Token) :
    openParens (ts ++ us) = us.foldl track (openParens ts) :=
  List.foldl_append ..

theorem foldl_track_flatMap {parts : List Segment}
    (h : ∀ p ∈ parts, ∀ opens, p.1.foldl track opens = opens) (opens : List Token) :
    (parts.flatMap Prod.fst).foldl track opens = opens := by
  induction parts with
  | nil => rfl
  | cons p parts ih =>
    rw [List.flatMap_cons, List.foldl_append, h p (by simp), ih fun q hq ↦ h q (by simp [hq])]

/-- An expression closes what it opens. -/
theorem Derives.foldl_track [CharacterNames] {ts : List Token} {d : Datum} (h : Derives ts d)
    (opens : List Token) :
    ts.foldl track opens = opens := by
  induction h generalizing opens with
  | atom hk => simp [track, hk]
  | string hk => simp [track, hk]
  | @list o c parts ho hc _ ih =>
    rw [List.foldl_cons, List.foldl_append, foldl_track_flatMap ih]
    simp [track, ho, hc]
  | @dotted o t c parts us d ho ht hc _ _ _ ihs ih =>
    rw [List.foldl_cons, List.foldl_append, foldl_track_flatMap ihs, List.foldl_cons,
      List.foldl_append, ih]
    simp [track, ho, hc, Token.kind_of_isDot ht]

namespace Reader

/-- The lists that are open in a state. -/
def State.depth : State → Nat
  | expression stack => stack.length
  | closing _ _ stack => stack.length + 1

/-- Each list on the stack has its parenthesis, and that of a list among whose items the reader is
has the position that is kept for it. -/
theorem Opened.openParens_cons [CharacterNames] {top : OpenList} {stack : List OpenList}
    {ts : List Token} (h : Opened (top :: stack) ts) :
    ∃ o us, Opened stack us ∧ openParens ts = o :: openParens us ∧
      ∀ start ds, top = .items start ds → o.position = start := by
  cases h with
  | @items _ us o parts h ho hparts =>
    refine ⟨o, us, h, ?_, ?_⟩
    · rw [openParens_append, List.foldl_cons,
        foldl_track_flatMap fun p hp ↦ (hparts p hp).foldl_track]
      simp [track, ho]
    · rintro start ds ⟨⟩
      rfl
  | @dotted _ us o t parts h ho hparts _ ht =>
    refine ⟨o, us, h, ?_, ?_⟩
    · rw [openParens_append, List.foldl_cons, List.foldl_append,
        foldl_track_flatMap fun p hp ↦ (hparts p hp).foldl_track]
      simp [track, ho, Token.kind_of_isDot ht]
    · rintro start ds ⟨⟩

theorem Opened.length_openParens [CharacterNames] {stack : List OpenList} {ts : List Token}
    (h : Opened stack ts) :
    (openParens ts).length = stack.length := by
  induction stack generalizing ts with
  | nil =>
    cases h
    rfl
  | cons top stack ih =>
    obtain ⟨o, us, hus, hts, -⟩ := h.openParens_cons
    rw [hts, List.length_cons, ih hus, List.length_cons]

/-- As many lists are open in the reader as parentheses among the tokens that it has taken. -/
theorem State.Since.length_openParens [CharacterNames] {s : State} {ts : List Token}
    (h : s.Since ts) :
    (openParens ts).length = s.depth := by
  cases s with
  | expression stack => exact Opened.length_openParens h
  | closing ds d stack =>
    obtain ⟨us, vs, dot, rfl, hopen, hd⟩ := h
    rw [openParens_append, hd.foldl_track]
    exact hopen.length_openParens

end Reader

/-! ## Errors of texts that go on -/

/-- Whether an error is that the text ended before its lists were closed. -/
def ReadError.isIncomplete : ReadError → Bool
  | openList _ | notLast none => true
  | _ => false

theorem Text.ofString_inj {s t : String} : ofString s = ofString t ↔ s = t := by
  rw [ofString, ofString, ofChars, ofChars, List.map_inj_right (by simp), String.toList_inj]

/-- The messages by which such errors are known. -/
theorem ReadError.isIncomplete_iff (e : ReadError) :
    e.isIncomplete = true ↔ e.reason = "Unmatched '('" ∨
      e.reason = "Expected ')' after dotted tail" ∧ e.position? = some (-1) := by
  cases e with
  | notLast p =>
    cases p with
    | none => simp [isIncomplete, reason, position?]
    | some p =>
      simp only [isIncomplete, reason, position?, Text.ofString_inj]
      simp
  | badLiteral literal p => simp [isIncomplete, reason, Text.ofString]
  | tooManyDigits n => simp [isIncomplete, reason, Digit.exceeded, Text.ofString]
  | _ => simp [isIncomplete, reason, Text.ofString_inj]

namespace Reader

/-- The lists that are open in a state can be closed: the reader is among the items of one, or after
its tail. -/
inductive State.Incomplete : State → Prop
  | items (start : Nat) (ds : List Datum) (stack : List OpenList) :
    Incomplete (.expression (.items start ds :: stack))
  | closing (ds : List Datum) (d : Datum) (stack : List OpenList) : Incomplete (.closing ds d stack)

/-- What the reader says if the text ends in such a state. -/
theorem incomplete_iff_atEnd (s : State) :
    s.Incomplete ↔ ∃ e, s.atEnd = some e ∧ e.isIncomplete = true := by
  constructor
  · rintro (_ | _) <;> exact ⟨_, rfl, rfl⟩
  · rintro ⟨e, hend, he⟩
    match s with
    | .expression (.items start ds :: stack) => exact .items start ds stack
    | .expression (.dotted ds dot :: stack) =>
      cases hend
      cases he
    | .closing ds d stack => exact .closing ds d stack

theorem State.Incomplete.depth_pos {s : State} (h : s.Incomplete) : 1 ≤ s.depth := by
  cases h <;> exact Nat.le_add_left ..

/-- After an expression either none is open, or the innermost open list can be closed. -/
theorem incomplete_feed (d : Datum) (stack : List OpenList) :
    feed d stack = .done d ∧ stack = [] ∨
      ∃ s, feed d stack = .shift s ∧ s.Incomplete ∧ s.depth = stack.length := by
  match stack with
  | [] => exact .inl ⟨rfl, rfl⟩
  | .items start ds :: stack => exact .inr ⟨_, rfl, .items _ _ _, rfl⟩
  | .dotted ds dot :: stack => exact .inr ⟨_, rfl, .closing _ _ _, rfl⟩

/-- A closing parenthesis closes the innermost list. -/
theorem takes_closing [CharacterNames] {s : State} (hs : s.Incomplete) {c : Token}
    (hc : c.kind = .closing) :
    ∃ d stack, Takes s [c] (feed d stack) ∧ s.depth = stack.length + 1 := by
  cases hs with
  | items start ds stack => exact ⟨_, stack, takes_closing_items hc start ds stack, rfl⟩
  | closing ds d stack => exact ⟨_, stack, takes_closing_tail hc ds d stack, rfl⟩

/-- As many closing parentheses as there are open lists make an expression. -/
theorem takes_closings [CharacterNames] {s : State} (hs : s.Incomplete) {cs : List Token}
    (hcs : ∀ c ∈ cs, c.kind = .closing) (hlen : cs.length = s.depth) :
    ∃ d, Takes s cs (.done d) := by
  induction cs generalizing s with
  | nil => exact absurd hlen (Nat.ne_of_lt hs.depth_pos)
  | cons c cs ih =>
    obtain ⟨d, stack, hc, hdepth⟩ := takes_closing hs (hcs c (by simp))
    have hstack : cs.length = stack.length := by
      rw [List.length_cons, hdepth] at hlen
      exact Nat.succ.inj hlen
    rcases incomplete_feed d stack with ⟨hfeed, rfl⟩ | ⟨s', hfeed, hs', hdepth'⟩
    · rw [List.length_eq_zero_iff.mp hstack]
      exact ⟨d, hfeed ▸ hc⟩
    · obtain ⟨d', hd'⟩ := ih hs' (fun c' hc' ↦ hcs c' (by simp [hc'])) (hstack.trans hdepth'.symm)
      rw [hfeed] at hc
      exact ⟨d', hc.trans hd'⟩

/-- The reader takes all tokens, or stops at one of them, whatever comes after. -/
theorem takes_or_stops [CharacterNames] {s : State} {us : List Token} (hs : s.Since us)
    (ts : List Token) :
    (∃ s', Takes s ts (.shift s') ∧ s'.Since (us ++ ts)) ∨
      ∃ before t after s', ts = before ++ t :: after ∧ Takes s before (.shift s') ∧
        ∀ s'', s'.step t ≠ .shift s'' := by
  induction ts generalizing s us with
  | nil =>
    rw [List.append_nil]
    exact .inl ⟨s, .refl s, hs⟩
  | cons t ts ih =>
    cases hr : s.step t with
    | shift s' =>
      have hstep := hs.step t
      rw [hr] at hstep
      rw [List.append_cons]
      rcases ih hstep with ⟨s'', htakes, hsince⟩ | ⟨before, t', after, s'', rfl, htakes, hstop⟩
      · exact .inl ⟨s'', (Takes.shift hr).trans htakes, hsince⟩
      · exact .inr ⟨t :: before, t', after, s'', rfl, (Takes.shift hr).trans htakes, hstop⟩
    | _ => exact .inr ⟨[], t, ts, s, rfl, .refl s, by simp [hr]⟩

end Reader

theorem Reader.State.Refuses.isIncomplete {s : State} {t : Token} {e : ReadError}
    (h : s.Refuses t e) :
    e.isIncomplete = false := by
  cases h <;> rfl

theorem isIncomplete_of_lex {s : Text} {e : ReadError} (h : (lex s).failure = some e) :
    e.isIncomplete = false := by
  obtain ⟨start, rfl | rfl⟩ := lex_failure h <;> rfl

/-- A text that the reader stops in is not incomplete. -/
theorem isIncomplete_of_stops [CharacterNames] {s : Text} {before after : List Token} {t : Token}
    {s' : State} {e : ReadError} (hts : (lex s).tokens = before ++ t :: after)
    (htakes : Takes (.expression []) before (.shift s')) (hstop : ∀ s'', s'.step t ≠ .shift s'')
    (h : readOne s = .error e) : e.isIncomplete = false := by
  have hread : (Stream.ofText s).read = Stream.readFrom (lex s).failure s' (t :: after) := by
    change Stream.readFrom (lex s).failure (.expression []) (lex s).tokens = _
    rw [hts]
    exact htakes (lex s).failure (t :: after)
  rw [readOne, hread, Stream.readFrom] at h
  cases hr : s'.step t with
  | shift s'' => exact absurd hr (hstop s'')
  | done d =>
    rw [hr] at h
    cases after with
    | cons t' after =>
      cases h
      rfl
    | nil =>
      cases hf : (lex s).failure with
      | none =>
        simp [hf, Stream.peek] at h
      | some e' =>
        simp only [hf, Stream.peek] at h
        cases h
        exact isIncomplete_of_lex hf
  | reject e' =>
    rw [hr] at h
    cases h
    exact (refuses_of_step (by rw [hr]; rfl)).isIncomplete
  | fault e' =>
    rw [hr] at h
    cases h
    exact (refuses_of_step (by rw [hr]; rfl)).isIncomplete

/-- A text is incomplete if it is lexed to its end, and the reader then has lists open that can be
closed. -/
theorem readOne_incomplete_iff [CharacterNames] {e : ReadError} (he : e.isIncomplete = true)
    (s : Text) :
    readOne s = .error e ↔ (lex s).failure = none ∧ ∃ s' : State, s'.atEnd = some e ∧
      Takes (.expression []) (lex s).tokens (.shift s') ∧ s'.Since (lex s).tokens := by
  -- Once all tokens are taken, what is left is the end.
  have hend {s' : State} (htakes : Takes (.expression []) (lex s).tokens (.shift s')) :
      (Stream.ofText s).read = Stream.readFrom (lex s).failure s' [] := by
    have h := htakes (lex s).failure []
    rw [List.append_nil] at h
    exact h
  constructor
  · intro h
    rcases takes_or_stops since_start (lex s).tokens with
      ⟨s', htakes, hsince⟩ | ⟨_, _, _, _, hts, htakes, hstop⟩
    · rw [readOne, hend htakes, Stream.readFrom] at h
      cases hf : (lex s).failure with
      | some e' =>
        rw [hf] at h
        cases h
        rw [isIncomplete_of_lex hf] at he
        cases he
      | none =>
        refine ⟨rfl, s', ?_, htakes, hsince⟩
        cases hs' : s'.atEnd with
        | none =>
          simp only [hf, hs'] at h
          cases h
          cases he
        | some e' =>
          simp only [hf, hs'] at h
          cases h
          rfl
    · rw [isIncomplete_of_stops hts htakes hstop h] at he
      cases he
  · rintro ⟨hf, s', hs', htakes, -⟩
    rw [readOne, hend htakes, Stream.readFrom, hf, hs']
    rfl

/-! ## Closing a text -/

/-- Where a closing parenthesis is taken, the open lists can be closed. -/
theorem Reader.incomplete_of_readFrom [CharacterNames] {failure : Option ReadError} {s : State}
    {c : Token} {cs : List Token} {d : Option Datum} {r : Stream} (hc : c.kind = .closing)
    (h : Stream.readFrom failure s (c :: cs) = (.ok d, r)) : s.Incomplete := by
  match s with
  | .expression [] => simp [Stream.readFrom, State.step, hc, close] at h
  | .expression (.items start ds :: stack) => exact .items start ds stack
  | .expression (.dotted ds dot :: stack) => simp [Stream.readFrom, State.step, hc, close] at h
  | .closing ds d stack => exact .closing ds d stack

/-- A text that parentheses complete is incomplete. -/
theorem incomplete_of_close [CharacterNames] {s : Text} {n : Nat} (hn : 1 ≤ n) {d : Datum}
    (h : readOne (s.close n) = .ok d) :
    ∃ e, readOne s = .error e ∧ e.isIncomplete = true := by
  obtain ⟨hf, hd⟩ := (readOne_close_iff s n d).mp h
  have hread := hd.takes [] none []
  rw [List.append_nil] at hread
  obtain ⟨m, rfl⟩ := Nat.exists_eq_add_of_le' hn
  rcases takes_or_stops since_start (lex s).tokens with
    ⟨s', htakes, hsince⟩ | ⟨before, t, after, s', hts, htakes, hstop⟩
  · rw [htakes none] at hread
    obtain ⟨e, hend, he⟩ := (incomplete_iff_atEnd s').mp (incomplete_of_readFrom rfl hread)
    exact ⟨e, (readOne_incomplete_iff he s).mpr ⟨hf, s', hend, htakes, hsince⟩, he⟩
  · -- A reader that stops before the parentheses does not come to the end.
    rw [hts, List.append_assoc, htakes none] at hread
    change Stream.readFrom none s' (t :: (after ++ closings _ (m + 1))) = _ at hread
    rw [Stream.readFrom] at hread
    cases hr : s'.step t with
    | shift s'' => exact absurd hr (hstop s'')
    | done d' => simp [hr, feed, Step.resume, closings] at hread
    | reject e => simp [hr, feed, Step.resume] at hread
    | fault e => simp [hr, feed, Step.resume] at hread

theorem close_iff_of_incomplete [CharacterNames] {s : Text} {e : ReadError}
    (he : e.isIncomplete = true) (h : readOne s = .error e) (n : Nat) :
    (∃ d, readOne (s.close n) = .ok d) ↔ n = (openParens (lex s).tokens).length := by
  obtain ⟨hf, s', hend, htakes, hsince⟩ := (readOne_incomplete_iff he s).mp h
  obtain ⟨d, hd⟩ : ∃ d, readOne (s.close (openParens (lex s).tokens).length) = .ok d := by
    obtain ⟨d, hd⟩ := takes_closings ((incomplete_iff_atEnd s').mpr ⟨e, hend, he⟩)
      (kind_of_mem_closings (s.length + 1) (openParens (lex s).tokens).length)
      (by rw [length_closings, hsince.length_openParens])
    exact ⟨d, readOne_of_takes (lex_close hf _) (htakes.trans hd)⟩
  constructor
  · rintro ⟨d', hd'⟩
    exact close_unique hd' hd
  · rintro rfl
    exact ⟨d, hd⟩

/-- The error of a list that is not closed tells where the innermost one starts. -/
theorem exists_openParen_of_unmatched [CharacterNames] {s : Text} {e : ReadError}
    (h : readOne s = .error e)
    (hreason : e.reason = "Unmatched '('") :
    ∃ o outer, openParens (lex s).tokens = o :: outer ∧ e.position? = some (o.position : Int) := by
  have he : e.isIncomplete = true := e.isIncomplete_iff.mpr (.inl hreason)
  obtain ⟨-, s', hend, -, hsince⟩ := (readOne_incomplete_iff he s).mp h
  match s' with
  | .expression (.items start ds :: stack) =>
    cases hend
    obtain ⟨o, us, -, hopen, hstart⟩ := Opened.openParens_cons hsince
    exact ⟨o, _, hopen, by rw [hstart start ds rfl]; rfl⟩
  | .expression (.dotted ds dot :: stack) =>
    cases hend
    cases he
  | .closing ds d stack =>
    cases hend
    simp [ReadError.reason, Text.ofString_inj] at hreason

/-- Closing parentheses on a new line complete a text if and only if reading the text fails because
a list is not closed, or because the text ends after a dotted tail. If a list is not closed, the
error is reported where the innermost opening parenthesis that is still open stands, and what
completes the text is one closing parenthesis for each that is still open, no fewer and no more. -/
theorem incomplete_iff_closable [CharacterNames] (s : Text) :
    ((∃ n, 1 ≤ n ∧ ∃ d, readOne (s.close n) = .ok d) ↔
      ∃ e, readOne s = .error e ∧ (e.reason = "Unmatched '('" ∨
        e.reason = "Expected ')' after dotted tail" ∧ e.position? = some (-1))) ∧
    ∀ e, readOne s = .error e → e.reason = "Unmatched '('" →
      (∃ o outer, openParens (lex s).tokens = o :: outer ∧ e.position? = some (o.position : Int)) ∧
      ∀ n, (∃ d, readOne (s.close n) = .ok d) ↔ n = (openParens (lex s).tokens).length := by
  constructor
  · simp only [← ReadError.isIncomplete_iff]
    constructor
    · rintro ⟨n, hn, d, hd⟩
      exact incomplete_of_close hn hd
    · rintro ⟨e, h, he⟩
      obtain ⟨-, s', hend, -, hsince⟩ := (readOne_incomplete_iff he s).mp h
      refine ⟨_, ?_, (close_iff_of_incomplete he h _).mpr rfl⟩
      rw [hsince.length_openParens]
      exact ((incomplete_iff_atEnd s').mpr ⟨e, hend, he⟩).depth_pos
  · intro e h hreason
    have he : e.isIncomplete = true := e.isIncomplete_iff.mpr (.inl hreason)
    exact ⟨exists_openParen_of_unmatched h hreason, close_iff_of_incomplete he h⟩

end Fexpr
