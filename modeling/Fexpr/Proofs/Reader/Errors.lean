import Fexpr.Token.Stream
import Mathlib.Tactic.SplitIfs

/-!
# Where errors of the reader come from

Reading fails with an error of the lexer, of a step of the reader, or of the end of the tokens;
reading one expression fails also if there is none or more than one. So an integer is refused for
its digits only if it has more than the reader takes.
-/

namespace Fexpr

/-- An error that counts the digits of an integer counts more than the limit. -/
def ReadError.Counted (e : ReadError) : Prop :=
  ∀ count, e = .tooManyDigits count → Digit.limit < count

namespace Reader

/-- The error that a step ends with, if it does. -/
def Step.error? : Step → Option ReadError
  | reject e | fault e => some e
  | shift _ | done _ => none

/-- The errors that a step of the reader or the end of the tokens can give. -/
def Raises [CharacterNames] (e : ReadError) : Prop :=
  (∃ (s : State) (t : Token), (s.step t).error? = some e) ∨ ∃ s : State, s.atEnd = some e

/-- `s.Refuses t e`: in the state `s` the token `t` may not come next, or is no datum, for the
reason `e`. -/
inductive State.Refuses (s : State) (t : Token) : ReadError → Prop
  | strayClose : s.Refuses t (.strayClose t.position)
  | strayDot : s.Refuses t (.strayDot t.position)
  | nothingBeforeDot : s.Refuses t (.nothingBeforeDot t.position)
  | nothingAfterDot {ds : List Datum} {dot : Nat} {stack : List OpenList} :
    s = .expression (.dotted ds dot :: stack) → s.Refuses t (.nothingAfterDot dot)
  | notLast : s.Refuses t (.notLast (some t.position))
  | badLiteral : s.Refuses t (.badLiteral (Literal.spellBreaks t.text) t.position)
  | tooManyDigits {count : Nat} : Digit.limit < count → s.Refuses t (.tooManyDigits count)

section Step

variable {s : State} {t : Token} {e : ReadError}

theorem refuses_of_atom (h : atom t.text = .error e) : s.Refuses t e := by
  rw [atom] at h
  split at h
  · cases h
  split_ifs at h with _ hlimit
  cases h
  exact .tooManyDigits hlimit

theorem refuses_of_string [CharacterNames] (h : string t = .error e) : s.Refuses t e := by
  rw [string] at h
  split at h
  · cases h
  · cases h
    exact .badLiteral

theorem error?_feed (d : Datum) (stack : List OpenList) : (feed d stack).error? = none := by
  cases stack with
  | nil => rfl
  | cons o stack => cases o <;> rfl

theorem refuses_of_feed? {stack : List OpenList} {x : Except ReadError Datum}
    (hx : ∀ e, x = .error e → s.Refuses t e) (h : (feed? stack x).error? = some e) :
    s.Refuses t e := by
  cases x with
  | ok d =>
    rw [feed?, error?_feed] at h
    cases h
  | error =>
    cases h
    exact hx e rfl

theorem refuses_of_dot {stack : List OpenList} (h : (dot t.position stack).error? = some e) :
    s.Refuses t e := by
  rw [dot.eq_def] at h
  split at h <;> cases h
  · exact .nothingBeforeDot
  · exact .strayDot

theorem refuses_of_close {stack : List OpenList} (h : (close t.position stack).error? = some e) :
    (State.expression stack).Refuses t e := by
  rw [close.eq_def] at h
  split at h
  · cases h
    exact .strayClose
  · rw [error?_feed] at h
    cases h
  · cases h
    exact .nothingAfterDot rfl

/-- What a token is refused for. -/
theorem refuses_of_step [CharacterNames] (h : (s.step t).error? = some e) : s.Refuses t e := by
  cases s with
  | closing ds d stack =>
    rw [State.step] at h
    split at h
    · rw [error?_feed] at h
      cases h
    · cases h
      exact .notLast
  | expression stack =>
    rw [State.step] at h
    split at h
    · cases h
    · exact refuses_of_close h
    · exact refuses_of_feed? (fun _ ↦ refuses_of_string) h
    · split at h
      · exact refuses_of_dot h
      · exact refuses_of_feed? (fun _ ↦ refuses_of_atom) h

theorem State.Refuses.counted (h : s.Refuses t e) : e.Counted := by
  cases h with
  | tooManyDigits hlimit =>
    rintro count ⟨⟩
    exact hlimit
  | _ => rintro _ ⟨⟩

end Step

theorem counted_of_atEnd {s : State} {e : ReadError} (h : s.atEnd = some e) : e.Counted := by
  rw [State.atEnd.eq_def] at h
  split at h <;> cases h <;> rintro _ ⟨⟩

theorem Raises.counted [CharacterNames] {e : ReadError} (h : Raises e) : e.Counted := by
  obtain ⟨s, t, h⟩ | ⟨s, h⟩ := h
  · exact (refuses_of_step h).counted
  · exact counted_of_atEnd h

end Reader

/-- The lexer fails only in a comment or a string that is not closed. -/
theorem lex_failure {t : Text} {e : ReadError} (h : (lex t).failure = some e) :
    ∃ start, e = .openComment start ∨ e = .openString start := by
  rw [lex, Lexer.Scanner.finish] at h
  split at h <;> cases h
  · exact ⟨_, .inl rfl⟩
  · exact ⟨_, .inr rfl⟩

theorem counted_of_lex {t : Text} {e : ReadError} (h : (lex t).failure = some e) : e.Counted := by
  obtain ⟨start, rfl | rfl⟩ := lex_failure h <;> rintro _ ⟨⟩

namespace Stream

open Reader

theorem raises_of_end [CharacterNames] {failure : Option ReadError} {s : State} {e : ReadError}
    (h : (failure <|> s.atEnd) = some e) : failure = some e ∨ Raises e := by
  cases failure with
  | some e' => exact .inl h
  | none => exact .inr (.inr ⟨s, h⟩)

theorem raises_of_step [CharacterNames] {s : State} {t : Token} {r : Step} (hr : s.step t = r)
    {e : ReadError} (h : r.error? = some e) : Raises e :=
  .inl ⟨s, t, by rw [hr, h]⟩

/-- Reading one expression fails with the error at the end of the stream or with one of the
reader. -/
theorem raises_of_readFrom [CharacterNames] {failure : Option ReadError} {s : State}
    {ts : List Token} {e : ReadError} (h : (readFrom failure s ts).1 = .error e) :
    failure = some e ∨ Raises e := by
  induction ts generalizing s with
  | nil =>
    rw [readFrom] at h
    cases he : failure <|> s.atEnd with
    | none => simp [he] at h
    | some e' =>
      rw [he] at h
      cases h
      exact raises_of_end he
  | cons t ts ih =>
    rw [readFrom] at h
    cases hr : s.step t with
    | shift s' =>
      rw [hr] at h
      exact ih h
    | done d => simp [hr] at h
    | reject e' =>
      rw [hr] at h
      cases h
      exact .inr (raises_of_step hr rfl)
    | fault e' =>
      rw [hr] at h
      cases h
      exact .inr (raises_of_step hr rfl)

/-- Reading all expressions fails with the error at the end of the stream or with one of the
reader. -/
theorem raises_of_readAllFrom [CharacterNames] {failure : Option ReadError} {s : State}
    {ts : List Token} {e : ReadError} (h : (readAllFrom failure s ts).failure = some e) :
    failure = some e ∨ Raises e := by
  induction ts generalizing s with
  | nil => exact raises_of_end h
  | cons t ts ih =>
    rw [readAllFrom] at h
    cases hr : s.step t with
    | shift s' =>
      rw [hr] at h
      exact ih h
    | done d =>
      rw [hr] at h
      exact ih h
    | reject e' =>
      rw [hr] at h
      cases h
      exact .inr (raises_of_step hr rfl)
    | fault e' =>
      rw [hr] at h
      cases h
      exact .inr (raises_of_step hr rfl)

/-- What is left after an expression keeps the error at the end of the stream. -/
theorem failure_of_readFrom [CharacterNames] {failure : Option ReadError} {s : State}
    {ts : List Token} {d : Datum} {rest : Stream}
    (h : readFrom failure s ts = (.ok (some d), rest)) : rest.failure = failure := by
  induction ts generalizing s with
  | nil =>
    rw [readFrom] at h
    cases he : failure <|> s.atEnd <;> simp [he] at h
  | cons t ts ih =>
    rw [readFrom] at h
    cases hr : s.step t with
    | shift s' =>
      rw [hr] at h
      exact ih h
    | done d =>
      rw [hr] at h
      cases h
      rfl
    | reject e' => simp [hr] at h
    | fault e' => simp [hr] at h

theorem failure_of_peek {s : Stream} {e : ReadError} (h : s.peek.1 = .error e) :
    s.failure = some e := by
  rw [peek] at h
  split at h <;> cases h
  assumption

end Stream

theorem counted_of_readAll [CharacterNames] {t : Text} {e : ReadError}
    (h : (readAll t).failure = some e) :
    e.Counted := by
  rcases Stream.raises_of_readAllFrom h with h | h
  · exact counted_of_lex h
  · exact h.counted

theorem counted_of_readOne [CharacterNames] {t : Text} {e : ReadError} (h : readOne t = .error e) :
    e.Counted := by
  rw [readOne] at h
  split at h
  next e' rest hread =>
    cases h
    rcases Stream.raises_of_readFrom (congrArg Prod.fst hread) with h | h
    · exact counted_of_lex h
    · exact h.counted
  next =>
    cases h
    rintro _ ⟨⟩
  next d rest hread =>
    split at h
    next e' hpeek =>
      cases h
      have hrest := Stream.failure_of_readFrom hread
      exact counted_of_lex (hrest.symm.trans (Stream.failure_of_peek hpeek))
    next =>
      cases h
      rintro _ ⟨⟩
    next => cases h

end Fexpr
