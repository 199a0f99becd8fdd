import Fexpr.Proofs.Reader.Grammar
import Fexpr.Proofs.Token.Append

/-!
# Reading one text after another

The reader keeps positions only to report them: on tokens that stand `k` code points later it goes
through the same states, up to these positions (`Reader.step_later`). And it looks at no token after
an expression to read it. So a text that is read to its end, a line feed and another text are read
as the expressions of the one and then those of the other (`readAll_append_newline`).
-/

namespace Fexpr

/-! ## Reading elsewhere -/

namespace Reader

/-- The open list `k` code points later. -/
def OpenList.later (k : Nat) : OpenList → OpenList
  | items start ds => items (start + k) ds
  | dotted ds dot => dotted ds (dot + k)

/-- The state `k` code points later. -/
def State.later (k : Nat) : State → State
  | expression stack => expression (stack.map (OpenList.later k))
  | closing ds d stack => closing ds d (stack.map (OpenList.later k))

/-- What a token leads to `k` code points later. -/
def Step.later (k : Nat) : Step → Step
  | shift s => shift (s.later k)
  | done d => done d
  | reject e => reject (e.later k)
  | fault e => fault (e.later k)

variable (k : Nat)

theorem feed_later (d : Datum) (stack : List OpenList) :
    feed d (stack.map (OpenList.later k)) = (feed d stack).later k := by
  cases stack with
  | nil => rfl
  | cons o stack => cases o <;> rfl

theorem atom_later (t : Text) (stack : List OpenList) :
    feed? (stack.map (OpenList.later k)) (atom t) = (feed? stack (atom t)).later k := by
  cases h : atom t with
  | ok d => exact feed_later k d stack
  | error e =>
    -- The only error of an atom is that it has too many digits, and that has no position.
    rw [atom] at h
    split at h
    · cases h
    split at h
    · split at h <;> cases h
      rfl
    · cases h

theorem string_later [CharacterNames] (t : Token) (stack : List OpenList) :
    feed? (stack.map (OpenList.later k)) (string (t.later k)) =
      (feed? stack (string t)).later k := by
  rw [string, string]
  cases h : Literal.read t.text with
  | some s => simpa [Token.later, h, feed?] using feed_later k (.str s) stack
  | none => simp [Token.later, h, feed?, Step.later, ReadError.later]

theorem dot_later (position : Nat) (stack : List OpenList) :
    dot (position + k) (stack.map (OpenList.later k)) = (dot position stack).later k := by
  match stack with
  | [] => rfl
  | .items _ [] :: _ => rfl
  | .items _ (_ :: _) :: _ => rfl
  | .dotted _ _ :: _ => rfl

theorem close_later (position : Nat) (stack : List OpenList) :
    close (position + k) (stack.map (OpenList.later k)) = (close position stack).later k := by
  match stack with
  | [] => rfl
  | .items _ ds :: stack => exact feed_later k (.ofList ds.reverse) stack
  | .dotted _ _ :: _ => rfl

/-- Later in a text the reader takes the same steps. -/
theorem step_later [CharacterNames] (s : State) (t : Token) :
    (s.later k).step (t.later k) = (s.step t).later k := by
  cases s with
  | closing ds d stack =>
    by_cases hc : t.kind = .closing
    · simpa [State.step, State.later, Token.later, hc] using
        feed_later k (.chain ds.reverse d) stack
    · simp [State.step, State.later, Token.later, hc, Step.later, ReadError.later]
  | expression stack =>
    have hkind : (t.later k).kind = t.kind := rfl
    have hdot : (t.later k).isDot = t.isDot := rfl
    simp only [State.step, State.later, hkind, hdot]
    cases t.kind with
    | opening => rfl
    | closing => exact close_later k t.position stack
    | string => exact string_later k t stack
    | symbol =>
      cases t.isDot with
      | true => exact dot_later k t.position stack
      | false => exact atom_later k t.text stack

theorem atEnd_later (s : State) : (s.later k).atEnd = s.atEnd.map (ReadError.later k) := by
  match s with
  | .expression [] => rfl
  | .expression (.items _ _ :: _) => rfl
  | .expression (.dotted _ _ :: _) => rfl
  | .closing _ _ _ => rfl

end Reader

namespace Stream

open Reader

/-- Later in a text the same data are read, and the same error is found. -/
theorem readAllFrom_later [CharacterNames] (k : Nat) (failure : Option ReadError) (s : State)
    (ts : List Token) :
    (readAllFrom (failure.map (ReadError.later k)) (s.later k) (ts.map (Token.later k))).data =
        (readAllFrom failure s ts).data ∧
      (readAllFrom (failure.map (ReadError.later k)) (s.later k) (ts.map (Token.later k))).failure =
        (readAllFrom failure s ts).failure.map (ReadError.later k) := by
  induction ts generalizing s with
  | nil =>
    refine ⟨rfl, ?_⟩
    rw [List.map_nil, readAllFrom, readAllFrom, atEnd_later]
    cases failure <;> rfl
  | cons t ts ih =>
    rw [List.map_cons, readAllFrom, readAllFrom, step_later]
    cases s.step t with
    | shift s' => exact ih s'
    | done d =>
      obtain ⟨hdata, hfailure⟩ := ih (.expression [])
      exact ⟨congrArg (d :: ·) hdata, hfailure⟩
    | reject e => exact ⟨rfl, rfl⟩
    | fault e => exact ⟨rfl, rfl⟩

/-- Tokens that spell expressions are read as these, and reading goes on after them. -/
theorem readAllFrom_append_of_splits [CharacterNames] {ts : List Token} {parts : List Segment}
    (h : Splits ts parts) (failure : Option ReadError) (us : List Token) :
    (readAllFrom failure (.expression []) (ts ++ us)).data =
        parts.map Prod.snd ++ (readAllFrom failure (.expression []) us).data ∧
      (readAllFrom failure (.expression []) (ts ++ us)).failure =
        (readAllFrom failure (.expression []) us).failure := by
  obtain ⟨rfl, hparts⟩ := h
  induction parts with
  | nil => exact ⟨rfl, rfl⟩
  | cons p parts ih =>
    have hp := (hparts p (by simp)).takes [] failure (parts.flatMap Prod.fst ++ us)
    obtain ⟨hdata, hfailure⟩ := ih fun q hq ↦ hparts q (by simp [hq])
    rw [List.flatMap_cons, List.append_assoc, readAllFrom_eq, hp]
    exact ⟨congrArg (p.2 :: ·) hdata, hfailure⟩

end Stream

/-- A text that is read to its end, a line feed and another text are read one after the other. Only
where an error is reported differs from reading the other text alone. -/
theorem readAll_append_newline [CharacterNames] {u : Text} (hu : (readAll u).failure = none)
    (v : Text) :
    (readAll (u ++ .scalar '\n' :: v)).data = (readAll u).data ++ (readAll v).data ∧
      (readAll (u ++ .scalar '\n' :: v)).failure =
        (readAll v).failure.map (ReadError.later (u.length + 1)) := by
  obtain ⟨hlex, parts, hsplits, hdata⟩ := (readAll_eq_iff u _).mp ⟨rfl, hu⟩
  have happend := Stream.readAllFrom_append_of_splits hsplits
    ((lex v).failure.map (ReadError.later (u.length + 1)))
    ((lex v).tokens.map (Token.later (u.length + 1)))
  have hlater :=
    Stream.readAllFrom_later (u.length + 1) (lex v).failure (.expression []) (lex v).tokens
  have heq : readAll (u ++ .scalar '\n' :: v) =
      Stream.readAllFrom ((lex v).failure.map (ReadError.later (u.length + 1))) (.expression [])
        ((lex u).tokens ++ (lex v).tokens.map (Token.later (u.length + 1))) := by
    rw [readAll, Stream.readAll, Stream.ofText, lex_append_newline hlex]
    rfl
  rw [heq, happend.1, happend.2, hdata]
  exact ⟨congrArg ((readAll u).data ++ ·) hlater.1, hlater.2⟩

end Fexpr
