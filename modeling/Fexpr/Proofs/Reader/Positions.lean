import Fexpr.Proofs.Reader.Completion
import Fexpr.Proofs.Reader.Progress

/-!
# Where errors point

An error that has a position points to the start of a token of the text, or of a string or block
comment in it that is never closed. There is one exception: where the text ends after the tail of a
dotted list, there is no token to point to, and minus one is reported.

Positions come from the lexer, from the token that is refused, or from the stack of open lists.
Those on the stack are of tokens that the reader has taken, since the stack is always that of these
tokens (`State.Since`). Main statement: `errors_point_into_text`.
-/

namespace Fexpr

open Reader

/-! ## Places in a text -/

/-- `s.StartsAt p`: at the position `p` of the text `s` starts one of its tokens, or a string or
block comment that is never closed. -/
inductive Text.StartsAt (s : Text) : Nat → Prop
  | token {t : Token} : t ∈ (lex s).tokens → StartsAt s t.position
  | string {u rest : Text} : u ++ rest = s → Layout rest 0 u (lex s).tokens → OpensString rest →
      StartsAt s u.length
  | comment {u rest : Text} : u ++ rest = s → Layout rest 0 u (lex s).tokens → OpensComment rest →
      StartsAt s u.length

theorem Text.StartsAt.lt_length {s : Text} {p : Nat} (h : s.StartsAt p) : p < s.length := by
  cases h with
  | @token t ht =>
    obtain ⟨u, rest, heq, hu, -⟩ := exists_layout_lex s
    obtain ⟨before, after, hsplit, hpos, hlexeme⟩ := hu.exists_split ht
    have hlen : 0 < t.text.length := List.length_pos_iff.mpr hlexeme.ne_nil
    rw [← heq, hsplit, hpos]
    simp only [List.length_append]
    omega
  | string heq hu hopens =>
    obtain ⟨t, rfl, -⟩ := hopens
    simp [← heq]
  | comment heq hu hopens =>
    obtain ⟨t, rfl, -⟩ := hopens
    simp [← heq]

/-- The lexer fails where something starts that is never closed. -/
theorem startsAt_of_lex {s : Text} {e : ReadError} (h : (lex s).failure = some e) :
    ∃ p : Nat, e.position? = some (p : Int) ∧ s.StartsAt p := by
  obtain ⟨u, rest, heq, hu, ⟨hnone, -⟩ | ⟨hsome, hopens⟩ | ⟨hsome, hopens⟩⟩ := exists_layout_lex s
  · cases hnone.symm.trans h
  · cases hsome.symm.trans h
    exact ⟨u.length, rfl, .string heq hu hopens⟩
  · cases hsome.symm.trans h
    exact ⟨u.length, rfl, .comment heq hu hopens⟩

/-! ## Causes of errors -/

/-- The tokens begin lists, the innermost of them up to its dot, and end with the expression after
the dot. -/
def EndsInTail [CharacterNames] (ts : List Token) : Prop :=
  ∃ ds dot stack us vs d, ts = us ++ vs ∧ Opened (.dotted ds dot :: stack) us ∧ Derives vs d

/-- Why tokens cannot be read, with the failure of the lexer after them, if there is one. -/
inductive Cause [CharacterNames] (failure : Option ReadError) (ts : List Token) : ReadError → Prop
  | lexer {e : ReadError} : failure = some e → Cause failure ts e
  /-- The error points to a token. -/
  | token {e : ReadError} {t : Token} : t ∈ ts → e.position? = some (t.position : Int) →
    Cause failure ts e
  /-- The tokens end too early, in a dotted list that comes after complete expressions. -/
  | tail {us vs : List Token} {parts : List Segment} : failure = none → ts = us ++ vs →
    Splits us parts →
      EndsInTail vs → Cause failure ts (.notLast none)
  | digits (count : Nat) : Cause failure ts (.tooManyDigits count)

namespace Cause

variable {failure : Option ReadError} {ts us : List Token} {e : ReadError}

/-- What is wrong after an expression is wrong with that expression before it too. -/
theorem after [CharacterNames] (h : Cause failure ts e) {d : Datum} (hd : Derives us d) :
    Cause failure (us ++ ts) e := by
  cases h with
  | lexer h => exact .lexer h
  | token ht he => exact .token (List.mem_append_right us ht) he
  | tail hf hts hsplits htail =>
    rw [hts, ← List.append_assoc]
    exact .tail hf rfl (.cons hd hsplits) htail
  | digits count => exact .digits count

end Cause

namespace Reader

/-- The positions that are kept for the innermost open list are of tokens that were taken. -/
theorem Opened.mem_of_items [CharacterNames] {start : Nat} {ds : List Datum}
    {stack : List OpenList} {ts : List Token} (h : Opened (.items start ds :: stack) ts) :
    ∃ t ∈ ts, t.position = start := by
  cases h with
  | @items _ us o parts _ _ _ => exact ⟨o, by simp, rfl⟩

theorem Opened.mem_of_dotted [CharacterNames] {dot : Nat} {ds : List Datum}
    {stack : List OpenList} {ts : List Token} (h : Opened (.dotted ds dot :: stack) ts) :
    ∃ t ∈ ts, t.position = dot := by
  cases h with
  | @dotted _ us o t parts _ _ _ _ _ => exact ⟨t, by simp, rfl⟩

variable {s : State} {us : List Token} {e : ReadError}

theorem cause_of_refuses [CharacterNames] (hs : s.Since us) {t : Token} (h : s.Refuses t e)
    (failure : Option ReadError) (ts : List Token) : Cause failure (us ++ t :: ts) e := by
  cases h with
  | nothingAfterDot hdot =>
    subst hdot
    obtain ⟨t', ht', rfl⟩ := Opened.mem_of_dotted hs
    exact .token (List.mem_append_left _ ht') rfl
  | tooManyDigits => exact .digits _
  | _ => exact .token (t := t) (by simp) rfl

theorem cause_of_atEnd [CharacterNames] (hs : s.Since us) (h : s.atEnd = some e) :
    Cause none us e := by
  match s with
  | .expression [] => cases h
  | .expression (.items start ds :: stack) =>
    cases h
    obtain ⟨t, ht, rfl⟩ := Opened.mem_of_items hs
    exact .token ht rfl
  | .expression (.dotted ds dot :: stack) =>
    cases h
    obtain ⟨t, ht, rfl⟩ := Opened.mem_of_dotted hs
    exact .token ht rfl
  | .closing ds d stack =>
    cases h
    obtain ⟨vs, ws, dot, hus, hopen, hd⟩ := hs
    exact .tail rfl rfl .nil ⟨ds, dot, stack, vs, ws, d, hus, hopen, hd⟩

end Reader

/-- Reading all expressions fails for one of these causes. -/
theorem Stream.cause_of_readAllFrom [CharacterNames] {failure : Option ReadError} {s : State}
    {us ts : List Token} {e : ReadError} (hs : s.Since us)
    (h : (readAllFrom failure s ts).failure = some e) : Cause failure (us ++ ts) e := by
  induction ts generalizing s us with
  | nil =>
    rw [List.append_nil]
    cases failure with
    | some e' => exact .lexer h
    | none => exact cause_of_atEnd hs h
  | cons t ts ih =>
    have hstep := hs.step t
    have hrefused (hr : (s.step t).error? = some e) : Cause failure (us ++ t :: ts) e :=
      cause_of_refuses hs (refuses_of_step hr) failure ts
    rw [readAllFrom] at h
    cases hr : s.step t with
    | shift s' =>
      rw [hr] at h hstep
      rw [List.append_cons]
      exact ih hstep h
    | done d =>
      rw [hr] at h hstep
      rw [List.append_cons]
      exact (ih since_start h).after hstep
    | reject e' =>
      rw [hr] at h hrefused
      exact hrefused h
    | fault e' =>
      rw [hr] at h hrefused
      exact hrefused h

theorem Stream.mem_of_peek {s : Stream} {t : Token} (h : s.peek.1 = .ok (some t)) :
    t ∈ s.tokens := by
  rw [peek] at h
  split at h <;> cases h
  · simp_all [tokens]
  · simp_all [tokens]

theorem cause_of_readAll [CharacterNames] {s : Text} {e : ReadError}
    (h : (readAll s).failure = some e) :
    Cause (lex s).failure (lex s).tokens e :=
  Stream.cause_of_readAllFrom since_start h

/-- Reading one expression can fail besides for what is after it, or because there is none. -/
theorem cause_of_readOne [CharacterNames] {s : Text} {e : ReadError} (h : readOne s = .error e) :
    Cause (lex s).failure (lex s).tokens e ∨ e = .nothing ∧ (lex s).tokens = [] := by
  rw [readOne] at h
  split at h
  next e' rest hread =>
    cases h
    refine .inl (cause_of_readAll ?_)
    rw [readAll, Stream.readAll_eq, hread]
  next rest hread =>
    cases h
    refine .inr ⟨rfl, ?_⟩
    by_contra hne
    obtain ⟨_, _, hsome, -⟩ := Stream.derives_of_readFrom since_start hne hread
    cases hsome
  next d rest hread =>
    have hfailure : rest.failure = (lex s).failure := Stream.failure_of_readFrom hread
    split at h
    next e' hpeek =>
      cases h
      exact .inl (.lexer (hfailure ▸ Stream.failure_of_peek hpeek))
    next t hpeek =>
      cases h
      have hne : (Stream.ofText s).tokens ≠ [] := by
        intro hnil
        rw [Stream.read, hnil, Stream.readFrom] at hread
        split at hread <;> cases hread
      obtain ⟨_, used, -, -, htokens, hheld⟩ := Stream.derives_of_readFrom since_start hne hread
      have ht : t ∈ rest.pending := by simpa [Stream.tokens, hheld] using Stream.mem_of_peek hpeek
      refine .inl (.token (t := t) ?_ rfl)
      change t ∈ (Stream.ofText s).pending
      rw [htokens]
      exact List.mem_append_right used ht
    next => cases h

/-! ## The exception -/

namespace Reader

/-- The reader comes to the stack of open lists that tokens begin. -/
theorem Opened.takes [CharacterNames] {stack : List OpenList} {ts : List Token}
    (h : Opened stack ts) :
    Takes (.expression []) ts (.shift (.expression stack)) := by
  induction h with
  | nil => exact .refl _
  | @items stack us o parts _ ho hparts ih =>
    have hitems := Takes.items o.position [] stack fun p hp ↦ (hparts p hp).takes
    rw [List.append_nil] at hitems
    exact ih.trans ((takes_opening ho stack).trans hitems)
  | @dotted stack us o t parts _ ho hparts hne ht ih =>
    have hitems := Takes.items o.position [] stack fun p hp ↦ (hparts p hp).takes
    rw [List.append_nil] at hitems
    have hds : (parts.map Prod.snd).reverse ≠ [] := by simpa using hne
    have hdot := takes_dot ht o.position hds stack
    exact ih.trans ((takes_opening ho stack).trans (hitems.trans hdot))

end Reader

/-- Tokens end in the tail of a dotted list if the reader comes to wait for the end of that list. -/
theorem endsInTail_iff [CharacterNames] (ts : List Token) :
    EndsInTail ts ↔
      ∃ s' : State, s'.atEnd = some (.notLast none) ∧ Takes (.expression []) ts (.shift s') ∧
      s'.Since ts := by
  constructor
  · rintro ⟨ds, dot, stack, us, vs, d, rfl, hopen, hd⟩
    exact ⟨.closing ds d stack, rfl, hopen.takes.trans (hd.takes _), us, vs, dot, rfl, hopen, hd⟩
  · rintro ⟨s', hend, -, hsince⟩
    match s' with
    | .expression [] => cases hend
    | .expression (.items start ds :: stack) => cases hend
    | .expression (.dotted ds dot :: stack) => cases hend
    | .closing ds d stack =>
      obtain ⟨us, vs, dot, hts, hopen, hd⟩ := hsince
      exact ⟨ds, dot, stack, us, vs, d, hts, hopen, hd⟩

theorem readOne_notLast_iff [CharacterNames] (s : Text) :
    readOne s = .error (.notLast none) ↔ (lex s).failure = none ∧ EndsInTail (lex s).tokens := by
  rw [readOne_incomplete_iff rfl, endsInTail_iff]

theorem readAll_notLast_iff [CharacterNames] (s : Text) :
    (readAll s).failure = some (.notLast none) ↔ (lex s).failure = none ∧
      ∃ us vs parts, (lex s).tokens = us ++ vs ∧ Splits us parts ∧ EndsInTail vs := by
  constructor
  · intro h
    cases cause_of_readAll h with
    | lexer hlex => obtain ⟨start, he | he⟩ := lex_failure hlex <;> cases he
    | token _ hp =>
      have hneg : (-1 : Int) = _ := Option.some.inj hp
      omega
    | tail hf hts hsplits htail => exact ⟨hf, _, _, _, hts, hsplits, htail⟩
  · rintro ⟨hf, us, vs, parts, hts, hsplits, htail⟩
    obtain ⟨s', hend, htakes, -⟩ := (endsInTail_iff vs).mp htail
    have hread := htakes none []
    rw [List.append_nil] at hread
    have hall : (Stream.readAllFrom none (.expression []) vs).failure = some (.notLast none) := by
      rw [Stream.readAllFrom_eq, hread, Step.resume, Stream.readFrom, hend]
      rfl
    change (Stream.readAllFrom (lex s).failure (.expression []) (lex s).tokens).failure = _
    rw [hf, hts, (Stream.readAllFrom_append_of_splits hsplits none vs).2, hall]

/-! ## All errors -/

/-- Unless it is the exception, an error with a position points to a place of the text. -/
theorem Cause.startsAt [CharacterNames] {s : Text} {e : ReadError}
    (h : Cause (lex s).failure (lex s).tokens e) (he : e ≠ .notLast none) {p : Int}
    (hp : e.position? = some p) :
    ∃ n : Nat, p = n ∧ n < s.length ∧ s.StartsAt n := by
  obtain ⟨n, hn, hstarts⟩ : ∃ n : Nat, e.position? = some (n : Int) ∧ s.StartsAt n := by
    cases h with
    | lexer hlex => exact startsAt_of_lex hlex
    | @token _ t ht hpos => exact ⟨t.position, hpos, .token ht⟩
    | tail => exact absurd rfl he
    | digits => cases hp
  exact ⟨n, Option.some.inj (hp.symm.trans hn), hstarts.lt_length, hstarts⟩

/-- Of these errors, only that an integer is too long has no position. -/
theorem Cause.position?_ne_none [CharacterNames] {s : Text} {e : ReadError}
    (h : Cause (lex s).failure (lex s).tokens e) (he : ∀ count, e ≠ .tooManyDigits count) :
    e.position? ≠ none := by
  cases h with
  | lexer hlex =>
    obtain ⟨n, hn, -⟩ := startsAt_of_lex hlex
    simp [hn]
  | token _ hpos => simp [hpos]
  | tail => exact Option.some_ne_none _
  | digits count => exact absurd rfl (he count)

/-- Errors of reading a text point into it, whether one expression is asked for or all of them. If
an error has a position, then that is a position of the text at which one of its tokens starts, or a
string or a block comment that is never closed, unless the error is that the text ends where a
dotted list should be closed: this one is reported at minus one. It arises if and only if the text
is lexed to its end and its tokens end with the tail of a dotted list that is still open, after
complete expressions if all are asked for. If one expression is asked for, an error other than that
an integer is too long has no position only if the text has no token. -/
theorem errors_point_into_text [CharacterNames] (s : Text) :
    (∀ e p, readOne s = .error e ∨ (readAll s).failure = some e → e.position? = some p →
      e ≠ .notLast none →
      ∃ n : Nat, p = n ∧ n < s.length ∧ s.StartsAt n) ∧
    (∀ e, readOne s = .error e → e.position? = none → (∀ count, e ≠ .tooManyDigits count) →
      (lex s).tokens = []) ∧
    (ReadError.notLast none).position? = some (-1) ∧
    (readOne s = .error (.notLast none) ↔ (lex s).failure = none ∧ EndsInTail (lex s).tokens) ∧
    ((readAll s).failure = some (.notLast none) ↔ (lex s).failure = none ∧
      ∃ us vs parts, (lex s).tokens = us ++ vs ∧ Splits us parts ∧ EndsInTail vs) := by
  refine ⟨?_, ?_, rfl, readOne_notLast_iff s, readAll_notLast_iff s⟩
  · rintro e p (h | h) hp he
    · rcases cause_of_readOne h with hcause | ⟨rfl, -⟩
      · exact hcause.startsAt he hp
      · cases hp
    · exact (cause_of_readAll h).startsAt he hp
  · intro e h hp he
    rcases cause_of_readOne h with hcause | ⟨-, htokens⟩
    · exact absurd hp (hcause.position?_ne_none he)
    · exact htokens

open scoped CharacterNames

/-- In `(a (b . ) c` nothing comes after the dot; the error points to the dot, though it is found at
the parenthesis. -/
theorem errors_point_into_text_dot :
    readOne "(a (b . ) c" = .error (.nothingAfterDot 6) ∧ Text.StartsAt "(a (b . ) c" 6 := by
  have hread : readOne "(a (b . ) c" = .error (.nothingAfterDot 6) := by decide
  obtain ⟨n, hn, -, hstarts⟩ :=
    (errors_point_into_text "(a (b . ) c").1 _ 6 (.inl hread) rfl (by simp)
  obtain rfl : 6 = n := Int.ofNat_inj.mp hn
  exact ⟨hread, hstarts⟩

/-- `(a . b` ends where the list should be closed, and no position of the text is reported. -/
theorem dotted_tail_reported_outside :
    ¬ ∀ s e p, readOne s = .error e → e.position? = some p →
      ∃ n : Nat, p = n ∧ n < s.length ∧ s.StartsAt n := by
  intro h
  obtain ⟨n, hn, -⟩ := h "(a . b" (.notLast none) (-1) (by decide) rfl
  omega

end Fexpr
