import Fexpr.Proofs.Reader.Grammar

/-!
# Streams lose no token

The tokens that are still to come from a stream are always a suffix of those of its text, whatever
was called on the stream before and whether or not it failed. `peek` and `advance` are the head and
the tail of that suffix. Reading an expression takes the tokens of that expression and no more; when
it fails it has taken a token nevertheless, unless it stopped before a closing parenthesis that no
list is open for. Main statement: `stream_conserves_tokens`.
-/

namespace Fexpr

open Reader

namespace Stream

/-! ## Calls on a stream -/

/-- The calls that can be made on a stream. To stop in the middle of reading all expressions is to
read some of them one by one. -/
inductive Call
  | peek
  | advance
  | read
  | readAll
  deriving DecidableEq, Repr

/-- The stream after a call, whether or not the call fails. -/
def Call.after [CharacterNames] : Call → Stream → Stream
  | peek, s => s.peek.2
  | advance, s => s.advance.2
  | read, s => s.read.2
  | readAll, s => s.readAll.rest

/-- The stream after calls one after another. -/
def afterCalls [CharacterNames] (s : Stream) (calls : List Call) : Stream :=
  calls.foldl (fun s c ↦ c.after s) s

/-- The stream gives the tokens at the end of `ts`, and no failure after them. -/
structure EndsWith (ts : List Token) (s : Stream) : Prop where
  suffix : s.tokens <:+ ts
  failure : s.failure = none

theorem EndsWith.of_suffix {ts us : List Token} {s : Stream} (h : EndsWith us s)
    (hsub : us <:+ ts) :
    EndsWith ts s :=
  ⟨h.suffix.trans hsub, h.failure⟩

theorem endsWith_ofText {t : Text} (h : (lex t).failure = none) :
    EndsWith (lex t).tokens (ofText t) :=
  ⟨List.suffix_rfl, h⟩

theorem endsWith_ended (ts : List Token) : EndsWith ts ended := ⟨List.nil_suffix, rfl⟩

/-! ## One token -/

section Tokens

variable {s : Stream} (h : s.failure = none)

include h

theorem peek_eq : s.peek = (.ok s.tokens.head?, ⟨s.tokens.head?, s.tokens.tail, none⟩) := by
  obtain ⟨held, pending, failure⟩ := s
  subst h
  cases held with
  | some t => rfl
  | none => cases pending <;> rfl

theorem advance_eq : s.advance = (.ok s.tokens.head?, ⟨none, s.tokens.tail, none⟩) := by
  obtain ⟨held, pending, failure⟩ := s
  subst h
  cases held with
  | some t => rfl
  | none => cases pending <;> rfl

theorem tokens_peek : s.peek.2.tokens = s.tokens := by
  rw [peek_eq h]
  cases hts : s.tokens <;> simp [tokens]

theorem tokens_advance : s.advance.2.tokens = s.tokens.tail := by
  rw [advance_eq h]
  simp [tokens]

end Tokens

/-! ## One expression -/

/-- Reading on leaves a suffix of the tokens. -/
theorem endsWith_readFrom [CharacterNames] (s : State) (ts : List Token) :
    EndsWith ts (readFrom none s ts).2 := by
  induction ts generalizing s with
  | nil =>
    rw [readFrom]
    cases (none <|> s.atEnd) <;> exact endsWith_ended _
  | cons t ts ih =>
    rw [readFrom]
    cases s.step t with
    | shift s' => exact (ih s').of_suffix (List.suffix_cons t ts)
    | done d => exact ⟨List.suffix_cons t ts, rfl⟩
    | reject e => exact ⟨List.suffix_rfl, rfl⟩
    | fault e => exact ⟨List.suffix_cons t ts, rfl⟩

/-- Where there are tokens, reading on that succeeds takes those of the expression that it gives,
and holds none of the others back. -/
theorem derives_of_readFrom [CharacterNames] {failure : Option ReadError} {s : State}
    {us ts : List Token} {d : Option Datum} {r : Stream} (hs : s.Since us) (hne : us ++ ts ≠ [])
    (h : readFrom failure s ts = (.ok d, r)) :
    ∃ e used, d = some e ∧ Derives (us ++ used) e ∧ ts = used ++ r.pending ∧ r.held = none := by
  induction ts generalizing s us with
  | nil =>
    rw [readFrom] at h
    cases he : failure <|> s.atEnd with
    | some e => simp [he] at h
    | none =>
      obtain ⟨-, hend⟩ : failure = none ∧ s.atEnd = none := by simpa using he
      exact absurd (by simpa using hs.eq_nil hend) hne
  | cons t ts ih =>
    have hstep := hs.step t
    rw [readFrom] at h
    cases hr : s.step t with
    | shift s' =>
      rw [hr] at h hstep
      obtain ⟨e, used, rfl, hd, rfl, hheld⟩ := ih hstep (by simp) h
      refine ⟨e, t :: used, rfl, ?_, rfl, hheld⟩
      rwa [List.append_cons]
    | done e =>
      rw [hr] at h hstep
      cases h
      exact ⟨e, [t], rfl, hstep, rfl, rfl⟩
    | reject e => simp [hr] at h
    | fault e => simp [hr] at h

/-- At the start of an expression, only a closing parenthesis is rejected. -/
theorem step_start_ne_reject [CharacterNames] {t : Token} (ht : t.kind ≠ .closing) (e : ReadError) :
    (State.expression []).step t ≠ .reject e := by
  have hfeed (x : Except ReadError Datum) : feed? [] x ≠ .reject e := by
    cases x <;> simp [feed?, feed]
  cases hk : t.kind with
  | opening => simp [State.step, hk]
  | closing => exact absurd hk ht
  | string => simpa only [State.step, hk] using hfeed (string t)
  | symbol =>
    rw [State.step, hk]
    dsimp only
    split
    · simp [dot]
    · exact hfeed (atom t.text)

/-- Reading that fails has taken the first token, unless that closes a list. -/
theorem tokens_of_read_error [CharacterNames] {t : Token} {ts : List Token} {e : ReadError}
    {r : Stream} (h : readFrom none (.expression []) (t :: ts) = (.error e, r)) :
    if t.kind = .closing then r.tokens = t :: ts else r.tokens <:+ ts := by
  rw [readFrom] at h
  split
  next hk =>
    simp only [State.step, hk, close] at h
    cases h
    rfl
  next hk =>
    cases hr : (State.expression []).step t with
    | shift s =>
      rw [hr] at h
      have hrest : (readFrom none s ts).2 = r := congrArg Prod.snd h
      exact hrest ▸ (endsWith_readFrom s ts).suffix
    | done d => simp [hr] at h
    | reject e' => exact absurd hr (step_start_ne_reject hk e')
    | fault e' =>
      rw [hr] at h
      cases h
      exact List.suffix_rfl

/-! ## All expressions -/

theorem endsWith_readAllFrom [CharacterNames] (s : State) (ts : List Token) :
    EndsWith ts (readAllFrom none s ts).rest := by
  induction ts generalizing s with
  | nil => exact endsWith_ended _
  | cons t ts ih =>
    rw [readAllFrom]
    cases s.step t with
    | shift s' => exact (ih s').of_suffix (List.suffix_cons t ts)
    | done d => exact (ih (.expression [])).of_suffix (List.suffix_cons t ts)
    | reject e => exact ⟨List.suffix_rfl, rfl⟩
    | fault e => exact ⟨List.suffix_cons t ts, rfl⟩

/-! ## Any calls -/

/-- One call leaves a suffix of the tokens. -/
theorem EndsWith.after [CharacterNames] {ts : List Token} {s : Stream} (h : EndsWith ts s)
    (c : Call) :
    EndsWith ts (c.after s) := by
  obtain ⟨hsuffix, hfailure⟩ := h
  cases c with
  | peek =>
    refine ⟨?_, ?_⟩
    · rw [Call.after, tokens_peek hfailure]
      exact hsuffix
    · rw [Call.after, peek_eq hfailure]
  | advance =>
    refine ⟨?_, ?_⟩
    · rw [Call.after, tokens_advance hfailure]
      exact (List.tail_suffix _).trans hsuffix
    · rw [Call.after, advance_eq hfailure]
  | read =>
    rw [Call.after, Stream.read, hfailure]
    exact (endsWith_readFrom _ _).of_suffix hsuffix
  | readAll =>
    rw [Call.after, Stream.readAll, hfailure]
    exact (endsWith_readAllFrom _ _).of_suffix hsuffix

/-- So do calls one after another. -/
theorem EndsWith.afterCalls [CharacterNames] {ts : List Token} {s : Stream} (h : EndsWith ts s)
    (calls : List Call) :
    EndsWith ts (s.afterCalls calls) := by
  induction calls generalizing s with
  | nil => exact h
  | cons c calls ih => exact ih (h.after c)

end Stream

/-- After any calls on the stream of a text that is lexed to its end, be they failed or not, the
token held back, if any, and those after it are a suffix of the tokens of the text, and any further
call leaves a suffix of these. To peek is to see the first of them and leave them all, and to
advance is to take that one; where there is none, both give none. Where there is one, reading that
succeeds takes exactly the tokens of the expression that it gives, and holds none of the others
back; reading that fails takes at least one token, unless the first is a closing parenthesis: then
it takes none. -/
theorem stream_conserves_tokens [CharacterNames] {t : Text} (ht : (lex t).failure = none)
    (calls : List Stream.Call) :
    let s := (Stream.ofText t).afterCalls calls
    s.held.toList ++ s.pending <:+ (lex t).tokens ∧
      (∀ c : Stream.Call, (c.after s).tokens <:+ s.tokens) ∧
    (s.peek.1 = .ok s.tokens.head? ∧ s.peek.2.tokens = s.tokens) ∧
    (s.advance.1 = .ok s.tokens.head? ∧ s.advance.2.tokens = s.tokens.tail) ∧
    (s.tokens ≠ [] →
      (∀ d r, s.read = (.ok d, r) → ∃ e used, d = some e ∧ Derives used e ∧
        s.tokens = used ++ r.pending ∧ r.held = none) ∧
      ∀ e r, s.read = (.error e, r) → ∃ used, s.tokens = used ++ r.tokens ∧
        (used = [] ↔ ∃ c, s.tokens.head? = some c ∧ c.kind = .closing)) := by
  intro s
  obtain ⟨hsuffix, hfailure⟩ := (Stream.endsWith_ofText ht).afterCalls calls
  have hread : s.read = Stream.readFrom none (.expression []) s.tokens := by
    rw [Stream.read, hfailure]
  have hcall (c : Stream.Call) : (c.after s).tokens <:+ s.tokens :=
    (Stream.EndsWith.after ⟨List.suffix_rfl, hfailure⟩ c).suffix
  refine ⟨hsuffix, hcall, ⟨?_, Stream.tokens_peek hfailure⟩,
    ⟨?_, Stream.tokens_advance hfailure⟩, ?_⟩
  · rw [Stream.peek_eq hfailure]
  · rw [Stream.advance_eq hfailure]
  · intro hne
    rw [hread]
    constructor
    · intro d r h
      exact Stream.derives_of_readFrom since_start hne h
    · intro e r h
      obtain ⟨c, ts, hts⟩ := List.exists_cons_of_ne_nil hne
      rw [hts] at h ⊢
      have htokens := Stream.tokens_of_read_error h
      split at htokens
      next hk => exact ⟨[], htokens.symm, by simpa using hk⟩
      next hk =>
        obtain ⟨used, hused⟩ := htokens
        exact ⟨c :: used, by rw [List.cons_append, hused], by simpa using hk⟩

open scoped CharacterNames

/-- Reading from `(a . ) b` fails at the parenthesis after the dot, and holds it back. Reading once
more fails there again, and takes nothing. -/
theorem stream_conserves_tokens_stray :
    let s := (Stream.ofText "(a . ) b").afterCalls [.peek, .read]
    (lex "(a . ) b").failure = none ∧ s.held = some ⟨.closing, ")", 5⟩ ∧
    s.held.toList ++ s.pending <:+ (lex "(a . ) b").tokens ∧
    ∃ e r, s.read = (.error e, r) ∧ r.tokens = s.tokens := by
  intro s
  have hlex : (lex "(a . ) b").failure = none := by decide
  have hheld : s.held = some ⟨.closing, ")", 5⟩ := by decide
  have hhead : s.tokens.head? = some ⟨.closing, ")", 5⟩ := by simp [Stream.tokens, hheld]
  have hne : s.tokens ≠ [] := by
    intro hnil
    rw [hnil] at hhead
    cases hhead
  obtain ⟨hsuffix, -, -, -, hread⟩ := stream_conserves_tokens hlex [.peek, .read]
  obtain ⟨-, herror⟩ := hread hne
  refine ⟨hlex, hheld, hsuffix, .strayClose 5, s.read.2, by decide, ?_⟩
  obtain ⟨used, htokens, hused⟩ := herror (.strayClose 5) s.read.2 (by decide)
  rw [hused.mpr ⟨_, hhead, rfl⟩] at htokens
  exact htokens.symm

end Fexpr
