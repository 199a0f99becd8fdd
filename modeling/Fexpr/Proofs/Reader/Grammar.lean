import Fexpr.Token.Stream
import Mathlib.Data.Set.Subsingleton

/-!
# The grammar of expressions

Which runs of tokens spell an expression is said here without the reader: a numeral, a name or a
string is one token, a list is a run of expressions between parentheses, and a dotted list has at
least one expression before the dot and exactly one after it.

The reader is a machine with a stack of open lists, so it meets the grammar in two ways:

* every run of tokens that spells `d` takes the machine from any stack to that stack fed with `d`
  (`Derives.takes`), so what the grammar derives is read;
* the tokens that the machine has taken are always those of the lists on its stack (`State.Since`),
  so what is read is derived by the grammar.

Since the machine has one run on any tokens, the first fact also makes the grammar unambiguous.
-/

namespace Fexpr

theorem Token.kind_of_isDot {t : Token} (h : t.isDot = true) : t.kind = .symbol := by
  simp only [isDot, Bool.and_eq_true, beq_iff_eq] at h
  exact h.1

theorem Reader.feed_ne_reject (d : Datum) (stack : List OpenList) (e : ReadError) :
    feed d stack ≠ .reject e := by
  cases stack with
  | nil => simp [feed]
  | cons top stack => cases top <;> simp [feed]

variable [CharacterNames]

/-- A stretch of tokens and the expression that it is meant to spell. -/
abbrev Segment := List Token × Datum

/-- `Derives ts d`: the tokens `ts` spell the expression `d`. -/
inductive Derives : List Token → Datum → Prop
  /-- A symbol token that is not the dot spells its atom, if it has one. -/
  | atom {t : Token} {d : Datum} : t.kind = .symbol → t.isDot = false →
      Reader.atom t.text = .ok d → Derives [t] d
  /-- A string token spells the string that its literal stands for, if it stands for one. -/
  | string {t : Token} {s : Text} : t.kind = .string → Literal.read t.text = some s →
      Derives [t] (.str s)
  /-- Expressions between parentheses spell their list. -/
  | list {o c : Token} {parts : List Segment} : o.kind = .opening → c.kind = .closing →
      (∀ p ∈ parts, Derives p.1 p.2) →
      Derives (o :: (parts.flatMap Prod.fst ++ [c])) (.ofList (parts.map Prod.snd))
  /-- With a dot before the last expression, that one is the tail of the chain. -/
  | dotted {o t c : Token} {parts : List Segment} {us : List Token} {d : Datum} :
      o.kind = .opening → t.isDot = true → c.kind = .closing → parts ≠ [] →
      (∀ p ∈ parts, Derives p.1 p.2) → Derives us d →
      Derives (o :: (parts.flatMap Prod.fst ++ t :: (us ++ [c]))) (.chain (parts.map Prod.snd) d)

/-- `Splits ts parts`: the tokens `ts` fall into consecutive segments, each spelling its
expression. -/
def Splits (ts : List Token) (parts : List Segment) : Prop :=
  parts.flatMap Prod.fst = ts ∧ ∀ p ∈ parts, Derives p.1 p.2

theorem Splits.nil : Splits [] [] := ⟨rfl, by simp⟩

theorem Splits.cons {ts us : List Token} {d : Datum} {parts : List Segment} (h : Derives ts d)
    (hs : Splits us parts) : Splits (ts ++ us) ((ts, d) :: parts) := by
  refine ⟨by rw [List.flatMap_cons, hs.1], ?_⟩
  intro p hp
  rcases List.mem_cons.mp hp with rfl | hp
  · exact h
  · exact hs.2 p hp

/-- No expression is spelled without tokens. -/
theorem Derives.ne_nil {ts : List Token} {d : Datum} (h : Derives ts d) : ts ≠ [] := by
  cases h <;> simp

/-! ## What the grammar derives is read -/

namespace Reader

/-- How reading goes on after a step, with the tokens not yet consumed. The first of these is the
rejected one, if the step rejects. -/
def Step.resume (failure : Option ReadError) :
    Step → List Token → Except ReadError (Option Datum) × Stream
  | .shift s, ts => Stream.readFrom failure s ts
  | .done d, ts => (.ok (some d), ⟨none, ts, failure⟩)
  | .reject e, ts => (.error e, ⟨ts.head?, ts.tail, failure⟩)
  | .fault e, ts => (.error e, ⟨none, ts, failure⟩)

/-- `Takes s ts r`: from the state `s` the reader consumes `ts` and so comes to `r`, whatever
follows. -/
def Takes (s : State) (ts : List Token) (r : Step) : Prop :=
  ∀ failure rest, Stream.readFrom failure s (ts ++ rest) = r.resume failure rest

theorem Takes.refl (s : State) : Takes s [] (.shift s) := fun _ _ ↦ rfl

theorem Takes.trans {s s' : State} {ts us : List Token} {r : Step} (h : Takes s ts (.shift s'))
    (h' : Takes s' us r) : Takes s (ts ++ us) r := by
  intro failure rest
  rw [List.append_assoc, h, ← h']
  rfl

/-- A token that is consumed. -/
theorem Takes.single {s : State} {t : Token} {r : Step} (h : s.step t = r)
    (hr : ∀ e, r ≠ .reject e) : Takes s [t] r := by
  intro failure rest
  subst h
  rw [List.singleton_append, Stream.readFrom]
  cases hs : s.step t with
  | reject e => exact absurd hs (hr e)
  | _ => rfl

theorem Takes.shift {s s' : State} {t : Token} (h : s.step t = .shift s') :
    Takes s [t] (.shift s') :=
  .single h (by simp)

/-- Expressions in a row become items of the innermost open list. -/
theorem Takes.items {parts : List Segment} (start : Nat) (ds : List Datum) (stack : List OpenList)
    (h : ∀ p ∈ parts, ∀ stack, Takes (.expression stack) p.1 (feed p.2 stack)) :
    Takes (.expression (.items start ds :: stack)) (parts.flatMap Prod.fst)
      (.shift (.expression (.items start ((parts.map Prod.snd).reverse ++ ds) :: stack))) := by
  induction parts generalizing ds with
  | nil => exact .refl _
  | cons p parts ih =>
    have hp := h p (by simp) (.items start ds :: stack)
    have hrest := ih (p.2 :: ds) (fun q hq ↦ h q (by simp [hq]))
    rw [List.flatMap_cons, List.map_cons, List.reverse_cons, List.append_assoc]
    exact hp.trans hrest

theorem takes_opening {o : Token} (ho : o.kind = .opening) (stack : List OpenList) :
    Takes (.expression stack) [o] (.shift (.expression (.items o.position [] :: stack))) :=
  .shift (by simp [State.step, ho])

/-- The dot is taken after at least one item. -/
theorem takes_dot {t : Token} (ht : t.isDot = true) (start : Nat) {ds : List Datum} (hds : ds ≠ [])
    (stack : List OpenList) :
    Takes (.expression (.items start ds :: stack)) [t]
      (.shift (.expression (.dotted ds t.position :: stack))) := by
  obtain ⟨d, ds, rfl⟩ := List.exists_cons_of_ne_nil hds
  exact .shift (by simp [State.step, Token.kind_of_isDot ht, ht, dot])

theorem takes_closing_items {c : Token} (hc : c.kind = .closing) (start : Nat) (ds : List Datum)
    (stack : List OpenList) :
    Takes (.expression (.items start ds :: stack)) [c] (feed (.ofList ds.reverse) stack) :=
  .single (by simp [State.step, hc, close]) (feed_ne_reject _ _)

theorem takes_closing_tail {c : Token} (hc : c.kind = .closing) (ds : List Datum) (d : Datum)
    (stack : List OpenList) :
    Takes (.closing ds d stack) [c] (feed (.chain ds.reverse d) stack) :=
  .single (by simp [State.step, hc]) (feed_ne_reject _ _)

end Reader

open Reader

/-- From any stack, the tokens of an expression lead to that stack fed with the expression. -/
theorem Derives.takes {ts : List Token} {d : Datum} (h : Derives ts d) (stack : List OpenList) :
    Takes (.expression stack) ts (feed d stack) := by
  induction h generalizing stack with
  | atom hk hdot ha =>
    exact .single (by simp [State.step, hk, hdot, ha, feed?]) (feed_ne_reject _ _)
  | string hk hs =>
    exact .single (by simp [State.step, hk, Reader.string, hs, feed?]) (feed_ne_reject _ _)
  | @list o c parts ho hc _ ih =>
    have hitems := Takes.items o.position [] stack ih
    have hclose := takes_closing_items hc o.position (parts.map Prod.snd).reverse stack
    rw [List.reverse_reverse] at hclose
    rw [List.append_nil] at hitems
    exact (takes_opening ho stack).trans (hitems.trans hclose)
  | @dotted o t c parts us d ho ht hc hne _ _ ihs ih =>
    have hitems := Takes.items o.position [] stack ihs
    rw [List.append_nil] at hitems
    have hds : (parts.map Prod.snd).reverse ≠ [] := by simpa using hne
    have hdot := takes_dot ht o.position hds stack
    have htail := ih (.dotted (parts.map Prod.snd).reverse t.position :: stack)
    have hclose := takes_closing_tail hc (parts.map Prod.snd).reverse d stack
    rw [List.reverse_reverse] at hclose
    exact (takes_opening ho stack).trans
      (hitems.trans (hdot.trans (Takes.trans htail hclose)))

/-! ## What is read is derived -/

namespace Reader

/-- `Opened stack ts`: the tokens `ts` begin the lists of `stack` and spell the items that these
have. -/
inductive Opened : List OpenList → List Token → Prop
  | nil : Opened [] []
  | items {stack : List OpenList} {us : List Token} {o : Token} {parts : List Segment} :
      Opened stack us → o.kind = .opening → (∀ p ∈ parts, Derives p.1 p.2) →
      Opened (.items o.position (parts.map Prod.snd).reverse :: stack)
        (us ++ o :: parts.flatMap Prod.fst)
  | dotted {stack : List OpenList} {us : List Token} {o t : Token} {parts : List Segment} :
      Opened stack us → o.kind = .opening → (∀ p ∈ parts, Derives p.1 p.2) → parts ≠ [] →
      t.isDot = true →
      Opened (.dotted (parts.map Prod.snd).reverse t.position :: stack)
        (us ++ o :: (parts.flatMap Prod.fst ++ [t]))

/-- `s.Since ts`: the state `s` is that of a reader which has taken the tokens `ts` of an
expression. -/
def State.Since : State → List Token → Prop
  | .expression stack, ts => Opened stack ts
  | .closing ds d stack, ts =>
    ∃ us vs dot, ts = us ++ vs ∧ Opened (.dotted ds dot :: stack) us ∧ Derives vs d

theorem since_start : (State.expression []).Since [] := Opened.nil

/-- What a step comes to, after the tokens `ts` in all. -/
def Step.Since : Step → List Token → Prop
  | .shift s, ts => s.Since ts
  | .done d, ts => Derives ts d
  | .reject _, _ | .fault _, _ => True

theorem since_feed {stack : List OpenList} {us ts : List Token} {d : Datum}
    (h : Opened stack us) (hd : Derives ts d) : (feed d stack).Since (us ++ ts) := by
  cases h with
  | nil => exact hd
  | @items stack us o parts h ho hparts =>
    have hall : ∀ p ∈ parts ++ [(ts, d)], Derives p.1 p.2 := by
      intro p hp
      rcases List.mem_append.mp hp with hp | hp
      · exact hparts p hp
      · rw [List.mem_singleton.mp hp]
        exact hd
    simpa [feed, Step.Since, State.Since] using Opened.items h ho hall
  | dotted h ho hparts hne ht => exact ⟨_, ts, _, rfl, .dotted h ho hparts hne ht, hd⟩

theorem since_feed? {stack : List OpenList} {us : List Token} {t : Token}
    {r : Except ReadError Datum} (h : Opened stack us) (hd : ∀ d, r = .ok d → Derives [t] d) :
    (feed? stack r).Since (us ++ [t]) := by
  cases r with
  | ok d => exact since_feed h (hd d rfl)
  | error e => trivial

theorem since_dot {stack : List OpenList} {us : List Token} {t : Token} (h : Opened stack us)
    (ht : t.isDot = true) : (dot t.position stack).Since (us ++ [t]) := by
  cases h with
  | nil => trivial
  | @items stack us o parts h ho hparts =>
    rcases List.eq_nil_or_concat parts with rfl | ⟨init, p, rfl⟩
    · trivial
    · have hds : dot t.position
          (.items o.position ((init.concat p).map Prod.snd).reverse :: stack) =
          .shift (.expression
            (.dotted ((init.concat p).map Prod.snd).reverse t.position :: stack)) := by
        simp [dot]
      rw [hds]
      simpa [Step.Since, State.Since] using Opened.dotted h ho hparts (by simp) ht
  | dotted => trivial

theorem since_close {stack : List OpenList} {us : List Token} {c : Token} (h : Opened stack us)
    (hc : c.kind = .closing) : (close c.position stack).Since (us ++ [c]) := by
  cases h with
  | nil => trivial
  | items h ho hparts =>
    have hd := Derives.list ho hc hparts
    simpa [close] using since_feed h hd
  | dotted => trivial

/-- One step keeps track of the tokens taken. -/
theorem State.Since.step {s : State} {us : List Token} (h : s.Since us) (t : Token) :
    (s.step t).Since (us ++ [t]) := by
  cases s with
  | expression stack =>
    cases hk : t.kind with
    | opening =>
      have hnone : ∀ p ∈ ([] : List Segment), Derives p.1 p.2 := by simp
      rw [State.step, hk]
      exact Opened.items h hk hnone
    | closing => simpa only [State.step, hk] using since_close h hk
    | string =>
      have hd : ∀ d, Reader.string t = .ok d → Derives [t] d := by
        intro d hd
        cases hs : Literal.read t.text with
        | none => simp [Reader.string, hs] at hd
        | some s =>
          simp only [Reader.string, hs, Except.ok.injEq] at hd
          subst hd
          exact .string hk hs
      simpa only [State.step, hk] using since_feed? h hd
    | symbol =>
      cases ht : t.isDot with
      | true => simpa only [State.step, hk, ht, if_true] using since_dot h ht
      | false =>
        simpa only [State.step, hk, ht, Bool.false_eq_true, if_false] using
          since_feed? h (fun d hd ↦ Derives.atom hk ht hd)
  | closing ds d stack =>
    obtain ⟨vs, ws, dot, rfl, hopen, hd⟩ := h
    by_cases hc : t.kind = .closing
    · cases hopen with
      | @dotted _ us o t' parts h ho hparts hne ht =>
        have hall := Derives.dotted ho ht hc hne hparts hd
        simpa [State.step, hc] using since_feed h hall
    · simp [State.step, hc, Step.Since]

/-- Where the tokens may end, none has been taken. -/
theorem State.Since.eq_nil {s : State} {us : List Token} (h : s.Since us) (he : s.atEnd = none) :
    us = [] := by
  cases s with
  | closing => simp [State.atEnd] at he
  | expression stack =>
    cases h with
    | nil => rfl
    | items => simp [State.atEnd] at he
    | dotted => simp [State.atEnd] at he

end Reader

namespace Stream

/-- Reading that goes through to the end splits all tokens into segments that spell what is read. -/
theorem splits_readAllFrom {failure : Option ReadError} {s : State} {us ts : List Token}
    (hs : s.Since us) (h : (readAllFrom failure s ts).failure = none) :
    failure = none ∧ ∃ parts, Splits (us ++ ts) parts ∧
      parts.map Prod.snd = (readAllFrom failure s ts).data := by
  induction ts generalizing s us with
  | nil =>
    obtain ⟨hf, he⟩ : failure = none ∧ s.atEnd = none := by simpa [readAllFrom] using h
    rw [hs.eq_nil he]
    exact ⟨hf, [], .nil, rfl⟩
  | cons t ts ih =>
    have hstep := hs.step t
    rw [readAllFrom] at h ⊢
    cases hr : s.step t with
    | shift s' =>
      rw [hr] at hstep h
      rw [List.append_cons]
      exact ih hstep h
    | done d =>
      rw [hr] at hstep h
      obtain ⟨hf, parts, hsplit, hdata⟩ := ih since_start h
      refine ⟨hf, (us ++ [t], d) :: parts, ?_, by rw [List.map_cons, hdata]⟩
      rw [List.append_cons]
      exact .cons hstep hsplit
    | reject e => simp [hr] at h
    | fault e => simp [hr] at h

/-- Reading all is reading one expression and then all the others. -/
theorem readAllFrom_eq (failure : Option ReadError) (s : State) (ts : List Token) :
    readAllFrom failure s ts =
      match readFrom failure s ts with
      | (.error e, rest) => ⟨[], some e, rest⟩
      | (.ok none, rest) => ⟨[], none, rest⟩
      | (.ok (some d), rest) => { rest.readAll with data := d :: rest.readAll.data } := by
  induction ts generalizing s with
  | nil =>
    rw [readAllFrom, readFrom]
    cases failure <|> s.atEnd <;> rfl
  | cons t ts ih =>
    rw [readAllFrom, readFrom]
    cases hr : s.step t with
    | shift s' => exact ih s'
    | _ => rfl

theorem readAll_eq (s : Stream) :
    s.readAll =
      match s.read with
      | (.error e, rest) => ⟨[], some e, rest⟩
      | (.ok none, rest) => ⟨[], none, rest⟩
      | (.ok (some d), rest) => { rest.readAll with data := d :: rest.readAll.data } :=
  readAllFrom_eq _ _ _

/-- Segments that spell expressions are read one after another. -/
theorem readAllFrom_of_splits {failure : Option ReadError} {ts : List Token}
    {parts : List Segment} (h : Splits ts parts) :
    (readAllFrom failure (.expression []) ts).data = parts.map Prod.snd ∧
      (readAllFrom failure (.expression []) ts).failure = failure := by
  obtain ⟨rfl, hparts⟩ := h
  induction parts with
  | nil => cases failure <;> exact ⟨rfl, rfl⟩
  | cons p parts ih =>
    have hp := (hparts p (by simp)).takes [] failure (parts.flatMap Prod.fst)
    obtain ⟨hdata, hfail⟩ := ih (fun q hq ↦ hparts q (by simp [hq]))
    rw [List.flatMap_cons, readAllFrom_eq, hp]
    exact ⟨congrArg (p.2 :: ·) hdata, hfail⟩

/-- A stream at its end is one from which everything is read without finding anything. -/
theorem peek_eq_none_iff (s : Stream) :
    s.peek.1 = .ok none ↔ s.readAll.data = [] ∧ s.readAll.failure = none := by
  constructor
  · intro h
    obtain ⟨held, pending, failure⟩ := s
    cases held <;> cases pending <;> cases failure <;> simp_all [peek, readAll, readAllFrom,
      tokens, State.atEnd]
  · rintro ⟨hdata, hfail⟩
    obtain ⟨hf, parts, ⟨htokens, -⟩, hparts⟩ := splits_readAllFrom since_start hfail
    have hnil : s.tokens = [] := by
      rw [readAll, ← hparts, List.map_eq_nil_iff] at hdata
      rw [hdata] at htokens
      exact htokens.symm
    obtain ⟨held, pending, failure⟩ := s
    cases held <;> cases pending <;> simp_all [peek, tokens]

end Stream

/-! ## Reading from what the machine takes -/

/-- A text whose tokens the reader takes for one datum is read as that datum. -/
theorem readOne_of_takes {s : Text} {ts : List Token} {d : Datum} (hlex : lex s = ⟨ts, none⟩)
    (h : Takes (.expression []) ts (.done d)) : readOne s = .ok d := by
  have hread := h none []
  rw [List.append_nil] at hread
  simp [readOne, Stream.read, Stream.ofText, Stream.tokens, hlex, hread, Step.resume, Stream.peek]

/-- A text at whose start the reader finds a fault is not read. -/
theorem readOne_of_fault {s : Text} {us vs : List Token} {e : ReadError}
    (hlex : lex s = ⟨us ++ vs, none⟩) (h : Takes (.expression []) us (.fault e)) :
    readOne s = .error e := by
  simp [readOne, Stream.read, Stream.ofText, Stream.tokens, hlex, h none vs, Step.resume]

/-! ## The grammar is unambiguous -/

/-- Of two expressions at the start of the same tokens, one spells what the other spells. -/
theorem Derives.append_cancel {ts us vs ws : List Token} {d e : Datum} (hd : Derives ts d)
    (he : Derives us e) (h : ts ++ vs = us ++ ws) : ts = us ∧ d = e ∧ vs = ws := by
  have hrun : ((feed d []).resume none vs) = ((feed e []).resume none ws) := by
    rw [← hd.takes [] none vs, ← he.takes [] none ws, h]
  simp only [feed, Step.resume, Prod.mk.injEq, Except.ok.injEq, Option.some.injEq,
    Stream.mk.injEq, true_and, and_true] at hrun
  obtain ⟨rfl, rfl⟩ := hrun
  exact ⟨List.append_cancel_right h, rfl, rfl⟩

/-- Tokens fall into segments in at most one way. -/
theorem splits_subsingleton (ts : List Token) : {parts | Splits ts parts}.Subsingleton := by
  intro parts hparts
  induction parts generalizing ts with
  | nil =>
    rintro (_ | ⟨q, qs⟩) ⟨hq, hqs⟩
    · rfl
    · have hne := (hqs q (by simp)).ne_nil
      rw [← hparts.1] at hq
      simp_all
  | cons p ps ih =>
    obtain ⟨hp, hps⟩ := hparts
    rintro (_ | ⟨q, qs⟩) ⟨hq, hqs⟩
    · have hne := (hps p (by simp)).ne_nil
      rw [← hq] at hp
      simp_all
    · have hpq : p.1 ++ ps.flatMap Prod.fst = q.1 ++ qs.flatMap Prod.fst := hp.trans hq.symm
      obtain ⟨h1, h2, h3⟩ := (hps p (by simp)).append_cancel (hqs q (by simp)) hpq
      have htail := ih (ps.flatMap Prod.fst) ⟨rfl, fun r hr ↦ hps r (by simp [hr])⟩
        ⟨h3.symm, fun r hr ↦ hqs r (by simp [hr])⟩
      rw [Prod.ext h1 h2, htail]

/-! ## The reader accepts exactly the grammar -/

theorem readAll_eq_iff (s : Text) (es : List Datum) :
    ((readAll s).data = es ∧ (readAll s).failure = none) ↔
      (lex s).failure = none ∧ ∃ parts, Splits (lex s).tokens parts ∧ parts.map Prod.snd = es := by
  constructor
  · rintro ⟨rfl, hf⟩
    exact Stream.splits_readAllFrom since_start hf
  · rintro ⟨hf, parts, hsplit, rfl⟩
    obtain ⟨hdata, hfail⟩ := Stream.readAllFrom_of_splits hsplit
    exact ⟨hdata, hfail.trans hf⟩

theorem readOne_eq_ok_iff_readAll (s : Text) (e : Datum) :
    readOne s = .ok e ↔ (readAll s).data = [e] ∧ (readAll s).failure = none := by
  rw [readOne, readAll, Stream.readAll_eq]
  rcases (Stream.ofText s).read with ⟨e' | _ | d, rest⟩
  · simp
  · simp
  · have hrest := Stream.peek_eq_none_iff rest
    rcases hp : rest.peek.1 with e' | _ | t
    · simp_all
    · simp_all
    · simp_all

theorem readOne_eq_ok_iff (s : Text) (e : Datum) :
    readOne s = .ok e ↔ (lex s).failure = none ∧ Derives (lex s).tokens e := by
  rw [readOne_eq_ok_iff_readAll, readAll_eq_iff]
  refine and_congr_right fun _ ↦ ⟨?_, fun h ↦ ⟨[((lex s).tokens, e)], ?_, rfl⟩⟩
  · rintro ⟨parts, ⟨htokens, hparts⟩, he⟩
    obtain ⟨p, rfl, rfl⟩ := List.map_eq_singleton_iff.mp he
    rw [← htokens, List.flatMap_singleton]
    exact hparts p (by simp)
  · simpa using Splits.cons h .nil

/-- The reader accepts exactly the grammar, whether one expression is asked for or all of them: a
text is read as `e` when it is lexed to its end and its tokens spell `e`, and then `e` is also all
that reading everything gives. Everything is read without an error when the text is lexed to its end
and its tokens fall into segments that spell what is read, which they do in one way only. -/
theorem readOne_readAll_iff_grammar (s : Text) :
    (∀ e, (readOne s = .ok e ↔ (lex s).failure = none ∧ Derives (lex s).tokens e) ∧
      (readOne s = .ok e ↔ (readAll s).data = [e] ∧ (readAll s).failure = none)) ∧
    (∀ es, ((readAll s).data = es ∧ (readAll s).failure = none) ↔
      (lex s).failure = none ∧
        ∃ parts, Splits (lex s).tokens parts ∧ parts.map Prod.snd = es) ∧
    {parts | Splits (lex s).tokens parts}.Subsingleton :=
  ⟨fun e ↦ ⟨readOne_eq_ok_iff s e, readOne_eq_ok_iff_readAll s e⟩, readAll_eq_iff s,
    splits_subsingleton _⟩

end Fexpr
