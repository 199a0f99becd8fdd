import Fexpr.Proofs.Evaluator.Policy

/-!
# Passes over operands

An applicative evaluates its operands from left to right and gives the list of their values to the
combiner it wraps. If that is an applicative too, the values are evaluated once more: a combiner
wrapped `n` times makes `n` passes over its operands. This file says what a pass does by a relation,
`Sweep`, and where it may stop, and puts passes one after another. Main statement:
`wrapped_makes_passes`.
-/

namespace Fexpr

variable {ev : Evaluator} {env : Option FrameId} {es vs : List Value} {s t u : Store} {f : Failure}

/-! ## One pass -/

/-- `Sweep ev env es s vs t`: evaluating the expressions `es` from left to right, the first in the
store `s` and each other one in the store that the one before it leaves, gives the values `vs` and
leaves the store `t`. -/
inductive Sweep (ev : Evaluator) (env : Option FrameId) :
    List Value → Store → List Value → Store → Prop
  | nil (s : Store) : Sweep ev env [] s [] s
  | cons {e v : Value} {es vs : List Value} {s t u : Store} :
    ev e env s = .ok v t → Sweep ev env es t vs u → Sweep ev env (e :: es) s (v :: vs) u

/-- One of the expressions fails, in the store that those before it leave. -/
def SweepFails (ev : Evaluator) (env : Option FrameId) (es : List Value) (s : Store) (f : Failure)
    (u : Store) : Prop :=
  ∃ before e after vs t, es = before ++ e :: after ∧ Sweep ev env before s vs t ∧
    ev e env t = .error f u

theorem Sweep.length_eq (h : Sweep ev env es s vs t) : vs.length = es.length := by
  induction h with
  | nil s => rfl
  | cons _ _ ih => rw [List.length_cons, ih, List.length_cons]

/-- A failure is that of the first expression, or one among the later ones. -/
theorem sweepFails_cons_iff {e : Value} :
    SweepFails ev env (e :: es) s f u ↔
      ev e env s = .error f u ∨ ∃ v t, ev e env s = .ok v t ∧ SweepFails ev env es t f u := by
  constructor
  · rintro ⟨before, e', after, vs, t, hes, hbefore, he'⟩
    cases hbefore with
    | nil =>
      cases hes
      exact .inl he'
    | cons he hbefore =>
      cases hes
      exact .inr ⟨_, _, he, _, _, _, _, _, rfl, hbefore, he'⟩
  · rintro (he | ⟨v, t, he, h⟩)
    · exact ⟨[], e, es, [], s, rfl, .nil s, he⟩
    · obtain ⟨before, e', after, vs, t', rfl, hbefore, he'⟩ := h
      exact ⟨e :: before, e', after, v :: vs, t', rfl, .cons he hbefore, he'⟩

/-- All expressions are evaluated, unless one fails. -/
theorem sweep_or_fails (ev : Evaluator) (env : Option FrameId) (es : List Value) (s : Store) :
    (∃ vs t, Sweep ev env es s vs t) ∨ ∃ f u, SweepFails ev env es s f u := by
  induction es generalizing s with
  | nil => exact .inl ⟨[], s, .nil s⟩
  | cons e es ih =>
    cases he : ev e env s with
    | error f u => exact .inr ⟨f, u, sweepFails_cons_iff.mpr (.inl he)⟩
    | ok v t =>
      rcases ih t with ⟨vs, u, h⟩ | ⟨f, u, h⟩
      · exact .inl ⟨v :: vs, u, .cons he h⟩
      · exact .inr ⟨f, u, sweepFails_cons_iff.mpr (.inr ⟨v, t, he, h⟩)⟩

theorem Value.fst_spine_of_elements? {v : Value} (h : v.elements? = some es) : v.spine.1 = es := by
  induction v generalizing es with
  | nil => exact Option.some.inj h
  | pair tag a b _ ih =>
    obtain ⟨bs, hbs, rfl⟩ := Option.map_eq_some_iff.mp h
    exact congrArg (a :: ·) (ih hbs)
  | _ => cases h

/-- Evaluating the elements of a list gives their values; that it is no proper list shows after
them. -/
theorem evaluateEach_of_sweep (whole : Value) {v : Value} (h : Sweep ev env v.spine.1 s vs t) :
    evaluateEach ev env whole v s =
      if v.elements?.isSome then .ok vs t
      else .error (.fault (.showing (.mismatch .list) whole.render)) t := by
  induction v generalizing s vs with
  | nil =>
    cases h
    rfl
  | pair tag a b _ ih =>
    cases h with
    | cons ha hb =>
      specialize ih hb
      rw [evaluateEach, Eval.bind_of_ok ha, Value.elements?_pair, Option.isSome_map]
      by_cases hproper : b.elements?.isSome = true
      · rw [if_pos hproper] at ih ⊢
        rw [Eval.bind_of_ok ih]
        rfl
      · rw [if_neg hproper] at ih ⊢
        rw [Eval.bind_of_error ih]
  | _ =>
    cases h
    rfl

theorem evaluateEach_of_fails (whole : Value) {v : Value} (h : SweepFails ev env v.spine.1 s f u) :
    evaluateEach ev env whole v s = .error f u := by
  induction v generalizing s with
  | pair tag a b _ ih =>
    rw [evaluateEach]
    rcases sweepFails_cons_iff.mp h with ha | ⟨w, t, ha, hb⟩
    · rw [Eval.bind_of_error ha]
    · rw [Eval.bind_of_ok ha, Eval.bind_of_error (ih hb)]
  | _ =>
    obtain ⟨before, e, after, vs, t, hes, -⟩ := h
    simp [Value.spine] at hes

/-! ## Applying applicatives -/

section Applicatives

variable [CharacterNames] {operands list : Value}

theorem applyWith_of_sweep (tag : Tag) (c : Value) (hes : operands.elements? = some es)
    (h : Sweep ev env es s vs t) (hlist : Eval.newList vs t = .ok list u) :
    applyWith ev (.applicative tag c) operands env s = applyWith ev c list env u := by
  have heach : evaluateEach ev env operands operands s = .ok vs t := by
    rw [evaluateEach_of_sweep _ (Value.fst_spine_of_elements? hes ▸ h), hes]
    rfl
  rw [applyWith, Eval.bind_of_ok heach, Eval.bind_of_ok hlist]

theorem applyWith_of_improper (tag : Tag) (c : Value) (hes : operands.elements? = none)
    (h : Sweep ev env operands.spine.1 s vs t) :
    applyWith ev (.applicative tag c) operands env s =
      .error (.fault (.showing (.mismatch .list) operands.render)) t := by
  have heach := evaluateEach_of_sweep operands h
  rw [hes] at heach
  rw [applyWith, Eval.bind_of_error heach]

theorem applyWith_of_fails (tag : Tag) (c : Value) (h : SweepFails ev env operands.spine.1 s f u) :
    applyWith ev (.applicative tag c) operands env s = .error f u := by
  rw [applyWith, Eval.bind_of_error (evaluateEach_of_fails operands h)]

end Applicatives

/-! ## One pass after another -/

/-- `Passes ev env n operands s list t`: of `n` passes, the first over `operands` and each other one
over the values of the one before it, which make a new list, all are completed; the last one gives
`list` and leaves the store `t`. -/
inductive Passes (ev : Evaluator) (env : Option FrameId) :
    Nat → Value → Store → Value → Store → Prop
  | refl (operands : Value) (s : Store) : Passes ev env 0 operands s operands s
  | step {n : Nat} {operands next list : Value} {es vs : List Value} {s t t' u : Store} :
    operands.elements? = some es → Sweep ev env es s vs t → Eval.newList vs t = .ok next t' →
      Passes ev env n next t' list u → Passes ev env (n + 1) operands s list u

section Passes

variable {n : Nat} {operands list : Value}

/-- Passes keep the number of operands. -/
theorem Passes.length_eq (h : Passes ev env n operands s list t)
    (hes : operands.elements? = some es) :
    ∃ vs, list.elements? = some vs ∧ vs.length = es.length := by
  induction h generalizing es with
  | refl operands s => exact ⟨es, hes, rfl⟩
  | @step n operands next list es' vs s t t' u hes' hsweep hnext _ ih =>
    rw [hes'] at hes
    cases hes
    cases hnext
    obtain ⟨ws, hws, hlen⟩ := ih (Value.elements?_listFrom _ _)
    exact ⟨ws, hws, hlen.trans hsweep.length_eq⟩

/-- All passes are completed, unless an expression fails in one of them. -/
theorem passes_or_fails (ev : Evaluator) (env : Option FrameId) (n : Nat) (s : Store)
    (hes : operands.elements? = some es) :
    (∃ list t, Passes ev env n operands s list t) ∨
      ∃ i < n, ∃ list t us f u, Passes ev env i operands s list t ∧ list.elements? = some us ∧
        SweepFails ev env us t f u := by
  induction n generalizing operands es s with
  | zero => exact .inl ⟨operands, s, .refl operands s⟩
  | succ n ih =>
    rcases sweep_or_fails ev env es s with ⟨vs, t, hsweep⟩ | ⟨f, u, hfails⟩
    · rcases ih _ (Value.elements?_listFrom t.nextTag vs) with
        ⟨list, u, h⟩ | ⟨i, hi, list, t', us, f, u, h, hus, hfails⟩
      · exact .inl ⟨list, u, .step hes hsweep rfl h⟩
      · exact .inr
          ⟨i + 1, Nat.succ_lt_succ hi, list, t', us, f, u, .step hes hsweep rfl h, hus, hfails⟩
    · exact .inr ⟨0, Nat.succ_pos n, operands, s, es, f, u, .refl operands s, hes, hfails⟩

end Passes

/-! ## Wrapping a combiner many times -/

/-- Wrap a combiner `n` times. -/
def Combiner.wrapTimes : Nat → Value → Eval Value
  | 0, c => pure c
  | n + 1, c => do
    let w ← wrapTimes n c
    wrap w

/-- The combiner `c` wrapped `n` times, its applicatives tagged from `tag` on. -/
def Value.wrapped (tag : Tag) (c : Value) : Nat → Value
  | 0 => c
  | n + 1 => applicative (tag + n) (wrapped tag c n)

theorem Combiner.wrapTimes_eq {c : Value} (hc : c.isCombiner = true) (n : Nat) (s : Store) :
    wrapTimes n c s = .ok (.wrapped s.nextTag c n) { s with nextTag := s.nextTag + n } := by
  induction n with
  | zero => rfl
  | succ n ih =>
    have hw : (Value.wrapped s.nextTag c n).isCombiner = true := by
      cases n with
      | zero => exact hc
      | succ n => rfl
    rw [wrapTimes, Eval.bind_of_ok ih, wrap, if_pos hw]
    rfl

/-- The outermost applicatives make a pass each, and those inside are then applied to the last
values. -/
theorem Passes.applyWith [CharacterNames] {n : Nat} {operands list : Value}
    (h : Passes ev env n operands s list t) (tag : Tag) (c : Value) (k : Nat) :
    applyWith ev (.wrapped tag c (k + n)) operands env s =
      applyWith ev (.wrapped tag c k) list env t := by
  induction h with
  | refl operands s => rfl
  | step hes hsweep hnext _ ih =>
    rw [← ih]
    exact applyWith_of_sweep _ _ hes hsweep hnext

/-- Applying a combiner `c` that has been wrapped `n` times makes `n` passes over the operands and
applies `c` to the list of the last values, of which there are as many as operands. If an expression
fails in one of the passes, that failure is the outcome. If the operands are no proper list, and `n`
is not zero, each of them is evaluated once before it is found that there is no list; the fault then
shows what is there instead, except for an integer that is too long. -/
theorem wrapped_makes_passes [CharacterNames] {c : Value} (hc : c.isCombiner = true) (n : Nat)
    (s₀ : Store) :
    ∃ w, Combiner.wrapTimes n c s₀ = .ok w { s₀ with nextTag := s₀.nextTag + n } ∧
      ∀ (depth : Nat) (env : Option FrameId) (operands : Value) (s : Store),
        let ev := evaluate depth
        (∀ es, operands.elements? = some es →
          (∀ list t, Passes ev env n operands s list t →
            apply depth w operands env s = apply depth c list env t) ∧
          (∀ i < n, ∀ list t us f u, Passes ev env i operands s list t → list.elements? = some us →
            SweepFails ev env us t f u → apply depth w operands env s = .error f u) ∧
          (∀ i list t, Passes ev env i operands s list t →
            ∃ vs, list.elements? = some vs ∧ vs.length = es.length) ∧
          ((∃ list t, Passes ev env n operands s list t) ∨
            ∃ i < n, ∃ list t us f u, Passes ev env i operands s list t ∧ list.elements? = some us ∧
              SweepFails ev env us t f u)) ∧
        (operands.elements? = none → 1 ≤ n →
          (∀ vs t, Sweep ev env operands.spine.1 s vs t →
            ∃ e, Fault.Shows (.mismatch .list) operands e ∧
              apply depth w operands env s = .error (.fault e) t) ∧
          (∀ f u, SweepFails ev env operands.spine.1 s f u →
            apply depth w operands env s = .error f u) ∧
          ((∃ vs t, Sweep ev env operands.spine.1 s vs t) ∨
            ∃ f u, SweepFails ev env operands.spine.1 s f u)) := by
  refine ⟨_, Combiner.wrapTimes_eq hc n s₀, ?_⟩
  intro depth env operands s ev
  constructor
  · intro es hes
    refine ⟨?_, ?_, ?_, passes_or_fails ev env n s hes⟩
    · intro list t h
      have happly := h.applyWith s₀.nextTag c 0
      rw [Nat.zero_add] at happly
      exact happly
    · intro i hi list t us f u h hus hfails
      -- The applicatives inside of the first `i` ones start with the pass that fails.
      obtain ⟨k, rfl⟩ := Nat.exists_eq_add_of_lt hi
      have happly := h.applyWith s₀.nextTag c (k + 1)
      rw [Nat.add_comm, ← Nat.add_assoc] at happly
      exact happly.trans (applyWith_of_fails _ _ (Value.fst_spine_of_elements? hus ▸ hfails))
    · intro i list t h
      exact h.length_eq hes
  · intro hes hn
    obtain ⟨m, rfl⟩ := Nat.exists_eq_add_of_le' hn
    refine ⟨?_, ?_, sweep_or_fails ev env operands.spine.1 s⟩
    · intro vs t h
      exact ⟨_, Fault.shows_showing _ _, applyWith_of_improper _ _ hes h⟩
    · intro f u h
      exact applyWith_of_fails _ _ h

open scoped CharacterNames

/-- The operands `x` and `(define x 7)`, where `x` is bound to the symbol `y`: the first pass gives
`y` and `7` and binds `x` anew, and the second pass fails since `y` is not bound. -/
theorem wrapped_makes_passes_unbound :
    let c : Value := .native (.select true)
    let define : Value :=
      .listFrom 0 [.primitive 3 "define" (.builtin .define), .symbol "x", .int 7]
    let operands : Value := .listFrom 4 [.symbol "x", define]
    let s : Store := (Store.empty.newFrame none).assign 0 "x" (.symbol "y")
    let t : Store := (s.assign 0 "x" (.int 7)).record (.defined "x")
    c.isCombiner = true ∧ ∃ w s', Combiner.wrapTimes 2 c s = .ok w s' ∧
      apply 2 w operands (some 0) s =
        .error (.fault (.unbound "y")) { t with nextTag := t.nextTag + 2 } := by
  intro c define operands s t
  obtain ⟨w, hw, h⟩ := wrapped_makes_passes (c := c) rfl 2 s
  refine ⟨rfl, w, _, hw, ?_⟩
  obtain ⟨-, hfails, -⟩ := (h 2 (some 0) operands s).1 _ rfl
  have hx : evaluate 2 (.symbol "x") (some 0) s = .ok (.symbol "y") s := rfl
  have hdefine : evaluate 2 define (some 0) s = .ok (.int 7) t := rfl
  have hy : evaluate 2 (.symbol "y") (some 0) { t with nextTag := t.nextTag + 2 } =
      .error (.fault (.unbound "y")) { t with nextTag := t.nextTag + 2 } := rfl
  exact hfails 1 (by decide) _ _ _ _ _
    (.step rfl (.cons hx (.cons hdefine (.nil _))) rfl (.refl _ _)) rfl
    ⟨[], _, _, _, _, rfl, .nil _, hy⟩

/-- A pair of the least integer that is too long and of a number is no list of operands, but an
applicative that has evaluated the operand in it does not say so. -/
theorem long_operand_not_shown :
    let c : Value := .native (.select true)
    let operands : Value := .pair 0 .tooLong (.int 5)
    operands.elements? = none ∧ ∀ s, ∃ w t, Combiner.wrapTimes 1 c s = .ok w t ∧
      Sweep (evaluate 1) (some 0) operands.spine.1 t [.tooLong] t ∧
      apply 1 w operands (some 0) t = .error (.fault .unwritable) t ∧
      ∀ got, apply 1 w operands (some 0) t ≠ .error (.fault (.mismatch .list got)) t := by
  intro c operands
  refine ⟨rfl, fun s ↦ ⟨_, _, Combiner.wrapTimes_eq rfl 1 s, ?_⟩⟩
  generalize { s with nextTag := s.nextTag + 1 } = t
  have hsweep : Sweep (evaluate 1) (some 0) operands.spine.1 t [.tooLong] t := .cons rfl (.nil t)
  have hlong : ¬ operands.Writable := fun h ↦ Value.not_writable_tooLong h.1
  have happly :
      apply 1 (.wrapped s.nextTag c 1) operands (some 0) t = .error (.fault .unwritable) t := by
    have himproper := applyWith_of_improper s.nextTag c rfl hsweep
    rw [Fault.showing_of_not_writable _ hlong] at himproper
    exact himproper
  refine ⟨hsweep, happly, fun got ↦ ?_⟩
  rw [happly]
  simp

end Fexpr
