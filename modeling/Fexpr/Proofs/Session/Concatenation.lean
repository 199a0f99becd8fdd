import Fexpr.Proofs.Evaluator.Policy
import Fexpr.Proofs.Reader.Append
import Fexpr.Session

/-!
# Evaluating one text after another

Evaluating two texts one after the other is evaluating them as one text with a line feed in between:
what the first reads is evaluated before anything of the second, so a failure in the first text
comes first and leaves the second alone. Main statement: `evalPrelude_append_newline`.
-/

namespace Fexpr

/-- `Failure.Later k e f`: the failures are the same, but `f` may report an error of reading `k`
code points later. -/
inductive Failure.Later (k : Nat) : Failure → Failure → Prop
  | refl (e : Failure) : Later k e e
  | unreadable (e : ReadError) : Later k (.fault (.unreadable e)) (.fault (.unreadable (e.later k)))

/-- `x.AgreesLater k y`: from every store the computations give the same value or fail alike, and
leave the same store behind, but `y` may report an error of reading `k` code points later. -/
def Eval.AgreesLater {α : Type} (k : Nat) (x y : Eval α) : Prop :=
  ∀ s, match x s, y s with
    | .ok a t, .ok b u => a = b ∧ t = u
    | .error e t, .error f u => e.Later k f ∧ t = u
    | _, _ => False

namespace Eval.AgreesLater

variable {α β : Type} {k : Nat}

theorem refl (x : Eval α) : AgreesLater k x x := by
  intro s
  cases x s with
  | ok a t => exact ⟨rfl, rfl⟩
  | error e t => exact ⟨.refl e, rfl⟩

theorem fail (e : ReadError) :
    AgreesLater (α := α) k (Eval.fail (.unreadable e)) (Eval.fail (.unreadable (e.later k))) :=
  fun _ ↦ ⟨.unreadable e, rfl⟩

/-- Computations that agree do so after the same beginning. -/
theorem bind_left (x : Eval α) {y z : α → Eval β} (h : ∀ a, AgreesLater k (y a) (z a)) :
    AgreesLater k (x >>= y) (x >>= z) := by
  intro s
  cases hx : x s with
  | ok a t =>
    rw [bind_of_ok hx, bind_of_ok hx]
    exact h a t
  | error e t =>
    rw [bind_of_error hx, bind_of_error hx]
    exact ⟨.refl e, rfl⟩

/-- Computations that agree do so with whatever comes after them. -/
theorem bind_right {x y : Eval α} (h : AgreesLater k x y) (z : α → Eval β) :
    AgreesLater k (x >>= z) (y >>= z) := by
  intro s
  have hs := h s
  cases hx : x s with
  | ok a t =>
    cases hy : y s with
    | ok b u =>
      rw [hx, hy] at hs
      obtain ⟨rfl, rfl⟩ := hs
      rw [bind_of_ok hx, bind_of_ok hy]
      exact refl (z a) t
    | error f u =>
      rw [hx, hy] at hs
      exact hs.elim
  | error e t =>
    cases hy : y s with
    | ok b u =>
      rw [hx, hy] at hs
      exact hs.elim
    | error f u =>
      rw [hx, hy] at hs
      rw [bind_of_error hx, bind_of_error hy]
      exact hs

theorem of_ok {x y : Eval α} (h : AgreesLater k x y) {s t : Store} {a : α} (hy : y s = .ok a t) :
    x s = .ok a t := by
  have hs := h s
  rw [hy] at hs
  cases hx : x s with
  | ok b u =>
    rw [hx] at hs
    rw [hs.1, hs.2]
  | error e u =>
    rw [hx] at hs
    exact hs.elim

end Eval.AgreesLater

theorem Eval.exists_of_bind_ok {α β : Type} {x : Eval α} {k : α → Eval β} {s t : Store} {b : β}
    (h : (x >>= k) s = .ok b t) : ∃ a u, x s = .ok a u ∧ k a u = .ok b t := by
  cases hx : x s with
  | ok a u =>
    rw [bind_of_ok hx] at h
    exact ⟨a, u, rfl, h⟩
  | error e u =>
    rw [bind_of_error hx] at h
    cases h

namespace Session

/-- What comes after the expressions of a text: the error that stopped reading, if one did. -/
def conclude (failure : Option ReadError) (vs : List Value) : Eval (List Value) :=
  match failure with
  | some e => .fail (.unreadable e)
  | none => return vs

theorem conclude_later (k : Nat) (failure : Option ReadError) (vs ws : List Value) :
    Eval.AgreesLater k (conclude failure ws >>= fun ws ↦ pure (vs ++ ws))
      (conclude (failure.map (ReadError.later k)) (vs ++ ws)) := by
  cases failure with
  | none => exact .refl _
  | some e => exact .fail e

variable [CharacterNames] (depth : Nat) (world : FrameId)

theorem evaluateText_eq (t : Text) :
    evaluateText depth world t =
      evaluateData depth world (readAll t).data >>= conclude (readAll t).failure := rfl

theorem evaluateData_append (ds es : List Datum) :
    evaluateData depth world (ds ++ es) = do
      let vs ← evaluateData depth world ds
      let ws ← evaluateData depth world es
      return vs ++ ws := by
  induction ds with
  | nil => simp [evaluateData]
  | cons d ds ih => simp [evaluateData, ih]

/-- Two texts evaluated one after the other, and evaluated as one. -/
theorem evaluateText_append_newline {u : Text} (hu : (readAll u).failure = none) (v : Text) :
    Eval.AgreesLater (u.length + 1)
      (do
        let vs ← evaluateText depth world u
        let ws ← evaluateText depth world v
        return vs ++ ws)
      (evaluateText depth world (u ++ .scalar '\n' :: v)) := by
  obtain ⟨hdata, hfailure⟩ := readAll_append_newline hu v
  have hfirst : evaluateText depth world u = evaluateData depth world (readAll u).data := by
    rw [evaluateText_eq, hu]
    exact bind_pure _
  rw [hfirst, evaluateText_eq, evaluateText_eq, hdata, hfailure, evaluateData_append]
  simp only [bind_assoc, pure_bind]
  refine .bind_left _ fun vs ↦ .bind_left _ fun ws ↦ ?_
  exact conclude_later _ _ vs ws

end Session

open Session

/-- A text `u` that can be read to its end, a line feed and any text `v` are evaluated for their
effects as `u` is, and then, if that did not fail, as `v` is, however deep evaluations may nest:
with the same bindings and the same records in the end, and the same failure, but for where an error
in reading `v` is reported. Evaluating a text for its values has the effects and failures of
evaluating it for its effects, and the values collected for `u` come before those collected for
`v`. -/
theorem evalPrelude_append_newline [CharacterNames] (depth : Nat) (world : FrameId) (u v : Text)
    (hu : (readAll u).failure = none) :
    Eval.AgreesLater (u.length + 1)
      (do
        evalPrelude depth world u
        evalPrelude depth world v)
      (evalPrelude depth world (u ++ .scalar '\n' :: v)) ∧
    (∀ t, evalPrelude depth world t = do
      let _ ← eval depth world t) ∧
    ∀ s a s', eval depth world (u ++ .scalar '\n' :: v) s = .ok a s' → ∃ vs ws t,
      evaluateText depth world u s = .ok vs t ∧ evaluateText depth world v t = .ok ws s' ∧
      a = .ofList (vs ++ ws) := by
  have hagree := evaluateText_append_newline depth world hu v
  refine ⟨?_, fun t ↦ ?_, fun s a s' h ↦ ?_⟩
  · have hdiscard := hagree.bind_right fun _ ↦ (pure () : Eval Unit)
    simp only [bind_assoc, pure_bind] at hdiscard
    simpa only [evalPrelude, bind_assoc, pure_bind] using hdiscard
  · simp [evalPrelude, eval]
  · obtain ⟨us, t, hus, hpure⟩ := Eval.exists_of_bind_ok h
    cases hpure
    obtain ⟨vs, t, hvs, h⟩ := Eval.exists_of_bind_ok (hagree.of_ok hus)
    obtain ⟨ws, t', hws, hpure⟩ := Eval.exists_of_bind_ok h
    cases hpure
    exact ⟨vs, ws, t, hvs, hws, rfl⟩

open scoped CharacterNames

/-- A line comment at the end of a text goes no further than the line feed after it: the quote on
the next line opens a string there as it does alone. -/
theorem evalPrelude_append_newline_comment :
    (readAll "x ;").failure = none ∧
    Eval.AgreesLater 4
      (do
        evalPrelude 9 0 "x ;"
        evalPrelude 9 0 "\"")
      (evalPrelude 9 0 (("x ;" : Text) ++ .scalar '\n' :: ("\"" : Text))) :=
  ⟨by decide, (evalPrelude_append_newline 9 0 "x ;" "\"" (by decide)).1⟩

end Fexpr
