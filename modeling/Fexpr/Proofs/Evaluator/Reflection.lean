import Fexpr.Proofs.Reader.RoundTrip
import Fexpr.Proofs.Store.Retagging

/-!
# Evaluating what is read

The text of a program can be written as a string literal in another program that reads and evaluates
it. Such a program does what the text itself does. It reads its own expression first and makes lists
of operands, so that the tags of all that comes after are others, and it nests evaluations by one
more. Main statement: `evaluate_reflected`.
-/

namespace Fexpr

/-! ## The program -/

/-- The text of the program that reads and evaluates a text, which it holds as a string literal. -/
def reflected (t : Text) : Text := ("(eval (read " : Text) ++ (Datum.str t).render ++ ("))" : Text)

/-- The expression of that program. -/
def Datum.reflected (t : Text) : Datum := .ofList [.symbol "eval", .ofList [.symbol "read", .str t]]

namespace Datum

theorem render_reflected (t : Text) : (Datum.reflected t).render = Fexpr.reflected t := by
  simp [Datum.reflected, Fexpr.reflected, ofList, render, write, atom, Text.ofString]

theorem legible_reflected (t : Text) : (Datum.reflected t).Legible := by
  have heval : (symbol "eval").Legible := by
    refine ⟨⟨?_, ?_, ?_⟩, ?_, rfl⟩ <;> decide
  have hread : (symbol "read").Legible := by
    refine ⟨⟨?_, ?_, ?_⟩, ?_, rfl⟩ <;> decide
  exact ⟨heval, ⟨hread, trivial, trivial⟩, trivial⟩

end Datum

theorem readOne_reflected [CharacterNames] {t : Text}
    (h : ∀ c ∈ t, c ≠ '\x00' ∧ c.isSurrogate = false) :
    readOne (reflected t) = .ok (.reflected t) := by
  rw [← Datum.render_reflected]
  apply (Datum.legible_reflected t).readOne
  intro u hu
  obtain rfl : u = t := by simpa [Datum.reflected, Datum.ofList, Datum.strings] using hu
  exact any_isForbidden_eq_false h

/-- Read a text and evaluate the expression it gives. -/
def evaluateRead [CharacterNames] (depth : Nat) (t : Text) (env : Option FrameId) : Eval Value :=
  (Value.text t).read >>= fun e ↦ evaluate depth e env

/-- The same, but with a list made of the expression before it is evaluated. -/
def evaluateListed [CharacterNames] (depth : Nat) (t : Text) (env : Option FrameId) : Eval Value :=
  (Value.text t).read >>= fun e ↦ Eval.newList [e] >>= fun _ ↦ evaluate depth e env

/-! ## Calling primitives -/

/-- A primitive goes by its own name in an environment, as an applicative. -/
def Store.Resolves (s : Store) (f : FrameId) (b : Builtin) : Prop :=
  ∃ a c, s.lookup? f b.name = some (.applicative a (.primitive c b.name (.builtin b)))

theorem Store.Resolves.of_frames_eq {s t : Store} {f : FrameId} {b : Builtin} (h : s.Resolves f b)
    (hframes : t.frames = s.frames) : t.Resolves f b := by
  obtain ⟨a, c, hlookup⟩ := h
  refine ⟨a, c, ?_⟩
  rw [lookup?_congr hframes]
  exact hlookup

namespace Eval

theorem bind_congr_run {α β : Type} {x y : Eval α} {s t : Store} (h : x s = y t) (c : α → Eval β) :
    (x >>= c) s = (y >>= c) t := by
  change EStateM.bind x c s = EStateM.bind y c t
  rw [EStateM.bind, EStateM.bind, h]

/-- The elements of a new list are those it was made of. -/
theorem newList_bind_elements {α : Type} (vs : List Value) (c : List Value → Eval α) :
    (newList vs >>= fun list ↦ elements list >>= c) = newList vs >>= fun _ ↦ c vs := by
  funext s
  have hlist :
      newList vs s = .ok (.listFrom s.nextTag vs) { s with nextTag := s.nextTag + vs.length } := rfl
  rw [bind_of_ok hlist, bind_of_ok hlist, elements, Value.elements?_listFrom]
  rfl

end Eval

section Calls

variable [CharacterNames] {s : Store} {f : FrameId} {b : Builtin}

/-- An applicative of a primitive that takes one operand evaluates it and runs the primitive on its
value. -/
theorem applyWith_primitive (ev : Evaluator) (a c y : Tag) (name : Text) (e : Value)
    (env : Option FrameId) (hone : b.arity.accepts 1 = true) :
    applyWith ev (.applicative a (.primitive c name (.builtin b))) (.pair y e .nil) env =
      ev e env >>= fun v ↦ Eval.newList [v] >>= fun _ ↦ b.run ev env [v] := by
  have hcount (v : Value) : checkCount (Procedure.builtin b).arity name [v] = pure () := by
    rw [checkCount, List.length_singleton, Procedure.arity, if_pos hone]
  simp only [applyWith, evaluateEach, bind_assoc, pure_bind]
  apply bind_congr
  intro v
  rw [Eval.newList_bind_elements]
  simp only [hcount, pure_bind, Procedure.run]

theorem evaluate_symbol (depth : Nat) {name : Text} {v : Value} (h : s.lookup? f name = some v) :
    evaluate (depth + 1) (.symbol name) (some f) s = .ok v s := by
  rw [evaluate, Environment.lookup_eq, h]

theorem evaluate_call (hb : s.Resolves f b) (hone : b.arity.accepts 1 = true) (depth : Nat)
    (x y : Tag) (e : Value) :
    evaluate (depth + 2) (.pair x (.symbol b.name) (.pair y e .nil)) (some f) s =
      (evaluate (depth + 1) e (some f) >>= fun v ↦ Eval.newList [v] >>= fun _ ↦
        b.run (evaluate (depth + 1)) (some f) [v]) s := by
  obtain ⟨a, c, hlookup⟩ := hb
  rw [evaluate, Eval.bind_of_ok (evaluate_symbol depth hlookup),
    applyWith_primitive _ _ _ _ _ _ _ hone]

/-- Evaluating the expression of the program reads the text and evaluates what was read. -/
theorem evaluate_ofDatum_reflected (heval : s.Resolves f .eval) (hread : s.Resolves f .read)
    (depth : Nat) (t : Text) (tag : Tag) :
    evaluate (depth + 3) (Value.ofDatum (.reflected t) tag).1 (some f) s =
      evaluateListed (depth + 2) t (some f) { s with nextTag := s.nextTag + 1 } := by
  -- The operand of `eval` takes a tag for the list of its own operand.
  have hinner (x y z : Tag) :
      evaluate (depth + 2) (.pair x (.symbol "read") (.pair y (.literal z t) .nil)) (some f) s =
        (Value.text t).read { s with nextTag := s.nextTag + 1 } :=
    evaluate_call hread rfl depth x y (.literal z t)
  calc
    _ = (evaluate (depth + 2) _ (some f) >>= fun v ↦ Eval.newList [v] >>= fun _ ↦
          evaluate (depth + 2) v (some f)) s := evaluate_call heval rfl (depth + 1) tag (tag + 1) _
    _ = _ := Eval.bind_congr_run (hinner (tag + 2) (tag + 3) (tag + 4)) _

end Calls

/-! ## The two evaluations -/

/-- Evaluating the program is evaluating the text, after six tags were taken, with a list made in
between. -/
theorem evaluateRead_reflected [CharacterNames] {s : Store} {f : FrameId} {t : Text}
    (heval : s.Resolves f .eval) (hread : s.Resolves f .read)
    (ht : ∀ c ∈ t, c ≠ '\x00' ∧ c.isSurrogate = false) (depth : Nat) :
    evaluateRead (depth + 3) (reflected t) (some f) s =
      evaluateListed (depth + 2) t (some f) { s with nextTag := s.nextTag + 6 } := by
  let u : Store := { s with nextTag := s.nextTag + 5 }
  have hexpression : (Value.text (reflected t)).read s =
      .ok (Value.ofDatum (.reflected t) s.nextTag).1 u := by
    rw [Value.read, readOne_reflected ht]
    rfl
  have heval' : u.Resolves f .eval := heval.of_frames_eq rfl
  have hread' : u.Resolves f .read := hread.of_frames_eq rfl
  rw [evaluateRead, Eval.bind_of_ok hexpression, evaluate_ofDatum_reflected heval' hread']

/-- On stores that are the same but for tags, evaluating a text ends in the same way whether or not
a list is made in between. -/
theorem outcomes_evaluateRead [CharacterNames] {k : Coupling} {s s' : Store} (h : s.Retagged k s')
    (depth : Nat) (t : Text) (env : Option FrameId) :
    Simulation.retagging.Outcomes k (Value.Coupled .full) (evaluateRead depth t env s)
      (evaluateListed depth t env s') := by
  let S := Simulation.retagging
  have hread := (S.readText (fun _ ↦ trivial) t).run s s' h
  rw [evaluateRead, evaluateListed]
  generalize hr : (Value.text t).read s = r, hr' : (Value.text t).read s' = r' at hread
  cases hread with
  | @ok m v v' u u' hkm hm hv =>
    have hskip : u.Retagged m { u' with nextTag := u'.nextTag + 1 } := Store.Retagged.skip hm 1
    have henv : Option.Rel m.frame env env := .refl (fun _ ↦ hskip.frame_iff.mpr rfl) env
    rw [Eval.bind_of_ok hr, Eval.bind_of_ok hr']
    exact .of_le hkm ((S.evaluate depth hv henv).run _ _ hskip)
  | error hkm hm he =>
    rw [Eval.bind_of_error hr, Eval.bind_of_error hr']
    exact .error hkm hm he

/-- Let `eval` and `read` go by their names in an environment of a store all of whose tags are
handed out, and let a text hold neither NUL nor surrogates. The program that reads and evaluates the
text, written with it as a string literal, has the same outcome in the environment as the text
itself, read and evaluated there with one level of nesting less. The stores that are left behind are
the same but for tags, where no tag that was there before is replaced, and their tags are again all
handed out. If both give values, these are the same but for such tags. Otherwise both fail by the
same failure, with the same message and position, be it that the text cannot be read or that its
evaluation fails. -/
theorem evaluate_reflected [CharacterNames] (s : Store) (f : FrameId) (t : Text) (depth : Nat)
    (hs : s.Settled) (heval : s.Resolves f .eval) (hread : s.Resolves f .read)
    (ht : ∀ c ∈ t, c ≠ '\x00' ∧ c.isSurrogate = false) :
    ∃ (m : Coupling) (u u' : Store), u.Retagged m u' ∧ (u.Settled ∧ u'.Settled) ∧
      (∀ a < s.nextTag, m.tag a a) ∧
      ((∃ v v', evaluateRead (depth + 2) t (some f) s = .ok v u ∧
          evaluateRead (depth + 3) (reflected t) (some f) s = .ok v' u' ∧ v.Coupled .full m v') ∨
        ∃ err, evaluateRead (depth + 2) t (some f) s = .error err u ∧
          evaluateRead (depth + 3) (reflected t) (some f) s = .error err u' ∧
          ∀ fault, err = .fault fault → u.fill fault.message = u'.fill fault.message) := by
  rw [evaluateRead_reflected heval hread ht]
  have hrun := outcomes_evaluateRead (hs.retagged.skip 6) (depth + 2) t (some f)
  generalize evaluateRead (depth + 2) t (some f) s = r, evaluateListed _ t (some f) _ = r' at hrun ⊢
  cases hrun with
  | @ok m v v' u u' hkm hm hv =>
    have hold : ∀ a < s.nextTag, m.tag a a := fun a ha ↦ Coupling.tag_mono hkm ⟨rfl, ha⟩
    exact ⟨m, u, u', hm, Store.Retagged.settled hm, hold, .inl ⟨v, v', rfl, rfl, hv⟩⟩
  | @error m err err' u u' hkm hm he =>
    obtain rfl := he.eq fun _ _ hf ↦ (Store.Retagged.frame_iff hm).mp hf
    have hold : ∀ a < s.nextTag, m.tag a a := fun a ha ↦ Coupling.tag_mono hkm ⟨rfl, ha⟩
    refine ⟨m, u, u', hm, Store.Retagged.settled hm, hold, .inr ⟨err, rfl, rfl, ?_⟩⟩
    intro fault _
    exact Store.Retagged.fill hm fault.message

/-- A world with `eval` and `read` alone. -/
def Store.reflective : Store where
  frames := #[⟨none, [(currentWorld, .native (.currentWorld 0)),
    ("eval", .applicative 1 (.primitive 0 "eval" (.builtin .eval))),
    ("read", .applicative 3 (.primitive 2 "read" (.builtin .read)))]⟩]
  nextTag := 4
  log := []
  shared := none

open scoped CharacterNames

/-- A comment, a line break and a string with a backslash and a quote go through a string
literal. -/
theorem evaluate_reflected_escapes :
    let s := Store.reflective
    let t : Text := "; (\n\"\\\\\\\"\""
    s.Settled ∧ s.Resolves 0 .eval ∧ s.Resolves 0 .read ∧
    (∀ c ∈ t, c ≠ '\x00' ∧ c.isSurrogate = false) ∧
    reflected t = "(eval (read \"; (\\n\\\"\\\\\\\\\\\\\\\"\\\"\"))" ∧
    (∃ u, evaluateRead 2 t (some 0) s = .ok (.text "\\\"") u) ∧
    ∃ u', evaluateRead 3 (reflected t) (some 0) s = .ok (.text "\\\"") u' := by
  intro s t
  have hs : s.Settled := by decide
  have heval : s.Resolves 0 .eval := ⟨1, 0, by decide⟩
  have hread : s.Resolves 0 .read := ⟨3, 2, by decide⟩
  have ht : ∀ c ∈ t, c ≠ '\x00' ∧ c.isSurrogate = false := by decide
  have hone : readOne t = .ok (.str "\\\"") := by decide
  have hdirect : evaluateRead 2 t (some 0) s = .ok (.text "\\\"") { s with nextTag := 5 } := by
    rw [evaluateRead, Value.read, hone]
    rfl
  refine ⟨hs, heval, hread, ht, by decide, ⟨_, hdirect⟩, ?_⟩
  obtain ⟨m, u, u', -, -, -, ⟨v, v', hv, hv', hvv⟩ | ⟨err, herr, -⟩⟩ :=
    evaluate_reflected s 0 t 0 hs heval hread ht
  · obtain ⟨rfl, -⟩ := EStateM.Result.ok.inj (hdirect.symm.trans hv)
    cases hvv
    exact ⟨u', hv'⟩
  · cases hdirect.symm.trans herr

end Fexpr
