import Fexpr.Proofs.Evaluator.Policy

/-!
# Watching an evaluation

A `Watched` computation is a computation together with the invocations of primitive operatives that
are completed while it runs, in the order in which they are completed. This file goes through the
evaluator and notes each invocation when it has given its value. What is done meanwhile is taken
from the evaluator itself, with no evaluation inside it left unwatched: `run_evaluate` says that
watching changes nothing.
-/

namespace Fexpr

/-- A completed invocation of a primitive operative: what was run, and on which operands. -/
structure Completion where
  procedure : Procedure
  operands : List Value
  deriving DecidableEq, Repr

/-- A computation, and the invocations that it completes when it starts on a given store, in
order. -/
@[ext]
structure Watched (α : Type) where
  run : Eval α
  completed : Store → List Completion

/-- A watched evaluator of expressions in an environment. -/
abbrev Watcher := Value → Option FrameId → Watched Value

/-- The evaluator that is watched. -/
def Watcher.erase (ev : Watcher) : Evaluator := fun e env ↦ (ev e env).run

namespace Watched

variable {α β : Type}

/-- What comes after a computation that fails is not run, so that it completes nothing. -/
instance : Monad Watched where
  pure a := ⟨pure a, fun _ ↦ []⟩
  bind x k :=
    ⟨x.run >>= fun a ↦ (k a).run, fun s ↦ x.completed s ++
      match x.run s with
      | .ok a t => (k a).completed t
      | .error _ _ => []⟩

@[simp] theorem run_pure (a : α) : (pure a : Watched α).run = pure a := rfl

@[simp] theorem run_bind (x : Watched α) (k : α → Watched β) :
    (x >>= k).run = x.run >>= fun a ↦ (k a).run := rfl

theorem completed_bind (x : Watched α) (k : α → Watched β) (s : Store) :
    (x >>= k).completed s = x.completed s ++
      match x.run s with
      | .ok a t => (k a).completed t
      | .error _ _ => [] := rfl

theorem bind_assoc {γ : Type} (x : Watched α) (k : α → Watched β) (l : β → Watched γ) :
    x >>= k >>= l = x >>= fun a ↦ k a >>= l := by
  apply Watched.ext
  · exact LawfulMonad.bind_assoc _ _ _
  · funext s
    simp only [completed_bind, run_bind]
    cases hr : x.run s with
    | ok a t => simp [Eval.bind_of_ok hr]
    | error e t => simp [Eval.bind_of_error hr]

/-- A computation that invokes nothing. -/
def quiet (x : Eval α) : Watched α := ⟨x, fun _ ↦ []⟩

/-- Note that an invocation is complete. -/
def note (c : Completion) : Watched Unit := ⟨pure (), fun _ ↦ [c]⟩

@[simp] theorem run_quiet (x : Eval α) : (quiet x).run = x := rfl

@[simp] theorem run_note (c : Completion) : (note c).run = pure () := rfl

/-! ## The evaluator, watched -/

/-- Evaluate the elements of a list. -/
def evaluateEach (ev : Watcher) (env : Option FrameId) (whole : Value) :
    Value → Watched (List Value)
  | .pair _ h t => do
    let v ← ev h env
    let vs ← evaluateEach ev env whole t
    return v :: vs
  | .nil => pure []
  | _ => quiet (.mismatch .list whole)

/-- Evaluate the expressions of a body. -/
def evaluateBody (ev : Watcher) (f : FrameId) : Value → Watched Value
  | .pair _ e .nil => ev e (some f)
  | .pair _ e rest => do
    let _ ← ev e (some f)
    evaluateBody ev f rest
  | _ => pure .nil

/-- Evaluate what a name is to be bound to, and bind it. -/
def runDefine (ev : Watcher) (env : Option FrameId) (name e : Value) : Watched Value :=
  match name with
  | .symbol n => do
    let v ← ev e env
    quiet do
      let f ← Environment.frame env
      Environment.assign f n v
      Eval.record (.defined n)
      return v
  | _ => quiet (.mismatch .symbol name)

/-- Run a primitive. The primitives that evaluate nothing may as well be given an evaluator that
cannot. -/
def runBuiltin [CharacterNames] (ev : Watcher) (env : Option FrameId) :
    Builtin → List Value → Watched Value
  | .eval, [e] => ev e env
  | .eval, [e, .absent] => ev e env
  | .eval, [e, .environment f] => ev e (some f)
  | .define, [name, e] => runDefine ev env name e
  | b, vs => quiet (b.run (Fexpr.evaluate 0) env vs)

/-- Run a procedure. -/
def runProcedure [CharacterNames] (ev : Watcher) (env : Option FrameId) :
    Procedure → List Value → Watched Value
  | .builtin b, vs => runBuiltin ev env b vs
  | p, vs => quiet (p.run (Fexpr.evaluate 0) env vs)

/-- Apply an operator. An invocation of a primitive operative is complete when it has given its
value. -/
def applyWith [CharacterNames] (ev : Watcher) : Value → Value → Option FrameId → Watched Value
  | .applicative _ u, operands, env => do
    let vs ← evaluateEach ev env operands operands
    let list ← quiet (Eval.newList vs)
    applyWith ev u list env
  | .operative _ formals body closure, operands, _ => do
    let f ← quiet (Combiner.bind formals closure operands)
    quiet (Eval.record (.invoking formals))
    evaluateBody ev f body
  | .primitive _ name p, operands, env => do
    let vs ← quiet (Eval.elements operands)
    quiet (checkCount p.arity name vs)
    let v ← runProcedure ev env p vs
    note ⟨p, vs⟩
    return v
  | v, operands, env => quiet (apply 0 v operands env)

/-- Evaluate an expression. Only combinations have expressions inside that are evaluated. -/
def evaluate [CharacterNames] : (depth : Nat) → Watcher
  | 0, e, env => quiet (Fexpr.evaluate 0 e env)
  | depth + 1, .pair _ operator operands, env => do
    let op ← evaluate depth operator env
    applyWith (evaluate depth) op operands env
  | _ + 1, e, env => quiet (Fexpr.evaluate 1 e env)

/-! ## Watching changes nothing -/

variable {ev : Watcher} {env : Option FrameId}

theorem run_evaluateEach (whole v : Value) :
    (evaluateEach ev env whole v).run = Fexpr.evaluateEach ev.erase env whole v := by
  induction v with
  | pair tag h t _ iht =>
    simp only [evaluateEach, Fexpr.evaluateEach, run_bind, run_pure, iht]
    rfl
  | _ => rfl

theorem run_evaluateBody (f : FrameId) (v : Value) :
    (evaluateBody ev f v).run = Fexpr.evaluateBody ev.erase f v := by
  induction v with
  | pair tag e rest _ ih =>
    cases rest with
    | pair tag h t =>
      change ((ev e (some f)).run >>= fun _ ↦ (evaluateBody ev f (.pair tag h t)).run) = _
      rw [ih]
      rfl
    | _ => rfl
  | _ => rfl

theorem run_runDefine (name e : Value) :
    (runDefine ev env name e).run = Builtin.runDefine ev.erase env name e := by
  cases name <;> rfl

theorem run_runBuiltin [CharacterNames] (b : Builtin) (vs : List Value) :
    (runBuiltin ev env b vs).run = b.run ev.erase env vs := by
  rcases vs with _ | ⟨v, _ | ⟨w, _ | ⟨u, us⟩⟩⟩
  case nil => cases b <;> rfl
  case cons.nil => cases b <;> rfl
  all_goals cases b
  case cons.cons.nil.define => exact run_runDefine v w
  case cons.cons.nil.eval => cases w <;> rfl
  case cons.cons.cons.eval => cases w <;> rfl
  all_goals rfl

theorem run_runProcedure [CharacterNames] (p : Procedure) (vs : List Value) :
    (runProcedure ev env p vs).run = p.run ev.erase env vs := by
  cases p with
  | builtin b => exact run_runBuiltin b vs
  | _ => rfl

theorem run_applyWith [CharacterNames] (op operands : Value) :
    (applyWith ev op operands env).run = Fexpr.applyWith ev.erase op operands env := by
  induction op generalizing operands with
  | applicative tag u ih =>
    simp only [applyWith, Fexpr.applyWith, run_bind, run_quiet, run_evaluateEach, ih]
  | operative tag formals body closure _ =>
    simp only [applyWith, Fexpr.applyWith, run_bind, run_quiet, run_evaluateBody]
  | primitive tag name p =>
    simp only [applyWith, Fexpr.applyWith, run_bind, run_quiet, run_note, run_pure,
      run_runProcedure]
    simp
  | _ => rfl

/-- A watched evaluation does what the evaluation does. -/
theorem run_evaluate [CharacterNames] (depth : Nat) (e : Value) (env : Option FrameId) :
    (evaluate depth e env).run = Fexpr.evaluate depth e env := by
  induction depth generalizing e env with
  | zero => rfl
  | succ depth ih =>
    have herase : (evaluate depth).erase = Fexpr.evaluate depth := by
      funext e env
      exact ih e env
    cases e with
    | pair tag operator operands =>
      simp only [evaluate, Fexpr.evaluate, run_bind, run_applyWith, ih, herase]
    | _ => rfl

end Watched

end Fexpr
