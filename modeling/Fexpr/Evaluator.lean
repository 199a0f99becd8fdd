import Fexpr.Builtin

/-!
# Evaluation

A combination evaluates its operator and applies it to the operands as written; whether and when
operands are evaluated is up to the combiner. Evaluations nest at most to a given depth.
-/

namespace Fexpr

/-- Evaluate the elements of a list from left to right; that `whole` is no proper list shows at its
end. -/
def evaluateEach (ev : Evaluator) (env : Option FrameId) (whole : Value) : Value → Eval (List Value)
  | .pair _ h t => do
    let v ← ev h env
    let vs ← evaluateEach ev env whole t
    return v :: vs
  | .nil => pure []
  | _ => .mismatch .list whole

/-- Evaluate the expressions of a body from left to right for the value of the last. -/
def evaluateBody (ev : Evaluator) (f : FrameId) : Value → Eval Value
  | .pair _ e .nil => ev e (some f)
  | .pair _ e rest => do
    let _ ← ev e (some f)
    evaluateBody ev f rest
  | _ => pure .nil

/-- Check the number of operands of a host function. -/
def checkCount (a : Arity) (name : Text) (vs : List Value) : Eval Unit :=
  if a.accepts vs.length then pure () else .fail (.cannotTake name vs.length)

variable [CharacterNames]

/-- Apply an operator to operands as written. -/
def applyWith (ev : Evaluator) : Value → Value → Option FrameId → Eval Value
  | .applicative _ u, operands, env => do
    let vs ← evaluateEach ev env operands operands
    let list ← Eval.newList vs
    applyWith ev u list env
  | .operative _ formals body closure, operands, _ => do
    let f ← Combiner.bind formals closure operands
    Eval.record (.invoking formals)
    evaluateBody ev f body
  | .primitive _ name p, operands, env => do
    let vs ← Eval.elements operands
    checkCount p.arity name vs
    p.run ev env vs
  | .native n, operands, env => do
    let vs ← Eval.elements operands
    checkCount n.arity (n.name?.getD "native") vs
    n.run env vs
  | .bareCombiner _, _, _ => .fail .notInvocable
  | v, _, _ => .fail (.showing .notCallable v.render)

/-- Evaluate an expression, nesting at most to `depth`. -/
def evaluate : (depth : Nat) → Evaluator
  | 0, _, _ => throw .tooDeep
  | depth + 1, .pair _ operator operands, env => do
    let op ← evaluate depth operator env
    applyWith (evaluate depth) op operands env
  | _ + 1, .symbol name, env => Environment.lookup env name
  | _ + 1, .literal _ t, _ => pure (.text t)
  | _ + 1, .absent, _ => pure .nil
  | _ + 1, v, _ => pure v

/-- Apply an operator, nesting evaluations at most to `depth`. -/
def apply (depth : Nat) : Value → Value → Option FrameId → Eval Value := applyWith (evaluate depth)

end Fexpr
