import Fexpr.Combiner
import Fexpr.Token.Stream
import Fexpr.Value.Sequence

/-!
# Host functions

What the primitives and the native functions do with their operands. Primitives that evaluate are
given the evaluator.
-/

namespace Fexpr

/-- An evaluator of expressions in an environment. -/
abbrev Evaluator := Value → Option FrameId → Eval Value

variable [CharacterNames]

namespace Value

/-- Read one expression from a string. -/
def read : Value → Eval Value
  | literal _ t | text t =>
    match readOne t with
    | .ok d => Eval.instantiate d
    | .error e => .fail (.unreadable e)
  | v => .mismatch .string v

end Value

namespace Builtin

/-- Bind a name in the caller's frame to the value of an expression. -/
def runDefine (ev : Evaluator) (env : Option FrameId) (name e : Value) : Eval Value := do
  match name with
  | .symbol n =>
    let v ← ev e env
    let f ← Environment.frame env
    Environment.assign f n v
    Eval.record (.defined n)
    return v
  | _ => .mismatch .symbol name

/-- Make an operative that closes over a new child of the caller's environment. -/
def runVau (env : Option FrameId) (formals : Value) (body : List Value) : Eval Value := do
  match Formals.ofValue formals with
  | .error e => .fail e
  | .ok formals =>
    if body.isEmpty then .fail .emptyBody
    else
      let closure ← Environment.new env
      let op ← Combiner.operative formals body (some closure)
      Eval.record (.constructed formals)
      return op

/-- Compare two numbers. -/
def runLess (a b : Value) : Eval Value := do
  if !a.isNumber then .mismatch .number a
  else if !b.isNumber then .mismatch .number b
  else return .boolean (a.less b)

/-- Run a primitive on its operands. -/
def run (ev : Evaluator) (env : Option FrameId) : Builtin → List Value → Eval Value
  | eval, [e] => ev e env
  | eval, [e, .absent] => ev e env
  | eval, [e, .environment f] => ev e (some f)
  | eval, [_, v] => .mismatch .environment v
  | wrap, [v] => Combiner.wrap v
  | unwrap, [v] => Combiner.unwrap v
  | define, [name, e] => runDefine ev env name e
  | vau, formals :: body => runVau env formals body
  | read, [v] => v.read
  | isList, [v] => pure (.boolean v.isList)
  | isOperative, [v] => pure (.boolean v.isOperative)
  | isApplicative, [v] => pure (.boolean v.isApplicative)
  | isNumber, [v] => pure (.boolean v.isNumber)
  | isSymbol, [v] => pure (.boolean v.isSymbol)
  | head, [v] => v.head
  | tail, [v] => v.tail
  | equals, [a, b] => pure (.boolean (a.identical b))
  | less, [a, b] => runLess a b
  | b, vs => .fail (.cannotTake b.name vs.length)

end Builtin

/-- Run a native function on its operands. -/
def Native.run (env : Option FrameId) : Native → List Value → Eval Value
  | select first, [a, b] => pure (if first then a else b)
  | currentWorld f, _ => pure (.environment f)
  | host _ .collect, vs => Eval.newList vs
  | host _ .first, v :: _ => pure v
  | host _ .caller, [] => pure (.ofFrame env)
  | host _ .nothing, [] => pure .absent
  | host _ .swap, [a, b] => Eval.newList [b, a]
  | host _ .join, [a] => do return .pair (← Eval.freshTag) a .nil
  | host _ .join, [a, b] => do return .pair (← Eval.freshTag) a b
  | n, vs => .fail (.cannotTake (n.name?.getD "native") vs.length)

namespace Procedure

/-- The number of operands of a procedure. -/
def arity : Procedure → Arity
  | builtin b => b.arity
  | native n => n.arity
  | integerType => ⟨0, none⟩

/-- Make an integer of the environment, which cannot be; an operand is the base to read it in, and
is looked at first. -/
def runInteger : List Value → Eval Value
  | [.int n] => .fail (if n = 0 ∨ 2 ≤ n ∧ n ≤ 36 then .notInteger else .badBase)
  | [.flag true] => .fail .badBase
  | _ => .fail .notInteger

/-- Run a procedure on its operands. -/
def run (ev : Evaluator) (env : Option FrameId) : Procedure → List Value → Eval Value
  | builtin b, vs => b.run ev env vs
  | native n, vs => n.run env vs
  | integerType, vs => runInteger vs

end Procedure

end Fexpr
