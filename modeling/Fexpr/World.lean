import Fexpr.Evaluator

/-!
# Worlds

A world is a root environment that binds the primitives.
-/

namespace Fexpr.World

/-- What a world binds a name to. -/
inductive Entry
  | operative (b : Builtin)
  | applicative (b : Builtin)
  | constant (name : Text) (v : Value)
  deriving DecidableEq, Repr

/-- The name of an entry. -/
def Entry.name : Entry → Text
  | operative b | applicative b => b.name
  | constant name _ => name

/-- The value of an entry, made anew. -/
def Entry.make : Entry → Eval Value
  | operative b => do return .primitive (← Eval.freshTag) b.name (.builtin b)
  | applicative b => do
    let inner ← Eval.freshTag
    let outer ← Eval.freshTag
    return .applicative outer (.primitive inner b.name (.builtin b))
  | constant _ v => pure v

/-- The entries of a world in order. -/
def entries : List Entry :=
  [.applicative .eval, .applicative .wrap, .applicative .unwrap, .operative .define,
    .operative .vau,
   .applicative .read, .applicative .isList, .applicative .isOperative, .applicative .isApplicative,
   .applicative .isNumber, .applicative .isSymbol, .constant "nil" .nil, .applicative .head,
   .applicative .tail, .constant "#t" (.boolean true), .constant "#f" (.boolean false),
   .applicative .equals, .applicative .less]

/-- Bind entries in a frame. -/
def install (f : FrameId) : List Entry → Eval Unit
  | [] => pure ()
  | e :: es => do
    let v ← e.make
    Environment.assign f e.name v
    install f es

/-- Bind the primitives in a frame. -/
def register (f : FrameId) : Eval Unit := install f entries

/-- A new world. -/
def new : Eval FrameId := do
  let f ← Environment.new none
  register f
  return f

/-- The world that hosts share, made on first use. -/
def shared : Eval FrameId := do
  match (← get).shared with
  | some f => return f
  | none =>
    let f ← new
    modify fun s => { s with shared := some f }
    return f

end Fexpr.World
