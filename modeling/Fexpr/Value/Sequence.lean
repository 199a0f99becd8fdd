import Fexpr.Store

/-!
# Values as sequences

Chains of pairs and strings have a head and a tail. The elements of a string are the numbers of its
code points.
-/

namespace Fexpr.Value

/-- The first element; the empty list stands in where there is none. -/
def head : Value → Eval Value
  | pair _ h _ => pure h
  | nil => pure nil
  | literal _ t | text t =>
    match t with
    | c :: _ => pure (int c.toNat)
    | [] => pure nil
  | v => .mismatch .list v

/-- What follows the first element. -/
def tail : Value → Eval Value
  | pair _ _ t => pure t
  | nil => pure nil
  | literal _ t => do return literal (← Eval.freshTag) t.tail
  | text t => pure (text t.tail)
  | v => .mismatch .list v

/-- The elements of a chain of pairs, and what the chain ends in. -/
def spine : Value → List Value × Value
  | pair _ h t => let (hs, e) := t.spine; (h :: hs, e)
  | v => ([], v)

/-- The elements of a list one after another, and the fault that comes after them if it is not a
proper list. -/
def iterate (v : Value) : List Value × Option Fault :=
  match v.spine with
  | (vs, nil) => (vs, none)
  | (vs, _) => (vs, some (.showing (.mismatch .list) v.render))

end Fexpr.Value
