import Fexpr.Datum.Printer
import Fexpr.Text.Digit
import Fexpr.Text.Quoted
import Fexpr.Value

/-!
# Showing values

The external representation of a value is concrete syntax where it has one, and a description in
`#[` and `]` where it has none. The host shows a value in two more ways: in detail, as in a list of
results, and plainly, as a name in a message. These show the names that an environment binds. A
value with an integer that has too many digits cannot be shown in any way.
-/

namespace Fexpr

/-- A formal parameter shown alone. -/
def Formal.plain : Formal → Option Template
  | name n => some n
  | misfit shown => shown.map Prod.fst

namespace Formals

/-- The parameters shown one by one. -/
def writeParams : List Formal → Option (List Template)
  | [] => some []
  | p :: ps => do
    let shown ← p.plain
    let others ← writeParams ps
    return shown :: others

/-- The formal for the remaining operands, if there is one. -/
def writeRest : Option Formal → Option Template
  | some r => r.plain.map ((" . " : Template) ++ ·)
  | none => some []

/-- How an operative with these formal parameters is shown; its body is not. -/
def render (f : Formals) : Option Template := do
  let params ← writeParams f.params
  let rest ← writeRest f.rest
  return ("($vau (" : Template) ++ List.intercalate (" " : Template) params ++ (")" : Template) ++
    rest ++ (" ...)" : Template)

/-- An operative with these formal parameters as a value. -/
def operative (f : Formals) : Option Template :=
  f.render.map fun shown => ("#[operative " : Template) ++ shown ++ ("]" : Template)

end Formals

namespace Native

/-- A native function as a value. -/
def render (n : Native) : Text := ("#[native " : Text) ++ n.name?.getD "function" ++ ("]" : Text)

/-- A native function as the host shows it. -/
def detail : Native → Text
  | currentWorld _ => "<function Environment.__init__.<locals>.current_world>"
  | host none _ => "<opaque>"
  | n => ("<function " : Text) ++ n.name?.getD [] ++ (">" : Text)

end Native

namespace Value

/-- What is shown of a value that is not a list, written by itself or as the tail of a list. -/
def atom (inTail : Bool) (t : Template) : Template :=
  if inTail then (" . " : Template) ++ t ++ (")" : Template) else t

/-- Write a value, or with `inTail` what follows the first element of the list whose tail it is;
none if it cannot be written. -/
def write : Value → Bool → Option Template
  | pair _ h t, inTail => do
    let first ← h.write false
    let others ← t.write true
    return (if inTail then (" " : Template) else ("(" : Template)) ++ (first ++ others)
  | nil, inTail => some (if inTail then (")" : Template) else ("()" : Template))
  | absent, inTail => some (atom inTail "()")
  | flag b, inTail => some (atom inTail (if b then ("True" : Template) else ("False" : Template)))
  | int n, inTail => (Text.ofInt? n).map fun t => atom inTail (.ofText t)
  | float x, inTail => some (atom inTail x.toText)
  | nan _, inTail => some (atom inTail "nan")
  | text t, inTail => some (atom inTail (Datum.quoted t))
  | literal _ t, inTail => some (atom inTail (Datum.quoted t))
  | symbol s, inTail => some (atom inTail s)
  | environment _, inTail => some (atom inTail "#[environment]")
  | primitive _ name _, inTail =>
    some (atom inTail (("#[operative " : Text) ++ name ++ ("]" : Text)))
  | applicative _ (native n), inTail =>
    some (atom inTail (("#[applicative " : Text) ++ n.detail ++ ("]" : Text)))
  | applicative _ u, inTail => (u.write false).map fun shown =>
    atom inTail (("#[applicative " : Template) ++ shown ++ ("]" : Template))
  | operative _ formals _ _, inTail => formals.operative.map (atom inTail)
  | native n, inTail => some (atom inTail n.render)
  | integerType, inTail => some (atom inTail "#[native int]")
  | bareCombiner _, inTail => some (atom inTail "<vau.types.combiner.Combiner object>")

/-- The external representation of a value. -/
def render (v : Value) : Option Template := v.write false

/-- A value in detail. -/
def detail : Value → Option Template
  | absent => some "None"
  | text t => some (Quoted.quote t)
  | literal _ t => some (("Str(" : Text) ++ Quoted.quote t ++ (")" : Text))
  | symbol name => some (("Symbol(" : Text) ++ Quoted.quote name ++ (")" : Text))
  | environment f => some [.chain f]
  | native n => some n.detail
  | integerType => some "<class 'int'>"
  | v => v.render

/-- A value plainly. -/
def plain : Value → Option Template
  | text t => some t
  | symbol name => some name
  | environment f => some [.frame f]
  | operative _ formals _ _ => formals.render
  | v => v.detail

end Value

end Fexpr
