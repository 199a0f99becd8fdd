import Fexpr.Environment

/-!
# Making combiners

Wrapping and unwrapping applicatives, primitive operatives, the formal parameters of operatives and
how a call binds its operands to them.
-/

namespace Fexpr

namespace Formals

/-- The formal of a value that has to be a symbol. -/
def symbol : Value → Except Fault Formal
  | .symbol n => .ok (.name n)
  | v => .error (.showing (.mismatch .symbol) v.render)

/-- The formals of values that have to be symbols. -/
def symbols : List Value → Except Fault (List Formal)
  | [] => .ok []
  | v :: vs => do
    let p ← symbol v
    let ps ← symbols vs
    return p :: ps

/-- The formal for the remaining operands: none for the empty list. -/
def restOf : Value → Except Fault (Option Formal)
  | .nil => .ok none
  | v => do return some (← symbol v)

/-- The parameters that the head of a formals list gives: a symbol, or a list of symbols. -/
def paramsOf : Value → Except Fault (List Formal)
  | .symbol n => .ok [.name n]
  | v =>
    match v.elements? with
    | some vs => symbols vs
    | none => .error (.showing (.mismatch .list) v.render)

/-- The formals that a value gives: the empty list, or a pair of the parameters and the rest. -/
def ofValue : Value → Except Fault Formals
  | .nil => .ok ⟨[], none⟩
  | .pair _ h t => do
    let params ← paramsOf h
    let rest ← restOf t
    return ⟨params, rest⟩
  | v => .error (.showing (.mismatch .formals) v.render)

end Formals

/-- A formal of any value: a name if it gives one. -/
def Formal.ofValue : Value → Formal
  | .symbol n | .text n => .name n
  | v => .misfit do return (← v.plain, ← v.render)

/-- The formals of any values; without a value for the rest there is none. -/
def Formals.ofValues (params : List Value) : Value → Formals
  | .absent => ⟨params.map Formal.ofValue, none⟩
  | rest => ⟨params.map Formal.ofValue, some (Formal.ofValue rest)⟩

namespace Combiner

/-- Wrap a combiner so that its operands are evaluated first. -/
def wrap (v : Value) : Eval Value := do
  if v.isCombiner then return .applicative (← Eval.freshTag) v else .mismatch .combiner v

/-- The combiner that an applicative wraps. -/
def unwrap : Value → Eval Value
  | .applicative _ u => pure u
  | v => .mismatch .applicative v

/-- The procedure that a value of the host gives, and its name. -/
def procedure? : Value → Option (Procedure × Option Text)
  | .native n => some (.native n, n.name?)
  | .integerType => some (.integerType, some "int")
  | _ => none

/-- A primitive operative of a host function; without a name of its own it takes that of the
function. -/
def primitive (fn : Value) (name : Option Text) : Eval Value := do
  match procedure? fn with
  | none => .mismatch .hostFunction fn
  | some (p, own) =>
    let chosen := match name with
      | some (c :: cs) => c :: cs
      | _ => own.getD "primitive"
    return .primitive (← Eval.freshTag) chosen p

/-- An operative. -/
def operative (formals : Formals) (body : List Value) (closure : Option FrameId) : Eval Value := do
  if body.isEmpty then .fail .emptyBody
  else
    let tag ← Eval.freshTag
    return .operative tag formals (← Eval.newList body) closure

/-- Bind an operand to a formal in a frame. -/
def bindOne (f : FrameId) (p : Formal) (v : Value) : Eval Unit :=
  match p with
  | .name n => Environment.assign f n v
  | .misfit shown => .fail (.showing (.mismatch .symbol) (shown.map Prod.snd))

/-- Bind operands to formals one by one. -/
def bindEach (f : FrameId) : List Formal → List Value → Eval Unit
  | p :: ps, v :: vs => do
    bindOne f p v
    bindEach f ps vs
  | _, _ => pure ()

/-- Bind the operands of a call in a new frame below the closure. -/
def bind (formals : Formals) (closure : Option FrameId) (operands : Value) : Eval FrameId := do
  let supplied ← Eval.elements operands
  let arity := formals.params.length
  if supplied.length < arity then .fail (.tooFew arity supplied.length)
  else if arity < supplied.length && formals.rest.isNone then
    .fail (.showing .tooMany (Value.listFrom 0 (supplied.drop arity)).render)
  else
    let f ← Environment.new closure
    bindEach f formals.params supplied
    match formals.rest with
    | none => return f
    | some r =>
      bindOne f r (← Eval.newList (supplied.drop arity))
      return f

/-- Bind operands to the formals of a value that has to be an operative. -/
def bindValue (op operands : Value) : Eval FrameId :=
  match op with
  | .operative _ formals _ closure => bind formals closure operands
  | _ => .fail .notOperative

/-- The environment that an operative closes over, if it has one. -/
def closureOf : Value → Eval (Option FrameId)
  | .operative _ _ _ closure => pure closure
  | _ => .fail .notOperative

end Combiner

end Fexpr
