import Fexpr.Datum
import Fexpr.Template

/-!
# Values

What evaluation works on. Pairs, string literals, combiners and environments have an identity that
programs can observe: each carries a tag of its own, and an environment is known by its frame.
Expressions are values too; `Value.ofDatum` makes the expression of a datum.
-/

namespace Fexpr

/-- The identity of a value. -/
abbrev Tag := Nat

/-- How many operands a host function takes: at least `least`, and at most `most` if that is
given. -/
structure Arity where
  least : Nat
  most : Option Nat
  deriving DecidableEq, Repr

/-- Whether a number of operands is right. -/
def Arity.accepts (a : Arity) (n : Nat) : Bool :=
  a.least ≤ n && match a.most with
    | some m => n ≤ m
    | none => true

/-- The primitives that every world is made with. -/
inductive Builtin
  | eval
  | wrap
  | unwrap
  | define
  | vau
  | read
  | isList
  | isOperative
  | isApplicative
  | isNumber
  | isSymbol
  | head
  | tail
  | equals
  | less
  deriving DecidableEq, Repr

namespace Builtin

/-- The name that a primitive is bound to and shown with. -/
def name : Builtin → Text
  | eval => "eval"
  | wrap => "wrap"
  | unwrap => "unwrap"
  | define => "$define!"
  | vau => "$vau"
  | read => "read"
  | isList => "list?"
  | isOperative => "operative?"
  | isApplicative => "applicative?"
  | isNumber => "number?"
  | isSymbol => "symbol?"
  | head => "head"
  | tail => "tail"
  | equals => "="
  | less => "<"

/-- The number of operands of a primitive. -/
def arity : Builtin → Arity
  | eval => ⟨1, some 2⟩
  | define | equals | less => ⟨2, some 2⟩
  | vau => ⟨1, none⟩
  | _ => ⟨1, some 1⟩

end Builtin

/-- What a function lent by the host does. -/
inductive Job
  /-- Gives the list of its operands. -/
  | collect
  /-- Gives its first operand. -/
  | first
  /-- Gives the environment it is called from. -/
  | caller
  /-- Gives nothing. -/
  | nothing
  /-- Gives the list of its two operands the other way round. -/
  | swap
  /-- Gives the pair of its two operands; the second may be left out and is then the empty list. -/
  | join
  deriving DecidableEq, Repr

/-- Native functions, which get their operands as written. -/
inductive Native
  /-- The boolean that selects the first of two operands, or the second. -/
  | select (first : Bool)
  /-- Gives the environment of a frame, whatever its operands. -/
  | currentWorld (frame : FrameId)
  /-- A function lent by the host; it may have no name. -/
  | host (name : Option Text) (job : Job)
  deriving DecidableEq, Repr

namespace Native

/-- The name of a native function. -/
def name? : Native → Option Text
  | select true => some "true"
  | select false => some "false"
  | currentWorld _ => some "current_world"
  | host name _ => name

/-- The number of operands of a native function. -/
def arity : Native → Arity
  | select _ => ⟨2, some 2⟩
  | currentWorld _ => ⟨0, none⟩
  | host _ .collect => ⟨0, none⟩
  | host _ .first => ⟨1, none⟩
  | host _ .caller | host _ .nothing => ⟨0, some 0⟩
  | host _ .swap => ⟨2, some 2⟩
  | host _ .join => ⟨1, some 2⟩

end Native

/-- What a primitive operative runs. -/
inductive Procedure
  | builtin (b : Builtin)
  | native (n : Native)
  /-- The host's type of integers, which would make an integer of the environment. -/
  | integerType
  deriving DecidableEq, Repr

/-- A formal parameter: a name, or something that no operand can be bound to, kept only as it is
shown alone and in messages, if it can be written at all. -/
inductive Formal
  | name (name : Text)
  | misfit (shown : Option (Template × Template))
  deriving DecidableEq, Repr

/-- The formal parameters of an operative, and the one that takes the remaining operands. -/
structure Formals where
  params : List Formal
  rest : Option Formal
  deriving DecidableEq, Repr

/-- A value, and also an expression to evaluate. -/
inductive Value
  /-- The empty list. -/
  | nil
  /-- The host's absent value. -/
  | absent
  /-- A truth value of the host. -/
  | flag (b : Bool)
  | int (n : Int)
  | float (x : Double)
  /-- A host's float that is not a number; it equals only itself. -/
  | nan (tag : Tag)
  /-- A string. -/
  | text (t : Text)
  /-- A string literal as read, which evaluates to its string. -/
  | literal (tag : Tag) (t : Text)
  | symbol (name : Text)
  | pair (tag : Tag) (head tail : Value)
  | environment (frame : FrameId)
  /-- An operative that runs a host function. -/
  | primitive (tag : Tag) (name : Text) (procedure : Procedure)
  /-- A combiner that evaluates its operands for the one it wraps. -/
  | applicative (tag : Tag) (underlying : Value)
  /-- An operative made by a program; `body` is the list of its expressions. -/
  | operative (tag : Tag) (formals : Formals) (body : Value) (closure : Option FrameId)
  | native (n : Native)
  /-- The host's type of integers, which can be called by the host only. -/
  | integerType
  /-- A combiner of no kind, which cannot be invoked. -/
  | bareCombiner (tag : Tag)
  deriving DecidableEq, Repr

namespace Value

/-- The boolean that stands for a truth value. -/
def boolean (b : Bool) : Value := native (.select b)

/-- An environment as a value, or the absent value if there is none. -/
def ofFrame : Option FrameId → Value
  | some f => environment f
  | none => absent

/-- The list of `items`, its pairs tagged from `tag` on. -/
def listFrom (tag : Tag) : List Value → Value
  | [] => nil
  | v :: vs => pair tag v (listFrom (tag + 1) vs)

/-- The elements of a proper list. -/
def elements? : Value → Option (List Value)
  | nil => some []
  | pair _ h t => t.elements?.map (h :: ·)
  | _ => none

/-- The expression of a datum, tagged from `tag` on, and the next tag that is free. -/
def ofDatum : Datum → Tag → Value × Tag
  | .nil, tag => (nil, tag)
  | .int n, tag => (int n, tag)
  | .float x, tag => (float x, tag)
  | .str t, tag => (literal tag t, tag + 1)
  | .symbol s, tag => (symbol s, tag)
  | .pair h t, tag =>
    let (h, next) := ofDatum h (tag + 1)
    let (t, next) := ofDatum t next
    (pair tag h t, next)

@[simp] theorem elements?_nil : nil.elements? = some [] := rfl

@[simp] theorem elements?_pair (tag : Tag) (h t : Value) :
    (pair tag h t).elements? = t.elements?.map (h :: ·) := rfl

@[simp] theorem elements?_listFrom (tag : Tag) (vs : List Value) :
    (listFrom tag vs).elements? = some vs := by
  induction vs generalizing tag with
  | nil => rfl
  | cons v vs ih => simp [listFrom, ih]

end Value

end Fexpr
