import Fexpr.ReadError
import Fexpr.Template

/-!
# Faults

Why an evaluation or another operation on values stops. A fault keeps what its message shows of the
values involved, not the values. Where that cannot be written, its place is taken by another fault.
-/

namespace Fexpr

/-- What a value was expected to be. -/
inductive Expected
  | symbol
  | list
  | formals
  | environment
  | string
  | number
  | combiner
  | applicative
  | hostFunction
  deriving DecidableEq, Repr

/-- The words for what was expected. -/
def Expected.words : Expected → Text
  | symbol => "symbol"
  | list => "list"
  | formals => "formals list"
  | environment => "environment"
  | string => "string"
  | number => "number"
  | combiner => "combiner"
  | applicative => "applicative"
  | hostFunction => "host function"

/-- The causes of failure. -/
inductive Fault
  /-- A value does not have the shape it should have. -/
  | mismatch (expected : Expected) (got : Template)
  /-- A name is bound nowhere in the environment. -/
  | unbound (name : Text)
  /-- A name is looked up without an environment. -/
  | noEnvironment (wanted : Template)
  /-- The operator of a combination is not a combiner. -/
  | notCallable (got : Template)
  /-- A host function is given a wrong number of operands. -/
  | cannotTake (name : Text) (count : Nat)
  /-- An operative is given too few operands. -/
  | tooFew (wanted got : Nat)
  /-- An operative is given more operands than it has formals for. -/
  | tooMany (surplus : Template)
  /-- An operative is made without a body. -/
  | emptyBody
  /-- Text cannot be read. -/
  | unreadable (e : ReadError)
  /-- A definition is made, or a frame asked for, without an environment. -/
  | noFrame
  /-- Whether a name is bound is asked without an environment. -/
  | noMembers
  /-- Something that only operatives have is asked of another value. -/
  | notOperative
  /-- A combiner of no kind is invoked. -/
  | notInvocable
  /-- An integer is to be made of an environment. -/
  | notInteger
  /-- An integer is to be read in a base that there is not. -/
  | badBase
  /-- A symbol is made of something that is not a string. -/
  | badName (kind : Text)
  /-- A message is to show an integer that has too many digits. -/
  | unwritable
  deriving DecidableEq, Repr

/-- The fault whose message shows a value, given what is shown of the value if it can be written. -/
def Fault.showing (fault : Template → Fault) : Option Template → Fault
  | some shown => fault shown
  | none => unwritable

/-- The message of a fault. -/
def Fault.message : Fault → Template
  | mismatch expected got =>
    ("expected a " : Template) ++ (expected.words : Template) ++ (", got " : Template) ++ got
  | unbound name => ("Undefined variable \"" : Text) ++ name ++ ("\"" : Text)
  | noEnvironment wanted =>
    ("No environment provided to look-up for \"" : Template) ++ wanted ++ ("\"" : Template)
  | notCallable got =>
    ("Attempting to call a non-callable \"" : Template) ++ got ++ ("\"" : Template)
  | cannotTake name count =>
    name ++ (" cannot take " : Text) ++ Text.ofNat count ++ (" operands" : Text)
  | tooFew wanted got =>
    ("Operative expected " : Text) ++ Text.ofNat wanted ++ (" operands, got " : Text) ++
      Text.ofNat got
  | tooMany surplus => ("Too many operands: " : Template) ++ surplus
  | emptyBody => "$vau requires at least one body expression"
  | unreadable e => e.message
  | noFrame => "no environment to work on"
  | noMembers => "no environment to ask"
  | notOperative => "not an operative"
  | notInvocable => "a combiner of no kind cannot be invoked"
  | notInteger => "an environment is not an integer"
  | badBase => "int() base must be >= 2 and <= 36, or 0"
  | badName kind => ("symbol name must be a str, got " : Text) ++ kind
  | unwritable => Digit.exceeded []

/-- The ways an evaluation ends without a value: by a fault, or nested too deeply. -/
inductive Failure
  | fault (f : Fault)
  | tooDeep
  deriving DecidableEq, Repr

end Fexpr
