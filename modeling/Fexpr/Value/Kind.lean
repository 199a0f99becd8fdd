import Fexpr.Value

/-! # Kinds of values -/

namespace Fexpr.Value

def isSymbol : Value → Bool
  | symbol _ => true
  | _ => false

/-- Strings and string literals. -/
def isString : Value → Bool
  | text _ | literal _ _ => true
  | _ => false

/-- Chains of pairs, the empty list included. -/
def isPair : Value → Bool
  | nil | pair _ _ _ => true
  | _ => false

/-- Whatever has a head and a tail: chains of pairs and strings. -/
def isList (v : Value) : Bool := v.isPair || v.isString

/-- Lists that are combinations when evaluated. -/
def isCombination : Value → Bool
  | pair _ _ _ => true
  | _ => false

def isNumber : Value → Bool
  | int _ | float _ | nan _ => true
  | _ => false

def isNative : Value → Bool
  | native _ => true
  | _ => false

def isApplicative : Value → Bool
  | applicative _ _ => true
  | _ => false

def isOperative : Value → Bool
  | primitive _ _ _ | operative _ _ _ _ | native _ => true
  | _ => false

def isCombiner : Value → Bool
  | primitive _ _ _ | applicative _ _ | operative _ _ _ _ | bareCombiner _ | native _ => true
  | _ => false

def isEnvironment : Value → Bool
  | environment _ => true
  | _ => false

/-- The host's word for the kind of a value. -/
def kindName : Value → Text
  | nil => "NilType"
  | absent => "NoneType"
  | flag _ => "bool"
  | int _ => "int"
  | float _ | nan _ => "float"
  | text _ => "str"
  | literal _ _ => "Str"
  | symbol _ => "Symbol"
  | pair _ _ _ => "Pair"
  | environment _ => "Environment"
  | primitive _ _ _ => "PrimitiveOperative"
  | applicative _ _ => "Applicative"
  | operative _ _ _ _ => "CompoundOperative"
  | native _ => "function"
  | integerType => "type"
  | bareCombiner _ => "Combiner"

end Fexpr.Value
