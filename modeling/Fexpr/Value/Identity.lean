import Fexpr.Value

/-!
# Identity and equality

Two values are the *same* when nothing tells them apart: atoms by what they are, all else by their
tags. Programs compare by `identical`, which also equates numbers of one size. `equal` is the host's
equality, which looks into pairs and string literals.
-/

namespace Fexpr.Value

/-- Whether two values are one and the same. -/
def same : Value → Value → Bool
  | nil, nil => true
  | absent, absent => true
  | flag a, flag b => a == b
  | int a, int b => a == b
  | float a, float b => a == b
  | nan a, nan b => a == b
  | text a, text b => a == b
  | literal a _, literal b _ => a == b
  | symbol a, symbol b => a == b
  | pair a _ _, pair b _ _ => a == b
  | environment a, environment b => a == b
  | primitive a _ _, primitive b _ _ => a == b
  | applicative a _, applicative b _ => a == b
  | operative a _ _ _, operative b _ _ _ => a == b
  | native a, native b => a == b
  | integerType, integerType => true
  | bareCombiner a, bareCombiner b => a == b
  | _, _ => false

/-- The number that an integer or a float is. -/
def size? : Value → Option Extended
  | int n => some (.ofInt n)
  | float x => some x.toExtended
  | _ => none

/-- The number that the host takes a value for: truth values count as one and zero. -/
def hostSize? : Value → Option Extended
  | flag b => some (.ofInt (if b then 1 else 0))
  | v => v.size?

/-- Whether two values are the same or numbers of one size. -/
def identical (a b : Value) : Bool :=
  a.same b || match a.size?, b.size? with
    | some x, some y => x.same y
    | _, _ => false

/-- Whether the first of two numbers is the smaller one. -/
def less (a b : Value) : Bool :=
  match a.size?, b.size? with
  | some x, some y => x.less y
  | _, _ => false

/-- The host's equality. Inside pairs the same value counts as equal to itself, also if it is not a
number. -/
def equal : Value → Value → Bool
  | pair _ h t, pair _ h' t' => (h.same h' || h.equal h') && (t.same t' || t.equal t')
  | literal _ s, literal _ t => s == t
  | nan _, _ => false
  | _, nan _ => false
  | a, b =>
    match a.hostSize?, b.hostSize? with
    | some x, some y => x.same y
    | _, _ => a.same b

/-- Whether a deep copy by the host equals the value: it makes new environments and combiners, which
equal nothing else, and keeps numbers and functions that have a name. -/
def equalsCopy : Value → Bool
  | pair _ h t => h.equalsCopy && t.equalsCopy
  | environment _ | primitive _ _ _ | applicative _ _ | operative _ _ _ _ | bareCombiner _ => false
  | native (.host none _) => false
  | _ => true

/-- Whether the host, asked for a deep copy, gives back the same value: it copies pairs and string
literals. -/
def copiesToSelf : Value → Bool
  | pair _ _ _ | literal _ _ => false
  | v => v.equalsCopy

end Fexpr.Value
