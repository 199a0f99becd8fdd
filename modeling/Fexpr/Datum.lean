import Fexpr.Number.Double
import Fexpr.Text.CodePoint

/-!
# Data

What the reader makes of source text: atoms and pairs. Chains of pairs are lists; a chain that ends
in something else than the empty list is a dotted list.
-/

namespace Fexpr

/-- An expression as read, before anything is evaluated. -/
inductive Datum
  | nil
  | int (n : Int)
  | float (x : Double)
  | str (t : Text)
  | symbol (name : Text)
  | pair (head tail : Datum)
  deriving DecidableEq, Repr

namespace Datum

/-- The chain of pairs that holds `items` and ends in `tail`. -/
def chain (items : List Datum) (tail : Datum) : Datum := items.foldr pair tail

/-- The list of `items`. -/
def ofList (items : List Datum) : Datum := chain items nil

@[simp] theorem chain_nil (tail : Datum) : chain [] tail = tail := rfl

@[simp] theorem chain_cons (d : Datum) (items : List Datum) (tail : Datum) :
    chain (d :: items) tail = pair d (chain items tail) := rfl

@[simp] theorem ofList_nil : ofList [] = nil := rfl

@[simp] theorem ofList_cons (d : Datum) (items : List Datum) :
    ofList (d :: items) = pair d (ofList items) := rfl

end Datum

end Fexpr
