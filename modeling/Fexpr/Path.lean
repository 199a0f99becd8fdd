import Fexpr.Text.CodePoint

/-!
# Paths

A path is read by dropping empty parts and parts that are a dot. It starts at the root if it opens
with a slash; exactly two opening slashes are kept apart from one.
-/

namespace Fexpr

/-- A path: the number of slashes that it opens with, at most two, and its parts. -/
structure Path where
  slashes : Nat
  parts : List Text
  deriving DecidableEq, Repr

namespace Path

/-- The pieces of a text between occurrences of a code point. -/
def split (sep : CodePoint) : Text → List Text
  | [] => [[]]
  | c :: cs =>
    if c = sep then [] :: split sep cs
    else match split sep cs with
      | piece :: pieces => (c :: piece) :: pieces
      | [] => [[c]]

/-- The path that a text stands for. -/
def ofText (t : Text) : Path :=
  let slashes := (t.takeWhile (· == .scalar '/')).length
  ⟨if slashes = 2 then 2 else min slashes 1,
    (split '/' t).filter fun p => !p.isEmpty && p != [.scalar '.']⟩

/-- The text of a path; the empty path is a dot. -/
def toText (p : Path) : Text :=
  match List.replicate p.slashes (.scalar '/') ++ List.intercalate [.scalar '/'] p.parts with
  | [] => [.scalar '.']
  | t => t

end Path

end Fexpr
