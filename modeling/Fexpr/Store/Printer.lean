import Fexpr.Store

/-!
# Showing environments

An environment is shown by the names that its frames bind, and a template by what the store has for
the environments in it.
-/

namespace Fexpr.Store

/-- The names that a frame binds, in the order of their first definition, without
`current-world`. -/
def names (s : Store) (f : FrameId) : List Text :=
  ((s.bindings f).map Prod.fst).filter (· != currentWorld)

/-- The names of one frame between braces. -/
def frameText (s : Store) (f : FrameId) : Text :=
  .scalar '\x7b' :: (List.intercalate (", " : Text) (s.names f) ++ [.scalar '\x7d'])

/-- An environment shown by its innermost frame. -/
def plainEnvironment (s : Store) (f : FrameId) : Text :=
  s.frameText f ++ if (s.parent? f).isSome then (" -> ..." : Text) else []

/-- An environment shown by all its frames. -/
def detailEnvironment (s : Store) (f : FrameId) : Text :=
  ("<Environment chain: " : Text) ++
    List.intercalate (" -> " : Text) ((s.chain f).map s.frameText) ++
    (">" : Text)

/-- The text of a template at present. -/
def fill (s : Store) (t : Template) : Text := t.fill s.plainEnvironment s.detailEnvironment

@[simp] theorem fill_ofText (s : Store) (t : Text) : s.fill (.ofText t) = t := by simp [fill]

@[simp] theorem fill_append (s : Store) (t u : Template) :
    s.fill (t ++ u) = s.fill t ++ s.fill u := by
  simp [fill]

end Fexpr.Store
