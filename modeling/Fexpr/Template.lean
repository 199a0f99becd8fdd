import Fexpr.Text.CodePoint

/-!
# Texts that show environments

An environment is shown by the names it binds, which may become more after a text that shows it is
made. A template is such a text: code points, and places that stand for the names an environment
binds when the text is wanted.
-/

namespace Fexpr

/-- The place of a frame in the store. -/
abbrev FrameId := Nat

/-- A piece of a template. -/
inductive Piece
  | point (c : CodePoint)
  /-- The environment of a frame, shown by that frame. -/
  | frame (f : FrameId)
  /-- The environment of a frame, shown by that frame and all above it. -/
  | chain (f : FrameId)
  deriving DecidableEq, Repr

/-- A text with places for environments. -/
abbrev Template := List Piece

namespace Template

/-- A text without such places. -/
def ofText (t : Text) : Template := t.map .point

instance : Coe Text Template := ⟨ofText⟩

instance : Coe String Template := ⟨fun s => ofText (.ofString s)⟩

/-- The text of a template, given how the environments are shown. -/
def fill (frame chain : FrameId → Text) (t : Template) : Text :=
  t.flatMap fun
    | .point c => [c]
    | .frame f => frame f
    | .chain f => chain f

@[simp] theorem ofText_nil : ofText [] = [] := rfl

@[simp] theorem ofText_cons (c : CodePoint) (t : Text) :
    ofText (c :: t) = .point c :: ofText t := rfl

@[simp] theorem ofText_append (t u : Text) :
    ofText (t ++ u) = ofText t ++ ofText u := by simp [ofText]

@[simp] theorem fill_append (frame chain : FrameId → Text) (t u : Template) :
    fill frame chain (t ++ u) = fill frame chain t ++ fill frame chain u := by
  simp [fill]

/-- A text without places for environments is shown as it is. -/
@[simp] theorem fill_ofText (frame chain : FrameId → Text) (t : Text) :
    fill frame chain (ofText t) = t := by
  induction t with
  | nil => rfl
  | cons c t ih => simpa [fill] using ih

end Template

end Fexpr
