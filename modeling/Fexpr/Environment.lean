import Fexpr.Store.Printer
import Fexpr.Value.Identity
import Fexpr.Value.Kind

/-!
# Environments

An environment is a frame and the frames above it. Definitions go into the frame itself; a name that
it does not bind is looked up in its parent.
-/

namespace Fexpr.Environment

/-- A new environment. -/
def new (parent : Option FrameId) : Eval FrameId :=
  modifyGet fun s => (s.frames.size, s.newFrame parent)

/-- The frame of an environment that has to be there. -/
def frame : Option FrameId → Eval FrameId
  | some f => pure f
  | none => .fail .noFrame

/-- The name that a value stands for: a symbol or a string. -/
def nameOf : Value → Eval Text
  | .symbol n | .text n => pure n
  | v => .mismatch .symbol v

/-- The symbol of a name, which has to be a string. -/
def symbol : Value → Eval Value
  | .text n => pure (.symbol n)
  | v => .fail (.badName v.kindName)

/-- Bind a name in a frame. -/
def assign (f : FrameId) (name : Text) (v : Value) : Eval Unit := modify fun s => s.assign f name v

/-- Bind what a value names, and give back what it is bound to. -/
def define (f : FrameId) (name v : Value) : Eval Value := do
  assign f (← nameOf name) v
  return v

/-- Put an entry among others with distinct keys: one with an equal key keeps its place and its
key. -/
def mergeEntry (key v : Value) : List (Value × Value) → List (Value × Value)
  | [] => [(key, v)]
  | (k, w) :: rest =>
    if key.same k || key.equal k then (k, v) :: rest else (k, w) :: mergeEntry key v rest

/-- Entries with distinct keys: the last value for each key, in the order of the first ones. -/
def merge (entries : List (Value × Value)) : List (Value × Value) :=
  entries.foldl (fun merged e => mergeEntry e.1 e.2 merged) []

/-- Define entries in order, up to the first that names nothing. -/
def defineAll (f : FrameId) : List (Value × Value) → Eval Unit
  | [] => pure ()
  | (name, v) :: rest => do
    let _ ← define f name v
    defineAll f rest

/-- Define the entries of a dictionary. -/
def update (f : FrameId) (entries : List (Value × Value)) : Eval Unit := defineAll f (merge entries)

/-- The innermost frame that binds what a value names. -/
def find (f : FrameId) (name : Value) : Eval (Option FrameId) := do
  let n ← nameOf name
  return (← get).find? f n

/-- The value of a name. -/
def lookup (env : Option FrameId) (name : Text) : Eval Value := do
  match env with
  | none => .fail (.noEnvironment name)
  | some f =>
    match (← get).lookup? f name with
    | some v => return v
    | none => .fail (.unbound name)

/-- The value of what a value names. -/
def lookupValue (env : Option FrameId) (name : Value) : Eval Value := do
  match env with
  | none => .fail (.showing .noEnvironment name.plain)
  | some f => lookup (some f) (← nameOf name)

/-- Whether what a value names is bound; a value that names nothing is not. -/
def contains (env : Option FrameId) (name : Value) : Eval Bool := do
  match env, name with
  | none, _ => .fail .noMembers
  | some f, .symbol n | some f, .text n => return ((← get).find? f n).isSome
  | some _, _ => return false

/-- The parent of an environment, if it has one. -/
def parent (f : FrameId) : Eval (Option FrameId) := return (← get).parent? f

end Fexpr.Environment
