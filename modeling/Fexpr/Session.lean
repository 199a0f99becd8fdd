import Fexpr.Files
import Fexpr.Settings
import Fexpr.World

/-!
# Sessions

A session evaluates source texts one after another in its world. Reading is lazy: what comes before
something unreadable has been evaluated when the error is found.
-/

namespace Fexpr

/-- What evaluating a text gives: the empty list, one value, or several. -/
inductive Answer
  | value (v : Value)
  | values (vs : List Value)
  deriving DecidableEq, Repr

namespace Answer

/-- The answer for the values of a text's expressions. -/
def ofList : List Value → Answer
  | [] => value .nil
  | [v] => value v
  | vs => values vs

/-- Values in detail one by one. -/
def details : List Value → Option (List Template)
  | [] => some []
  | v :: vs => do
    let shown ← v.detail
    let others ← details vs
    return shown :: others

/-- How an answer is shown; several values are listed in detail. -/
def render : Answer → Option Template
  | value v => v.render
  | values vs => (details vs).map fun shown =>
    ("[" : Template) ++ List.intercalate (", " : Template) shown ++ ("]" : Template)

end Answer

/-- Why a session does not begin, or a step of it fails. -/
inductive SessionError
  | limit (e : LimitError)
  | failure (f : Failure)
  | file (f : FileFault)
  deriving DecidableEq, Repr

/-- A session: its world, the files it can load, its settings, and how deep its evaluations nest,
which is the host's recursion limit. -/
structure Session where
  world : FrameId
  files : Files
  settings : Settings
  depth : Nat

/-- The world that a session starts with. -/
inductive WorldChoice
  | fresh
  | shared
  | bare
  deriving DecidableEq, Repr

/-- What a session evaluates first. -/
inductive Prelude
  | none
  | files
  | source (t : Text)
  deriving DecidableEq, Repr

namespace Session

variable [CharacterNames]

/-- Evaluate the expressions of data one after another, nesting at most to `depth`. -/
def evaluateData (depth : Nat) (world : FrameId) : List Datum → Eval (List Value)
  | [] => pure []
  | d :: ds => do
    let e ← Eval.instantiate d
    let v ← evaluate depth e (some world)
    let vs ← evaluateData depth world ds
    return v :: vs

/-- Evaluate the expressions of a text one after another. -/
def evaluateText (depth : Nat) (world : FrameId) (t : Text) : Eval (List Value) := do
  let r := readAll t
  let vs ← evaluateData depth world r.data
  match r.failure with
  | some e => .fail (.unreadable e)
  | none => return vs

/-- Evaluate a text for its values. -/
def eval (depth : Nat) (world : FrameId) (t : Text) : Eval Answer :=
  return .ofList (← evaluateText depth world t)

/-- Evaluate a text for its effects. -/
def evalPrelude (depth : Nat) (world : FrameId) (t : Text) : Eval Unit := do
  let _ ← evaluateText depth world t

/-- A computation of a session. -/
abbrev Run := EStateM SessionError Store

/-- An evaluation as a computation of a session. -/
def lift {α : Type} (x : Eval α) : Run α := x.adaptExcept .failure

/-- Evaluate the file at a path. -/
def loadFile (s : Session) (p : Path) : Run Unit := do
  lift (Eval.record (.loading p.toText))
  match s.files.read p with
  | .error e => throw (.file e)
  | .ok t => lift (evalPrelude s.depth s.world t)

/-- Evaluate the files at paths in order; those that are missing are skipped. -/
def loadFiles (s : Session) : List Path → Run Unit
  | [] => pure ()
  | p :: ps => do
    if s.files.isFile p then s.loadFile p else lift (Eval.record (.skipped p.toText))
    s.loadFiles ps

/-- Evaluate the files that the settings name. -/
def loadPrelude (s : Session) : Run Unit := s.loadFiles (Settings.paths s.settings.preludePath [])

/-- The world that a choice stands for. -/
def chooseWorld : WorldChoice → Eval FrameId
  | .fresh => World.new
  | .shared => World.shared
  | .bare => Environment.new none

/-- The recursion limit that a session runs with, given the host's present one. -/
def raiseLimit (present : Nat) (settings : Settings) : Run Nat :=
  match Settings.limit present settings.recursionLimit with
  | .ok n => pure n
  | .error e => throw (.limit e)

/-- Begin a session on a host with a recursion limit. -/
def start (present : Nat) (choice : WorldChoice) (startup : Prelude) (files : Files)
    (settings : Settings) : Run Session := do
  let depth ← raiseLimit present settings
  let world ← lift (chooseWorld choice)
  let s : Session := ⟨world, files, settings, depth⟩
  match startup with
  | .none => pure ()
  | .files => s.loadPrelude
  | .source t => lift (evalPrelude depth world t)
  return s

end Session

end Fexpr
