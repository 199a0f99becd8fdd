import Fexpr.Fault
import Fexpr.Value.Printer

/-!
# The store

The store holds the frames of all environments, hands out tags, and keeps the log. A frame binds
names to values in the order in which they were first defined and may have a parent. Each frame
starts with `current-world` bound to the native function that gives its environment.
-/

namespace Fexpr

/-- Names with their values, in the order of their first definition. -/
abbrev Bindings := List (Text × Value)

/-- Bind a name: in its place if it is bound already, else at the end. -/
def Bindings.assign (name : Text) (v : Value) : Bindings → Bindings
  | [] => [(name, v)]
  | (n, w) :: rest => if n = name then (n, v) :: rest else (n, w) :: Bindings.assign name v rest

/-- Binding a name changes what is found under that name and nothing else. -/
theorem Bindings.lookup_assign (name other : Text) (v : Value) (bs : Bindings) :
    (Bindings.assign name v bs).lookup other =
      if other = name then some v else bs.lookup other := by
  induction bs with
  | nil =>
    by_cases h : other = name <;>
      simp [Bindings.assign, List.lookup_cons, beq_eq_false_iff_ne.mpr, h]
  | cons b rest ih =>
    obtain ⟨n, w⟩ := b
    by_cases hn : n = name
    · subst hn
      by_cases h : other = n <;>
        simp [Bindings.assign, List.lookup_cons, beq_eq_false_iff_ne.mpr, h]
    · by_cases h : other = n
      · subst h
        simp [Bindings.assign, hn]
      · have hb : (other == n) = false := beq_eq_false_iff_ne.mpr h
        simp [Bindings.assign, List.lookup_cons, hn, hb, ih]

/-- A frame of bindings. -/
structure Frame where
  parent : Option FrameId
  bindings : Bindings
  deriving DecidableEq, Repr

/-- What is worth a line in the log. -/
inductive Record
  /-- A name was defined by `$define!`. -/
  | defined (name : Text)
  /-- An operative was made. -/
  | constructed (formals : Formals)
  /-- An operative was invoked. -/
  | invoking (formals : Formals)
  /-- A file is being loaded. -/
  | loading (path : Text)
  /-- A prelude file is missing. -/
  | skipped (path : Text)
  deriving DecidableEq, Repr

/-- How much a record matters. -/
inductive Level
  | debug
  | info
  | warning
  deriving DecidableEq, Repr

/-- The level of a record. -/
def Record.level : Record → Level
  | defined _ | constructed _ | invoking _ => .debug
  | loading _ => .info
  | skipped _ => .warning

/-- The message of a record; operatives are shown by their formals. -/
def Record.message : Record → Option Template
  | defined name => some (("defined " : Text) ++ name)
  | constructed formals => formals.operative.map (("constructed " : Template) ++ ·)
  | invoking formals => formals.operative.map (("invoking " : Template) ++ ·)
  | loading path => some (("loading " : Text) ++ path)
  | skipped path => some (("prelude file " : Text) ++ path ++ (" not found, skipping" : Text))

/-- The state of all environments. The log has the latest record first; `shared` is the root
environment that hosts share, once it is made. -/
structure Store where
  frames : Array Frame
  nextTag : Tag
  log : List Record
  shared : Option FrameId
  deriving DecidableEq, Repr

/-- The name that every frame binds to a native function that gives its environment. -/
def currentWorld : Text := "current-world"

namespace Store

/-- The store without frames. -/
def empty : Store := ⟨#[], 0, [], none⟩

/-- The parent of a frame. -/
def parent? (s : Store) (f : FrameId) : Option FrameId := (s.frames[f]?).bind Frame.parent

/-- The bindings of a frame. -/
def bindings (s : Store) (f : FrameId) : Bindings := ((s.frames[f]?).map Frame.bindings).getD []

/-- The value that a frame itself binds to a name. -/
def get? (s : Store) (f : FrameId) (name : Text) : Option Value := (s.bindings f).lookup name

/-- At most `count` frames from `f` towards the root. -/
def ancestry (s : Store) : Nat → FrameId → List FrameId
  | 0, _ => []
  | count + 1, f =>
    f :: match s.parent? f with
      | some p => ancestry s count p
      | none => []

/-- The frames of an environment, innermost first. -/
def chain (s : Store) (f : FrameId) : List FrameId := s.ancestry s.frames.size f

/-- The innermost frame of an environment that binds a name. -/
def find? (s : Store) (f : FrameId) (name : Text) : Option FrameId :=
  (s.chain f).find? fun g => (s.get? g name).isSome

/-- The value of a name in an environment. -/
def lookup? (s : Store) (f : FrameId) (name : Text) : Option Value :=
  (s.find? f name).bind fun g => s.get? g name

/-- Bind a name in a frame. -/
def assign (s : Store) (f : FrameId) (name : Text) (v : Value) : Store :=
  { s with frames := s.frames.modify f fun g => { g with bindings := g.bindings.assign name v } }

/-- A new frame. -/
def newFrame (s : Store) (parent : Option FrameId) : Store :=
  { s with
    frames := s.frames.push ⟨parent, [(currentWorld, .native (.currentWorld s.frames.size))]⟩ }

@[simp] theorem size_assign (s : Store) (f : FrameId) (name : Text) (v : Value) :
    (s.assign f name v).frames.size = s.frames.size := by
  simp [assign]

/-- Binding a name moves no frame. -/
@[simp] theorem parent?_assign (s : Store) (f g : FrameId) (name : Text) (v : Value) :
    (s.assign f name v).parent? g = s.parent? g := by
  simp only [parent?, assign, Array.getElem?_modify]
  split
  · cases s.frames[g]? <;> rfl
  · rfl

/-- Binding a name in a frame changes what that frame binds to that name and nothing else. -/
theorem get?_assign (s : Store) (f g : FrameId) (name other : Text) (v : Value)
    (h : f < s.frames.size) :
    (s.assign f name v).get? g other = if g = f ∧ other = name then some v else s.get? g other := by
  by_cases hg : f = g
  · subst hg
    simp only [get?, bindings, assign, Array.getElem?_modify, if_true, Array.getElem?_eq_getElem h,
      Option.map_some, Option.getD_some, Bindings.lookup_assign, true_and]
  · simp [get?, bindings, assign, Array.getElem?_modify, hg, Ne.symm hg]

@[simp] theorem size_newFrame (s : Store) (parent : Option FrameId) :
    (s.newFrame parent).frames.size = s.frames.size + 1 := by
  simp [newFrame]

/-- A new frame has the given parent, and the frames that were there keep theirs. -/
theorem parent?_newFrame (s : Store) (parent : Option FrameId) (g : FrameId) :
    (s.newFrame parent).parent? g = if g = s.frames.size then parent else s.parent? g := by
  by_cases hg : g = s.frames.size <;> simp [parent?, newFrame, Array.getElem?_push, hg]

/-- A new frame binds `current-world` only, and the frames that were there keep their bindings. -/
theorem bindings_newFrame (s : Store) (parent : Option FrameId) (g : FrameId) :
    (s.newFrame parent).bindings g =
      if g = s.frames.size then [(currentWorld, .native (.currentWorld g))] else s.bindings g := by
  by_cases hg : g = s.frames.size <;> simp [bindings, newFrame, Array.getElem?_push, hg]

/-- Add a record to the log. -/
def record (s : Store) (r : Record) : Store := { s with log := r :: s.log }

/-- The records from the log made since it had `count` of them, in order. -/
def recordsSince (s : Store) (count : Nat) : List Record :=
  (s.log.take (s.log.length - count)).reverse

/-- What the log has grown by is what it has recorded since. -/
theorem recordsSince_eq {s t : Store} {made : List Record} (h : t.log = made ++ s.log) :
    t.recordsSince s.log.length = made.reverse := by
  rw [recordsSince, h, List.length_append, Nat.add_sub_cancel, List.take_left]

end Store

/-- A computation on the store that may fail; what it did before stays done. -/
abbrev Eval := EStateM Failure Store

namespace Eval

/-- Stop with a fault. -/
def fail {α : Type} (f : Fault) : Eval α := throw (.fault f)

/-- Stop because a value is not what was expected. -/
def mismatch {α : Type} (expected : Expected) (v : Value) : Eval α :=
  fail (.showing (.mismatch expected) v.render)

/-- A tag that no value has yet. -/
def freshTag : Eval Tag := modifyGet fun s => (s.nextTag, { s with nextTag := s.nextTag + 1 })

/-- A new list of values. -/
def newList (vs : List Value) : Eval Value :=
  modifyGet fun s => (.listFrom s.nextTag vs, { s with nextTag := s.nextTag + vs.length })

/-- The expression of a datum. -/
def instantiate (d : Datum) : Eval Value :=
  modifyGet fun s =>
    let (v, next) := Value.ofDatum d s.nextTag
    (v, { s with nextTag := next })

/-- The elements of a proper list. -/
def elements (v : Value) : Eval (List Value) :=
  match v.elements? with
  | some vs => pure vs
  | none => mismatch .list v

/-- Add a record to the log. -/
def record (r : Record) : Eval Unit := modify fun s => s.record r

end Eval

end Fexpr
