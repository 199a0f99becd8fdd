import Fexpr.Path

/-!
# Files

The files that a session can load, seen from its working directory, and how the bytes of a source
file are turned into text.
-/

namespace Fexpr

/-- What stands at a path. -/
inductive FileEntry
  | file (bytes : ByteArray)
  | directory

/-- Why a file cannot be loaded. -/
inductive FileFault
  /-- There is no such file. -/
  | missing
  /-- It is a directory. -/
  | directory
  /-- The path leads through a file. -/
  | notDirectory
  /-- The path holds a NUL. -/
  | badPath
  /-- It is not UTF-8. -/
  | undecodable
  deriving DecidableEq, Repr

/-- The files and directories below the working directory, by the parts of their paths. Directories
on the way to an entry need no entry of their own. -/
structure Files where
  entries : List (List Text × FileEntry)

namespace Files

/-- Line ends as one line feed each, be they a carriage return, a line feed or both. -/
def unifyBreaks : Text → Text
  | [] => []
  | .scalar '\r' :: .scalar '\n' :: cs => .scalar '\n' :: unifyBreaks cs
  | .scalar '\r' :: cs => .scalar '\n' :: unifyBreaks cs
  | c :: cs => c :: unifyBreaks cs

/-- The text of a source file: strict UTF-8, with unified line ends. -/
def decode (bytes : ByteArray) : Option Text :=
  (String.fromUTF8? bytes).map fun s => unifyBreaks (.ofString s)

/-- What stands below the working directory. -/
def entry? (fs : Files) (parts : List Text) : Option FileEntry :=
  match fs.entries.find? fun e => e.1 == parts with
  | some (_, e) => some e
  | none =>
    if parts.isEmpty || fs.entries.any (fun e => parts.isPrefixOf e.1) then some .directory
    else none

/-- A place that a walk has come to: below the working directory, or some directories above it. -/
inductive Place
  | below (parts : List Text)
  | above (levels : Nat)
  deriving DecidableEq, Repr

/-- Walk along parts from a place; every place on the way has to be a directory. -/
def walk (fs : Files) : Place → List Text → Except FileFault FileEntry
  | .below parts, rest =>
    match fs.entry? parts, rest with
    | none, _ => .error .missing
    | some e, [] => .ok e
    | some (.file _), _ :: _ => .error .notDirectory
    | some .directory, part :: rest =>
      if part = [.scalar '.', .scalar '.'] then
        if parts.isEmpty then fs.walk (.above 1) rest else fs.walk (.below parts.dropLast) rest
      else fs.walk (.below (parts ++ [part])) rest
  | .above _, [] => .ok .directory
  | .above n, part :: rest =>
    if part = [.scalar '.', .scalar '.'] then fs.walk (.above (n + 1)) rest else .error .missing

/-- What stands at a path. Outside the working directory only directories are known. -/
def find (fs : Files) (p : Path) : Except FileFault FileEntry :=
  if p.parts.any (·.contains '\x00') then .error .badPath
  else fs.walk (if p.slashes = 0 then .below [] else .above 0) p.parts

/-- Whether a file that can be read stands at a path. -/
def isFile (fs : Files) (p : Path) : Bool :=
  match fs.find p with
  | .ok (.file _) => true
  | _ => false

/-- The text of the file at a path. -/
def read (fs : Files) (p : Path) : Except FileFault Text :=
  match fs.find p with
  | .error e => .error e
  | .ok .directory => .error .directory
  | .ok (.file bytes) =>
    match decode bytes with
    | some t => .ok t
    | none => .error .undecodable

end Files

end Fexpr
