import TeachingCpu.CommandLine.Path
/-!
# TeachingCpu.CommandLine.FileTree

**Files in memory**, and how a path leads to one.

Design points:

* A path is followed one step at a time (`FileTree.follow`), and the first step that cannot be
  taken is the error. A step needs a directory to start from, also the one that stays there.
* Of the file system only the working directory is known, and what every system has: a root, the
  directories `/dev` and `/tmp`, and the null device. The directories above the working directory
  exist, but what they hold is not known; a place is told by how far up it starts (`Place`).
* **Writing creates** a file that is missing, but never the directory it is in.
-/

set_option autoImplicit false

namespace TeachingCpu

/-- Why a file cannot be read or written. -/
inductive FileError
  | notFound
  | permissionDenied
  | notDirectory
  | isDirectory
  /-- A name in the path, or the path as a whole, is too long. -/
  | nameTooLong
  /-- The contents are no text. -/
  | notText
  /-- Anything else, in the words of the system. -/
  | other (text : String)
deriving DecidableEq, Repr

/-- The text of a file error. -/
def FileError.message : FileError → String
  | .notFound => "No such file or directory (os error 2)"
  | .permissionDenied => "Permission denied (os error 13)"
  | .notDirectory => "Not a directory (os error 20)"
  | .isDirectory => "Is a directory (os error 21)"
  | .nameTooLong => "File name too long (os error 36)"
  | .notText => "stream did not contain valid UTF-8"
  | .other text => text

/-! ### Places -/

/-- A directory from which places are reached by going down. -/
inductive Base
  /-- The root of the file system. -/
  | root
  /-- The directory so many levels above the working directory. -/
  | working (above : Nat)
deriving DecidableEq, Repr

/-- A place in a file system: the names on the way down to it. -/
structure Place where
  base : Base := .working 0
  names : List Text := []
deriving DecidableEq, Repr

namespace Place

/-- The place above a place; nothing is above the root. -/
def up (p : Place) : Place :=
  match p.names, p.base with
  | [], .root => p
  | [], .working above => { base := .working (above + 1) }
  | names, base => ⟨base, names.dropLast⟩

/-- The place of a name in a directory. -/
def down (p : Place) (name : Text) : Place := { p with names := p.names ++ [name] }

/-- Whether a place is within another, or that place itself. -/
def isWithin (p dir : Place) : Bool := p.base = dir.base && dir.names.isPrefixOf p.names

/-- The place from which a path is followed. -/
def start (p : Path) : Place := if Path.isAbsolute p then { base := .root } else {}

/-- The null device, which is always empty. -/
def nullDevice : Place := ⟨.root, ["dev".toList, "null".toList]⟩

/-- The directories that every system has below its root. -/
def standing : List Place := [⟨.root, ["dev".toList]⟩, ⟨.root, ["tmp".toList]⟩]

end Place

/-! ### Files -/

/-- Files, by their places. A directory is there if a file is within it. -/
abbrev FileTree := List (Place × ByteArray)

namespace FileTree

/-- What a place can hold. -/
inductive Node
  | file (place : Place) (contents : ByteArray)
  | nullDevice
  | directory (place : Place)
  /-- Nothing, in a directory that is there or not. -/
  | missing (place : Place)

/-- What is found at a place. -/
def nodeAt (t : FileTree) (place : Place) : Node :=
  if place = .nullDevice then .nullDevice
  else match t.lookup place with
    | some contents => .file place contents
    | none =>
      if place.names.isEmpty || place ∈ Place.standing || t.any (·.1.isWithin place) then
        .directory place
      else .missing place

/-- The most bytes in a name. -/
def longestName : Nat := 255

/-- The most bytes in a path. -/
def longestPath : Nat := 4095

/-- Takes a step from what was found so far. -/
def follow (t : FileTree) : Node → Path.Step → Except FileError Node
  | .missing _, _ => .error .notFound
  | .file _ _, _ => .error .notDirectory
  | .nullDevice, _ => .error .notDirectory
  | .directory place, .stay => .ok (.directory place)
  | .directory place, .up => .ok (.directory place.up)
  | .directory place, .enter name =>
    if longestName < Text.byteLength name then .error .nameTooLong
    else .ok (t.nodeAt (place.down name))

/-- What is found by the steps of a path, which may be other steps than it has by itself. -/
def find (t : FileTree) (p : Path) (steps : List Path.Step) : Except FileError Node :=
  if longestPath < Text.byteLength p then .error .nameTooLong
  else steps.foldlM t.follow (.directory (Place.start p))

/-- The bytes of the file at a path. -/
def read (t : FileTree) (p : Path) : Except FileError ByteArray := do
  match ← t.find p (Path.steps p) with
  | .directory _ => .error .isDirectory
  | .missing _ => .error .notFound
  | .file _ contents => if Path.endsInSlash p then .error .notDirectory else .ok contents
  | .nullDevice => if Path.endsInSlash p then .error .notDirectory else .ok .empty

/-- The steps by which a file is written. A path that ends in a slash only leads to the directory
that its last step is taken from: what it names is not looked for, since it is no file. -/
def writingSteps (p : Path) : List Path.Step :=
  if Path.endsInSlash p then (Path.steps p).dropLast ++ [.stay] else Path.steps p

/-- The tree with a file at a path. -/
def write (t : FileTree) (p : Path) (contents : ByteArray) : Except FileError FileTree := do
  match ← t.find p (writingSteps p) with
  | .directory _ => .error .isDirectory
  | .missing place => .ok (t ++ [(place, contents)])
  | .file place _ => .ok (t.map fun (p, old) => if p = place then (p, contents) else (p, old))
  | .nullDevice => .ok t

end FileTree

end TeachingCpu
