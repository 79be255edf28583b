import TeachingCpu.Text.Basic
/-!
# TeachingCpu.CommandLine.Path

**Paths** of files, as they are written on the command line.

A path is a text; its components stand between slashes. It is read in two ways:

* **To follow it** (`Path.steps`) every component but an empty one counts, since even the single
  point, which stays where it is, requires that a directory has been reached.
* **To tell the name of its file** (`Path.fileName?`) components that lead nowhere, an empty one
  or a single point, do not count, so a trailing slash belongs to no file name.
-/

set_option autoImplicit false

namespace TeachingCpu

/-- The path of a file as it was written. -/
abbrev Path := Text

namespace Path

/-- A step on the way that a path describes. -/
inductive Step
  /-- Stays in the directory. -/
  | stay
  /-- Goes to the directory above. -/
  | up
  /-- Goes to what the directory holds under a name. -/
  | enter (name : Text)
deriving DecidableEq, Repr

/-- The step that a component stands for, if it is not empty. -/
def step? (component : Text) : Option Step :=
  if component.isEmpty then none
  else if component = ['.'] then some .stay
  else if component = ['.', '.'] then some .up
  else some (.enter component)

/-- The steps of a path. -/
def steps (p : Path) : List Step := (p.splitOn '/').filterMap step?

/-- Whether a path starts from the root of the file system. -/
def isAbsolute (p : Path) : Bool := p.head? == some '/'

/-- Whether a path ends in a slash, so that it can only lead to a directory. -/
def endsInSlash (p : Path) : Bool := p.getLast? == some '/'

/-- The components of a path that lead somewhere. -/
def components (p : Path) : List Text := (p.splitOn '/').filter fun c => c ≠ [] ∧ c ≠ ['.']

/-- The name of the file that a path leads to; a path that ends by going up has none. -/
def fileName? (p : Path) : Option Text :=
  (components p).getLast?.filter (· ≠ ['.', '.'])

/-- The part of a file name after its last point, unless that point is its first character. -/
def extensionOf? (name : Text) : Option Text :=
  let after := name.reverse.takeWhile (· ≠ '.')
  if name.length ≤ after.length + 1 then none else some after.reverse

/-- The extension of the file that a path leads to. -/
def extension? (p : Path) : Option Text := (fileName? p).bind extensionOf?

/-- A path without trailing slashes and points, last character first. -/
def trimTail : Text → Text
  | '/' :: rest => trimTail rest
  | '.' :: '/' :: rest => trimTail rest
  | reversed => reversed

/-- A path without the extension of its file name and the point before that. -/
def withoutExtension (p : Path) : Path :=
  let reversed := trimTail p.reverse
  match extension? p with
  | some old => (reversed.drop (old.length + 1)).reverse
  | none => reversed.reverse

/-- The path with the extension of its file name replaced, or added.

The old extension is cut off first, its point left standing. What is left is a path of its own
and need not lead to a file: `..` is left of `..asm`, and then there is nothing to add to. -/
def withExtension (p : Path) (extension : Text) : Path :=
  let rest := p.take (p.length - ((extension? p).getD []).length)
  match fileName? rest with
  | none => rest
  | some _ => withoutExtension rest ++ '.' :: extension

end Path

end TeachingCpu
