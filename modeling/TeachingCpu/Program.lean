import TeachingCpu.Assembly
import TeachingCpu.Image
/-!
# TeachingCpu.Program

A **program** with a name: its source, and what assembling it last came to.

The source is kept as lines and may be edited; assembling replaces everything that an earlier
assembly left. A program read from an image has no source and counts as assembled.
-/

set_option autoImplicit false

namespace TeachingCpu

/-- A named program. -/
structure Program where
  name : String
  /-- The lines of the source. -/
  code : List Text := []
  /-- The texts of the defects found last. -/
  errors : List String := []
  /-- The words, that of the origin first. -/
  data : List Word := []
  /-- Whether the words are those of a program without defects. -/
  assembled : Bool := false
deriving DecidableEq, Repr

namespace Program

/-- A program that is yet to be assembled. -/
def ofSource (name : String) (source : Text) : Program := { name, code := Text.lines source }

/-- The program whose image a text holds. -/
def ofImage (name : String) (text : Text) : Except WordError Program :=
  (Image.ofText text).map fun data => { name, data, assembled := true }

/-- The source of a program. -/
def source (p : Program) : Text := ['\n'].intercalate p.code

/-- Assembles a program. -/
def assemble (p : Program) : Program × Assembly :=
  let assembly := Assembly.assemble p.source
  ({ p with
      errors := assembly.messages, data := assembly.data, assembled := assembly.assembled },
    assembly)

/-- The text of the image of a program. -/
def image (p : Program) : Text := Image.toText p.data

/-- The program with a line of its source replaced. -/
def setLine (p : Program) (index : Nat) (line : Text) : Program :=
  { p with code := p.code.set index line }

/-- The program with a line added to its source. -/
def pushLine (p : Program) (line : Text) : Program := { p with code := p.code ++ [line] }

end Program

end TeachingCpu
