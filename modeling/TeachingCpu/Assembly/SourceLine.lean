import TeachingCpu.Assembly.Statement
import TeachingCpu.Text.Blank
import TeachingCpu.Text.Lines
/-!
# TeachingCpu.Assembly.SourceLine

**Source lines** in normal form.

Comments and white space at the end of a line are dropped. Within a line, a run of blanks, tabs
and `@` signs separates fields and becomes a single `@`, and disappears next to a comma, which
separates parameters. A line of separators alone is blank and is passed over, but still counts
as a line.

White space *around* a line is what Unicode says; *inside* a line only blanks and tabs separate.
-/

set_option autoImplicit false

namespace TeachingCpu

/-- A source line that is not blank. -/
structure SourceLine where
  /-- Its number among all lines, counted from 1. -/
  line : Nat
  /-- Its place among the lines that are not blank, counted from 1. -/
  position : Nat
  /-- Its fields, joined by single `@` signs; an indented line begins with one. -/
  text : Text
  /-- Where it stands in the source, without comment and surrounding white space. -/
  span : Span
deriving DecidableEq, Repr

namespace SourceLine

/-- Whether a character separates fields. -/
def isSeparator (c : Char) : Bool := c == ' ' || c == '\t' || c == '@'

/-- One character more after the normal form `done`, whose last character comes first. A
separator is written only where neither a separator nor a comma precedes it, and is taken back
when a comma follows. -/
def feed (done : Text) (c : Char) : Text :=
  if c = ',' then ',' :: done.dropWhile isSeparator
  else if isSeparator c then
    match done with
    | '@' :: _ => done
    | ',' :: _ => done
    | _ => '@' :: done
  else c :: done

/-- The normal form of a line. -/
def normalise (raw : Text) : Text := (raw.foldl feed []).reverse

/-- Whether a line in normal form is blank. -/
def isVoid (text : Text) : Bool := text.all (· == '@')

/-- What is left of a segment of the source without its line end, its comment and the white
space before them. -/
def content (segment : Text) : Text :=
  Text.trimEnd ((Text.chomp segment).takeWhile (· != ';'))

/-- Where the content of a segment stands that begins at byte `offset`. -/
def spanAt (offset : Nat) (raw : Text) : Span :=
  .cover (offset + Text.byteLength (raw.takeWhile Text.isBlank))
    (Text.byteLength (Text.trimStart raw))

/-- The source lines of further segments, the first of which is line `line`, may take the place
`position` and begins at byte `offset`. -/
def scanFrom : (line position offset : Nat) → List Text → List SourceLine
  | _, _, _, [] => []
  | line, position, offset, segment :: rest =>
    let raw := content segment
    let text := normalise raw
    let next := offset + Text.byteLength segment
    if isVoid text then scanFrom (line + 1) position next rest
    else ⟨line, position, text, spanAt offset raw⟩ :: scanFrom (line + 1) (position + 1) next rest

/-- The lines of a source that are not blank. -/
def scan (source : Text) : List SourceLine := scanFrom 1 1 0 (Text.segments source)

end SourceLine

end TeachingCpu
