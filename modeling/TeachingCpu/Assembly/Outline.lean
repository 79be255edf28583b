import TeachingCpu.Assembly.Defect
import TeachingCpu.Assembly.Fields
import TeachingCpu.Assembly.SourceLine
/-!
# TeachingCpu.Assembly.Outline

The **outline** of a program: a main body, and subroutines that each run from their label to the
next one.

Lines are read once, from the first to the last, and what follows a line is outlined first: the
statements that continue the block, the subroutines after it, and the diagnostics. A label that
is already declared opens a block that is dropped as a whole, up to the next new label. A line
that cannot be taken apart, or whose label is none, is left out without ending its block.

Every line is tracked, stored or not, for the rule that a halt stands on the last one. What was
tracked so far goes along with the lines, from the first to the last.
-/

set_option autoImplicit false

namespace TeachingCpu

/-- A labelled block. -/
structure Subroutine where
  label : Text
  /-- The statement that carries the label. -/
  opening : Statement
  /-- The statements after it. -/
  body : List Statement
deriving DecidableEq, Repr

namespace Subroutine

/-- Every statement of a subroutine. -/
def statements (s : Subroutine) : List Statement := s.opening :: s.body

/-- The number of words a subroutine takes in memory. -/
def loadedLength (s : Subroutine) : Nat := s.statements.countP (·.isLoaded)

end Subroutine

/-- The place of the last line of a program that is not blank. -/
structure LastLine where
  position : Nat
  line : Nat
deriving DecidableEq, Repr

/-- The last line so far, once one more is read, which takes its place if it stands behind it. -/
def LastLine.track (last : Option LastLine) (position line : Nat) : Option LastLine :=
  match last with
  | none => some ⟨position, line⟩
  | some seen => if seen.position < position then some ⟨position, line⟩ else some seen

/-- A program taken apart. -/
structure Outline where
  /-- The statements before the first subroutine. -/
  main : List Statement := []
  /-- The subroutines, in the order of the source. -/
  subroutines : List Subroutine := []
  /-- The last line, if there is any, whether its statement is stored or not. -/
  last : Option LastLine := none
deriving DecidableEq, Repr

namespace Outline

/-- Every statement: main body first, then the subroutines. -/
def statements (o : Outline) : List Statement := o.main ++ o.subroutines.flatMap (·.statements)

/-- The number of words the main body takes in memory. -/
def mainLength (o : Outline) : Nat := o.main.countP (·.isLoaded)

/-- Whether a subroutine has the label. -/
def declares (o : Outline) (label : Text) : Bool := o.subroutines.any (·.label == label)

/-- Whether some statement refers to the label. -/
def refersTo (o : Outline) (label : Text) : Bool :=
  o.statements.any (·.references.contains label)

/-- What further lines add to a program: the statements that continue the block before them, as
the main body of an outline, and the subroutines after it. -/
structure Continuation where
  outline : Outline := {}
  diagnostics : List Diagnostic := []

/-- Outlines further lines, within a block that is kept or dropped, after the labels in `declared`
and after the line `last`. -/
def follow (kept : Bool) (declared : List Text) (last : Option LastLine) :
    List SourceLine → Continuation
  | [] => { outline := { last } }
  | l :: rest =>
    match Fields.ofText? l.text with
    | none =>
      let r := follow kept declared (LastLine.track last l.position l.line) rest
      { r with diagnostics := ⟨l.line, l.span, .unknownCommand⟩ :: r.diagnostics }
    | some fields =>
      let s : Statement :=
        { line := l.line, position := l.position, span := l.span,
          command := fields.command, params := fields.params }
      match fields.label with
      | none =>
        if kept then
          let r := follow kept declared (LastLine.track last s.position s.line) rest
          { r with outline := { r.outline with main := s :: r.outline.main } }
        else follow kept declared (LastLine.track last s.position s.line) rest
      | some label =>
        if !isLabel label then
          let r := follow kept declared (LastLine.track last s.position s.line) rest
          { r with diagnostics := s.diagnose (.invalidLabel label) :: r.diagnostics }
        else
          let early := if l.position = 1 then [s.diagnose .mainAfterSubroutine] else []
          if declared.contains label then
            let r := follow false declared (LastLine.track last s.position s.line) rest
            { r with diagnostics := early ++ s.diagnose .duplicateSubroutine :: r.diagnostics }
          else
            let r :=
              follow true (label :: declared) (LastLine.track last s.position s.line) rest
            let opened : Subroutine :=
              { label, opening := { s with label := some label }, body := r.outline.main }
            { outline :=
                { main := [], subroutines := opened :: r.outline.subroutines,
                  last := r.outline.last },
              diagnostics := early ++ r.diagnostics }

/-- The outline of source lines and the diagnostics found on the way. -/
def ofLines (lines : List SourceLine) : Outline × List Diagnostic :=
  let r := follow true [] none lines
  (r.outline, r.diagnostics)

end Outline

end TeachingCpu
