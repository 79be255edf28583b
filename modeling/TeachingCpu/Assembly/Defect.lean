import TeachingCpu.Assembly.Statement
/-!
# TeachingCpu.Assembly.Defect

**Defects** of a program, and the diagnostics that locate them.

A diagnostic belongs to one source line. Diagnostics are found in several passes and shown in
the order of their lines; on one line they keep the order in which they were found
(`Diagnostic.sort`).
-/

set_option autoImplicit false

namespace TeachingCpu

/-- What can be wrong with a source line. -/
inductive Defect
  /-- The first line of the program carries a label. -/
  | mainAfterSubroutine
  /-- The label was declared before. -/
  | duplicateSubroutine
  /-- The line carries a name that is no label. -/
  | invalidLabel (label : Text)
  /-- A number, or the place of a word, is past the end of memory. -/
  | addressTooLarge
  /-- No subroutine has the label. -/
  | undefinedLabel (label : Text)
  /-- The origin is given on another line than the first. -/
  | orgNotFirst
  /-- The origin was given before. -/
  | orgRedeclared
  /-- The program does not begin with an origin. -/
  | missingOrg
  /-- A halt is not on the last line, whose number is given. -/
  | haltNotLast (last : Nat)
  /-- The command takes another number of parameters. -/
  | parameterCount (expected : Nat)
  /-- Both parameters are the same. -/
  | identicalParameters
  /-- The text is no number. -/
  | invalidNumber
  /-- The text is no operand, or no operand that the command takes here. -/
  | invalidOperand (operand : Text)
  /-- The command is none, or the line cannot be taken apart. -/
  | unknownCommand
deriving DecidableEq, Repr

namespace Defect

/-- The text of a defect. -/
def message : Defect → String
  | .mainAfterSubroutine => "Main code must occur before subroutines"
  | .duplicateSubroutine => "Subroutine already declared"
  | .invalidLabel label => s!"Label '{String.ofList label}' must begin with '_'"
  | .addressTooLarge => "Address given exceeds memory size"
  | .undefinedLabel label => s!"Label '{String.ofList label}' is not defined"
  | .orgNotFirst => "ORG can only occur on line 1"
  | .orgRedeclared => "ORG already declared"
  | .missingOrg => "Program must begin with ORG"
  | .haltNotLast last => s!"HALT can only occur on line {last}"
  | .parameterCount expected => s!"Must only have {expected} parameters"
  | .identicalParameters => "Parameters must not be identical"
  | .invalidNumber => "Unrecognised number format"
  | .invalidOperand operand => s!"Invalid operand '{String.ofList operand}'"
  | .unknownCommand => "Unrecognised command"

/-- What to do about a defect. -/
def help : Defect → String
  | .mainAfterSubroutine => "the first line of a program cannot carry a label"
  | .duplicateSubroutine => "the first subroutine with this label is kept"
  | .invalidLabel _ => "labels look like `_loop`"
  | .addressTooLarge => "addresses range from $00 to $FF"
  | .undefinedLabel _ => "declare a subroutine with this label"
  | .orgNotFirst | .missingOrg => "start the program with `ORG $00`"
  | .orgRedeclared => "a program has a single origin"
  | .haltNotLast _ => "HALT must be the last line of the program"
  | .parameterCount _ => "check the operands for this instruction"
  | .identicalParameters => "source and destination must differ"
  | .invalidNumber => "numbers look like `$0A` (hex) or `^10` (decimal)"
  | .invalidOperand _ => "registers are `A` and `B`"
  | .unknownCommand => "check the list of available instructions with `mcpu isa`"

end Defect

/-- A defect with its place in the source. -/
structure Diagnostic where
  /-- The number of the line, counted from 1. -/
  line : Nat
  span : Span
  defect : Defect
deriving DecidableEq, Repr

namespace Diagnostic

/-- The text of a diagnostic. -/
def message (d : Diagnostic) : String := s!"Line {d.line}: {d.defect.message}"

/-- Puts a diagnostic before the first one of the same or a later line. -/
def insert (d : Diagnostic) : List Diagnostic → List Diagnostic
  | [] => [d]
  | e :: rest => if d.line ≤ e.line then d :: e :: rest else e :: insert d rest

/-- The diagnostics in the order of their lines, those of one line in the order given. -/
def sort (ds : List Diagnostic) : List Diagnostic := ds.foldr insert []

end Diagnostic

/-- A diagnostic about a statement. -/
def Statement.diagnose (s : Statement) (defect : Defect) : Diagnostic :=
  ⟨s.line, s.span, defect⟩

end TeachingCpu
