import TeachingCpu.Text.Basic
/-!
# TeachingCpu.Assembly.Statement

**Statements**: source lines taken apart into label, command and parameters, with the place in
the source that messages about them point at.
-/

set_option autoImplicit false

namespace TeachingCpu

/-- A stretch of the source, counted in bytes. -/
structure Span where
  start : Nat := 0
  length : Nat := 0
deriving DecidableEq, Repr

/-- The span of a stretch of any size: a span keeps 32 bits of its start and 16 of its length. -/
def Span.cover (start length : Nat) : Span := ⟨start % 0x100000000, length % 0x10000⟩

/-- Whether a name is a label: it begins with `_`. -/
def isLabel (name : Text) : Bool := name.head? == some '_'

theorem isLabel_iff {name : Text} : isLabel name = true ↔ name.head? = some '_' := beq_iff_eq

theorem isLabel_eq_false_iff {name : Text} : isLabel name = false ↔ name.head? ≠ some '_' :=
  beq_eq_false_iff_ne

/-- A source line taken apart. -/
structure Statement where
  /-- The number of its line, counted from 1. -/
  line : Nat
  /-- Its place among the lines that are not blank, counted from 1. -/
  position : Nat
  span : Span
  /-- The label it carries, if it opens a subroutine. -/
  label : Option Text := none
  command : Text
  params : List Text := []
deriving DecidableEq, Repr

namespace Statement

/-- The command that gives a program its origin. -/
def originCommand : Text := "ORG".toList

/-- Whether a statement gives the origin. -/
def isOrigin (s : Statement) : Bool := s.command == originCommand

/-- Whether a statement stands for a word in memory. The origin does not. -/
def isLoaded (s : Statement) : Bool := !s.isOrigin

theorem isLoaded_iff {s : Statement} : s.isLoaded = true ↔ s.command ≠ "ORG".toList := by
  simp [isLoaded, isOrigin, originCommand]

/-- The labels among the parameters of a statement, in order and as often as they occur. -/
def references (s : Statement) : List Text := s.params.filter isLabel

end Statement

end TeachingCpu
