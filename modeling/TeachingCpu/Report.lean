import TeachingCpu.Assembly.Defect
import TeachingCpu.Machine.Cpu
/-!
# TeachingCpu.Report

**Reports** of failures to people: a message, a stable code, advice, and labels on the source.
-/

set_option autoImplicit false

namespace TeachingCpu

/-- A remark on a stretch of the source. -/
structure SourceLabel where
  span : Span
  text : String
deriving DecidableEq, Repr

/-- A report of a failure. -/
structure Report where
  message : String
  /-- The kind of the failure; a failure of the surroundings has none. -/
  code : Option String := none
  help : Option String := none
  labels : List SourceLabel := []
deriving DecidableEq, Repr

namespace Report

/-- The report of a diagnostic. -/
def ofDiagnostic (d : Diagnostic) : Report where
  message := d.message
  code := some "asm::line"
  help := some d.defect.help
  labels := [⟨d.span, d.defect.message⟩]

/-- The report of an assembly that found so many defects. -/
def assemblyFailed (count : Nat) : Report :=
  let plural := if count = 1 then "" else "s"
  { message := s!"Assembly failed with {count} error{plural}"
    code := some "asm::failed"
    help := some "fix the errors above and try again" }

/-- What to do about a fault. -/
def helpOfFault : Fault → String
  | .busy => "wait for the current cycle to finish"
  | .invalidInstruction _ => "list the instruction set with `mcpu isa`"
  | .memory (.addressOutOfRange _) => "addresses range from $00 to $FF"
  | .memory (.programTooLarge _ _) => "move the origin lower or shorten the program"
  | .divisionByZero => "the divisor register holds zero"
  | .missingOrigin => "assemble the program again"

/-- The report of a fault. -/
def ofFault (fault : Fault) : Report where
  message := fault.message
  code := some "engine::cycle"
  help := some (helpOfFault fault)

/-- The lines that show a report on a terminal, without the source. -/
def drawing (r : Report) : String :=
  let head := match r.code with
    | some code => s!"Error: {code}\n\n"
    | none => "Error: "
  let advice := match r.help with
    | some help => s!"  help: {help}\n"
    | none => ""
  s!"{head}  × {r.message}\n{advice}\n"

end Report

end TeachingCpu
