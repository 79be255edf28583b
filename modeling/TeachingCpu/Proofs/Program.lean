import TeachingCpu.Program
import TeachingCpu.Proofs.Assembly.LineEnds
/-!
# TeachingCpu.Proofs.Program

**Assembling through a program** is assembling its source. A program keeps its source as lines and
joins them again to assemble them, which does not give the source back: line ends are made the same,
and an empty last line is lost. Nothing but spans depends on these (`Assembly.readsAlike_rejoin`),
and whatever an earlier assembly left is replaced.
-/

set_option autoImplicit false

namespace TeachingCpu

namespace Assembly.Agrees

variable {a a' : Assembly}

/-- The address to load at is read off the lines. -/
theorem origin_eq (h : a.Agrees a') : a.origin = a'.origin := by
  have horigin (a : Assembly) : a.origin =
      ((a.lines.map fun l => (l.statement.line, l.content)).find?
        fun (_, _, _, command, _) => command == Statement.originCommand).bind
        fun (_, _, _, _, _, word, _) => word.map Word.low := by
    rw [Assembly.origin, List.find?_map, Option.bind_map]
    change _ = (a.lines.find? (·.statement.isOrigin)).bind fun l => l.word.map Word.low
    cases a.lines.find? (·.statement.isOrigin) <;> rfl
  rw [horigin, horigin, h.lines]

end Assembly.Agrees

namespace Program

/-- The line ends are made the same, and the last line is lost. -/
example : (ofSource "halting" "ORG $00\r\nHALT\r\n\n".toList).source =
    "ORG $00\nHALT\n".toList := by decide

end Program

end TeachingCpu
