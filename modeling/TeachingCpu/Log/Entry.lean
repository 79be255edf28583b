/-!
# TeachingCpu.Log.Entry

The **log**: what the assembler, the engine and the console report, in order.

Everything is logged; a `TraceLevel` says which entries are shown. It only ever hides the two
levels that follow a machine step by step.
-/

set_option autoImplicit false

namespace TeachingCpu

/-- The kind of a log entry. -/
inductive Level
  /-- Text shown as it is, such as a table of registers. -/
  | plain
  /-- A success worth telling. -/
  | info
  /-- Something unexpected that is no failure of its own. -/
  | warning
  /-- A failure. -/
  | error
  /-- The start of a phase of the instruction cycle. -/
  | phase
  /-- A micro-instruction. -/
  | trace
deriving DecidableEq, Repr

namespace Level

/-- Every level. -/
def all : List Level := [.plain, .info, .warning, .error, .phase, .trace]

/-- The name of a level. -/
def name : Level → String
  | .plain => "plain"
  | .info => "info"
  | .warning => "warning"
  | .error => "error"
  | .phase => "phase"
  | .trace => "trace"

end Level

/-- An entry of the log. -/
structure Entry where
  level : Level
  message : String
deriving DecidableEq, Repr

/-- How closely a running machine is followed. -/
inductive TraceLevel
  /-- Not at all. -/
  | off
  /-- Every phase as it starts. -/
  | phases
  /-- Phases and micro-instructions. -/
  | microOps
deriving DecidableEq, Repr

/-- Whether entries of a level are shown. -/
def TraceLevel.shows : TraceLevel → Level → Bool
  | .off, .phase => false
  | .off, .trace => false
  | .phases, .trace => false
  | _, _ => true

end TeachingCpu
