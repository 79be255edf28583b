import TeachingCpu.Log.Entry
import TeachingCpu.Text.Blank
/-!
# TeachingCpu.Settings

**Settings** that come from the environment.

They are read once, before anything asks for them: a `Settings.Cell` is filled exactly once, and
both filling it again and reading it empty are errors.
-/

set_option autoImplicit false

namespace TeachingCpu

/-- What the environment sets. -/
structure Settings where
  /-- How closely a running machine is followed. -/
  trace : TraceLevel := .off
  /-- The file of the instruction set to use where none is named otherwise. -/
  isa : Option Text := none
deriving DecidableEq, Repr

/-- The trace level that a text asks for, white space around it and letter case aside; anything
unknown asks for none. -/
def TraceLevel.ofText (t : Text) : TraceLevel :=
  let word := (Text.trim t).lower
  if word = "1".toList ∨ word = "micro".toList then .microOps
  else if word = "phases".toList then .phases
  else .off

namespace Settings

/-- The variable that sets the trace level. -/
def traceVariable : String := "MCPU_TRACE"

/-- The variable that names an instruction set; empty, it names none. -/
def isaVariable : String := "MCPU_ISA"

/-- The settings that these two variables make, where they are set. -/
def ofVariables (trace isa : Option Text) : Settings where
  trace := (trace.map TraceLevel.ofText).getD .off
  isa := isa.filter (!·.isEmpty)

/-- Why settings cannot be filled in or read. -/
inductive CellError
  | filledBefore
  | empty
deriving DecidableEq, Repr

/-- The text of an error about settings. -/
def CellError.message : CellError → String
  | .filledBefore => "tried to initialize environment state multiple times"
  | .empty => "tried to access environment state before initialization"

/-- The place where settings are kept. -/
structure Cell where
  held : Option Settings := none
deriving DecidableEq, Repr

namespace Cell

/-- Fills a cell. -/
def fill (cell : Cell) (settings : Settings) : Except CellError Cell :=
  match cell.held with
  | none => .ok ⟨some settings⟩
  | some _ => .error .filledBefore

/-- The settings in a cell. -/
def get (cell : Cell) : Except CellError Settings :=
  match cell.held with
  | some settings => .ok settings
  | none => .error .empty

end Cell

end Settings

end TeachingCpu
