import TeachingCpu.Log.Entry
import TeachingCpu.Machine.MicroOp
/-!
# TeachingCpu.Machine.Event

What an engine **reports** while it works.

An event is kept as what happened, not as text, so that a log can be replayed; `Event.entry` puts
it into words.
-/

set_option autoImplicit false

namespace TeachingCpu

/-- A phase of the instruction cycle. -/
inductive Stage
  | fetching
  | decoding
  | executing
deriving DecidableEq, Repr

/-- The name of a stage. -/
def Stage.name : Stage → String
  | .fetching => "Fetching"
  | .decoding => "Decoding"
  | .executing => "Executing"

/-- The name of the phase that is under way, if one is. -/
def Stage.phaseName : Option Stage → String
  | none => "Idle"
  | some stage => stage.name

/-- Something that happened in an engine. -/
inductive Event
  /-- A program of so many words was placed at its origin. -/
  | loaded (count : Nat) (origin : Byte)
  /-- A phase began. -/
  | began (stage : Stage)
  /-- A micro-instruction was attempted. -/
  | attempted (op : MicroOp)
  /-- The micro-instruction attempted last failed, and the phase under way was undone. -/
  | rolledBack (op : MicroOp) (stage : Option Stage)
  /-- There was nothing to execute. -/
  | nothingDecoded
deriving DecidableEq, Repr

/-- The log entry of an event. -/
def Event.entry : Event → Entry
  | .loaded count origin =>
    let digits := String.ofList (Numeral.padded 2 origin)
    ⟨.info, s!"Loaded {count} words at 0x{digits}"⟩
  | .began stage => ⟨.phase, stage.name⟩
  | .attempted op => ⟨.trace, op.text⟩
  | .rolledBack op stage =>
    ⟨.warning, s!"`{op.text}` failed, rolled back to before {(Stage.phaseName stage).toLower}"⟩
  | .nothingDecoded => ⟨.warning, "Nothing has been decoded, there is nothing to execute"⟩

end TeachingCpu
