import TeachingCpu.Text.Basic
import TeachingCpu.Log.Entry
/-!
# TeachingCpu.Log.Terminal

The log as **lines on a terminal**.

The decorated form labels an entry with its level in a column. The minimal form is meant to be
compared by machines: it has short labels, and control sequences are taken out of the messages,
which may quote user input.
-/

set_option autoImplicit false

namespace TeachingCpu

namespace Text

/-- Reads on while `inside` a control sequence until its closing `m`. -/
def withoutColorFrom : (inside : Bool) → Text → Text
  | _, [] => []
  | true, c :: cs => withoutColorFrom (c ≠ 'm') cs
  | false, c :: cs => if c = '\x1b' then withoutColorFrom true cs else c :: withoutColorFrom false cs

/-- The text without its control sequences: an escape character, what follows it, and the next
`m`, or everything to the end where no `m` follows. -/
def withoutColor (t : Text) : Text := withoutColorFrom false t

end Text

/-- The label of a level in the decorated form, right-aligned in a column of twelve. -/
def Level.label (l : Level) : String :=
  let padded (t : String) := String.ofList (Text.padLeft 12 ' ' t.toList) ++ " "
  match l with
  | .plain => ""
  | .info => padded "Info"
  | .warning => padded "Warning"
  | .error => padded "Error"
  | .phase => padded "Phase"
  | .trace => ""

/-- The label of a level in the minimal form. -/
def Level.minimalLabel : Level → String
  | .warning => "Warning: "
  | .error => "Error: "
  | .trace => "  "
  | _ => ""

/-- The line that shows an entry. -/
def Entry.line (minimal : Bool) (e : Entry) : String :=
  if minimal then e.level.minimalLabel ++ String.ofList (Text.withoutColor e.message.toList)
  else e.level.label ++ e.message

/-- The lines of the entries that a trace level shows. -/
def Entry.lines (minimal : Bool) (trace : TraceLevel) (log : List Entry) : List String :=
  (log.filter fun e => trace.shows e.level).map (Entry.line minimal)

end TeachingCpu
