import TeachingCpu.Machine.Word
import TeachingCpu.Text.Blank
import TeachingCpu.Text.Lines
/-!
# TeachingCpu.Image

**Images** of programs as text: one word a line, in hexadecimal.

Writing is strict, four capital digits a line. Reading is lenient: blank lines are passed over,
white space around a word does not count, and a word may have fewer digits.
-/

set_option autoImplicit false

namespace TeachingCpu

namespace Image

/-- The text of an image. -/
def toText (words : List Word) : Text := words.flatMap fun w => w.hex ++ ['\n']

/-- The lines of a text that hold a word, without the white space around it. -/
def entries (t : Text) : List Text := ((Text.lines t).map Text.trim).filter (!·.isEmpty)

/-- The words that lines hold, or the first line that holds none. -/
def ofEntries : List Text → Except WordError (List Word)
  | [] => .ok []
  | entry :: rest =>
    match Word.ofHex entry with
    | .error error => .error error
    | .ok w => (ofEntries rest).map (w :: ·)

/-- The image that a text holds. -/
def ofText (t : Text) : Except WordError (List Word) := ofEntries (entries t)

end Image

end TeachingCpu
