import TeachingCpu.Text.Basic
/-!
# TeachingCpu.Text.Lines

**Lines** of a text. A line ends at a line feed, and the end of the text ends a last line that
has no line feed of its own, so a text that ends in a line feed has no empty line after it.

The text is first cut into **segments**, each with the line feed that ends it: `flatten_segments`
says that no character is lost, which is what byte positions of lines rest on. A line is its
segment without the line feed and without one carriage return right before that.
-/

set_option autoImplicit false

namespace TeachingCpu

namespace Text

/-- The text cut after every line feed. -/
def segments : Text → List Text
  | [] => []
  | c :: cs =>
    if c = '\n' then [c] :: segments cs
    else match segments cs with
      | [] => [[c]]
      | s :: ss => (c :: s) :: ss

/-- A segment without the `\n` or `\r\n` that ends it. -/
def chomp (segment : Text) : Text :=
  match segment.reverse with
  | '\n' :: '\r' :: rest => rest.reverse
  | '\n' :: rest => rest.reverse
  | _ => segment

/-- The lines of a text. -/
def lines (t : Text) : List Text := (segments t).map chomp

/-- The segments put together are the text. -/
@[simp] theorem flatten_segments (t : Text) : (segments t).flatten = t := by
  induction t with
  | nil => rfl
  | cons c cs ih =>
    unfold segments
    split
    · simp [ih]
    · split
      · next h => simp [h] at ih; simp [← ih]
      · next s ss h => rw [h] at ih; simp [← ih]

end Text

end TeachingCpu
