import TeachingCpu.Text.Lines
/-!
# TeachingCpu.Console.Pieces

The **pieces** of console input: what stands between semicolons and line ends.

A delimiter ends a piece, so input that ends in one has no empty piece after it (`Text.pieces`).
Commands given as an argument are read from one text, commands that are piped in from one line
after the other; both readers (`ArgumentReader`, `PipeReader`) yield a piece at a time, until
there is none.
-/

set_option autoImplicit false

namespace TeachingCpu

namespace Text

/-- Whether a character ends a piece. -/
def endsPiece (c : Char) : Bool := c == '\n' || c == ';'

/-- The pieces of a text. -/
def pieces : Text → List Text
  | [] => []
  | c :: cs =>
    if endsPiece c then [] :: pieces cs
    else match pieces cs with
      | [] => [[c]]
      | p :: ps => (c :: p) :: ps

/-- The first piece of a text. -/
def firstPiece (t : Text) : Text := t.takeWhile (!endsPiece ·)

/-- What follows the first piece of a text and the delimiter after it. -/
def afterPiece (t : Text) : Text := (t.dropWhile (!endsPiece ·)).tail

end Text

/-- A reader of commands that were given as one text. -/
structure ArgumentReader where
  /-- The part of the text that is still to be read. -/
  rest : Text
deriving DecidableEq, Repr

namespace ArgumentReader

/-- The next piece, and the reader after it. -/
def read (r : ArgumentReader) : Option (Text × ArgumentReader) :=
  if r.rest.isEmpty then none
  else some (Text.firstPiece r.rest, ⟨Text.afterPiece r.rest⟩)

/-- Up to `bound` further pieces. -/
def piecesWithin : (bound : Nat) → ArgumentReader → List Text
  | 0, _ => []
  | bound + 1, r =>
    match r.read with
    | none => []
    | some (piece, r) => piece :: piecesWithin bound r

/-- Every piece of a text, as it is read. -/
def pieces (t : Text) : List Text := piecesWithin t.length ⟨t⟩

end ArgumentReader

/-- A reader of commands that are piped in. -/
structure PipeReader where
  /-- The part of the present line that is still to be read. -/
  line : Text := []
  /-- The lines that follow, each with its line feed. -/
  input : List Text
deriving DecidableEq, Repr

namespace PipeReader

/-- The next piece, and the reader after it; a line that is used up is replaced by the next. -/
def read (r : PipeReader) : Option (Text × PipeReader) :=
  if r.line.isEmpty then
    match r.input with
    | [] => none
    | line :: input => some (Text.firstPiece line, ⟨Text.afterPiece line, input⟩)
  else some (Text.firstPiece r.line, ⟨Text.afterPiece r.line, r.input⟩)

/-- Up to `bound` further pieces. -/
def piecesWithin : (bound : Nat) → PipeReader → List Text
  | 0, _ => []
  | bound + 1, r =>
    match r.read with
    | none => []
    | some (piece, r) => piece :: piecesWithin bound r

/-- Every piece of piped input, as it is read. -/
def pieces (t : Text) : List Text := piecesWithin t.length { input := Text.segments t }

end PipeReader

end TeachingCpu
