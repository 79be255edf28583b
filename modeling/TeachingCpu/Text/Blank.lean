import TeachingCpu.Text.Basic
/-!
# TeachingCpu.Text.Blank

**White space** as Unicode defines it, and the trimming that rests on it.

The property `White_Space` holds of twenty-five characters. Core's `Char.isWhitespace` knows
four of them, so the table stands here; `isBlank_of_isWhitespace` says that it extends core's.
-/

set_option autoImplicit false

namespace TeachingCpu

namespace Text

/-- The ranges of code points with the Unicode property `White_Space`, both ends included. -/
def blankRanges : List (Nat × Nat) :=
  [(0x09, 0x0D), (0x20, 0x20), (0x85, 0x85), (0xA0, 0xA0), (0x1680, 0x1680), (0x2000, 0x200A),
   (0x2028, 0x2029), (0x202F, 0x202F), (0x205F, 0x205F), (0x3000, 0x3000)]

/-- Whether a character is white space. -/
def isBlank (c : Char) : Bool :=
  blankRanges.any fun (first, last) => first ≤ c.toNat && c.toNat ≤ last

/-- The text without the white space it starts with. -/
def trimStart (t : Text) : Text := t.dropWhile isBlank

/-- The text without the white space it ends with. -/
def trimEnd (t : Text) : Text := (t.reverse.dropWhile isBlank).reverse

/-- The text without the white space at both ends. -/
def trim (t : Text) : Text := trimEnd (trimStart t)

/-- One character more before the words found so far; `growing` tells whether the first of them
may still grow. -/
def addToWords (c : Char) : Bool × List Text → Bool × List Text
  | (growing, words) =>
    if isBlank c then (false, words)
    else match growing, words with
      | true, w :: ws => (true, (c :: w) :: ws)
      | _, _ => (true, [c] :: words)

/-- The words of a text: its longest runs of characters other than white space, in order. -/
def words (t : Text) : List Text := (t.foldr addToWords (false, [])).2

/-- What core calls white space is white space. -/
theorem isBlank_of_isWhitespace {c : Char} (h : c.isWhitespace = true) : isBlank c = true := by
  simp only [Char.isWhitespace, Bool.or_eq_true, decide_eq_true_eq] at h
  rcases h with ((rfl | rfl) | rfl) | rfl <;> decide

end Text

end TeachingCpu
