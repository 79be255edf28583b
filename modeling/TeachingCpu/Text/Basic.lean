/-!
# TeachingCpu.Text.Basic

**Text** is a list of characters: source lines, console commands and hex images are read by
recursion on it, and only finished messages become a `String`.

Design points:

* Positions in a text that are shown to the user count **UTF-8 bytes** (`Text.byteLength`),
  while everything else counts characters.
* Letter case is folded over **ASCII only** (`Text.lower`, `Text.upper`), so a name such as
  `ir` never matches a letter outside ASCII that merely looks like it.
-/

set_option autoImplicit false

namespace TeachingCpu

/-- A text: its characters in order. -/
abbrev Text := List Char

namespace Text

/-- The number of bytes of a text in UTF-8. -/
def byteLength : Text → Nat
  | [] => 0
  | c :: t => c.utf8Size + byteLength t

/-- The text with its ASCII capital letters made small. -/
def lower (t : Text) : Text := t.map Char.toLower

/-- The text with its ASCII small letters made capital. -/
def upper (t : Text) : Text := t.map Char.toUpper

/-- The rest of a text that begins with `head`. -/
def afterHead? : (head t : Text) → Option Text
  | [], t => some t
  | _ :: _, [] => none
  | h :: hs, c :: cs => if h = c then afterHead? hs cs else none

/-- The text filled up on the left with `fill` to at least `width` characters. -/
def padLeft (width : Nat) (fill : Char) (t : Text) : Text :=
  List.replicate (width - t.length) fill ++ t

/-- The text filled up on the right with blanks to at least `width` characters. -/
def padRight (width : Nat) (t : Text) : Text :=
  t ++ List.replicate (width - t.length) ' '

@[simp] theorem byteLength_nil : byteLength [] = 0 := rfl

@[simp] theorem byteLength_cons (c : Char) (t : Text) :
    byteLength (c :: t) = c.utf8Size + byteLength t := rfl

@[simp] theorem byteLength_append (s t : Text) :
    byteLength (s ++ t) = byteLength s + byteLength t := by
  induction s with
  | nil => simp
  | cons c s ih => simp [ih, Nat.add_assoc]

/-- `afterHead?` finds exactly the splittings that start with `head`. -/
theorem afterHead?_eq_some_iff {head t rest : Text} :
    afterHead? head t = some rest ↔ t = head ++ rest := by
  induction head generalizing t with
  | nil => simp [afterHead?]
  | cons h hs ih =>
    cases t with
    | nil => simp [afterHead?]
    | cons c cs =>
      by_cases hc : h = c
      · simp [afterHead?, hc, ih]
      · simp [afterHead?, hc, Ne.symm hc]

end Text

end TeachingCpu
