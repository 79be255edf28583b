import TeachingCpu.Text.Basic
/-!
# TeachingCpu.Text.Numeral

**Numerals**: digits of a base up to 16, read without regard to letter case.

Numbers are read into `Nat` without a bound, so "too large" is always a comparison made after
reading and never a failure to read. Two printers stand beside the reader: `fixed` writes exactly
as many digits as asked (hex words), `padded` writes at least that many (addresses in messages).
-/

set_option autoImplicit false

namespace TeachingCpu

namespace Numeral

/-- The value of a digit in some base up to 16: an ASCII digit or a letter from `a` to `f`. -/
def digitValue (c : Char) : Option Nat :=
  if '0' ≤ c ∧ c ≤ '9' then some (c.toNat - '0'.toNat)
  else if 'a' ≤ c ∧ c ≤ 'f' then some (c.toNat - 'a'.toNat + 10)
  else if 'A' ≤ c ∧ c ≤ 'F' then some (c.toNat - 'A'.toNat + 10)
  else none

/-- The value of a digit in base `base`, if it is one. -/
def digit? (base : Nat) (c : Char) : Option Nat :=
  (digitValue c).filter (· < base)

/-- Whether a character is a digit in base `base`. -/
def isDigit (base : Nat) (c : Char) : Bool := (digit? base c).isSome

/-- The number that digits in base `base` denote, the most significant first; a character that
is no digit counts as zero. -/
def value (base : Nat) (digits : Text) : Nat :=
  digits.foldl (fun n c => n * base + (digit? base c).getD 0) 0

/-- The number written by a text of one or more digits in base `base`. -/
def read? (base : Nat) (t : Text) : Option Nat :=
  if t.isEmpty || !t.all (isDigit base) then none else some (value base t)

/-- The number written by a text of one or more digits after an optional plus sign. -/
def readSigned? (base : Nat) : Text → Option Nat
  | '+' :: digits => read? base digits
  | t => read? base t

/-- The small digit of value `d`, for `d` below 16. -/
def smallDigit (d : Nat) : Char := Nat.digitChar d

/-- The capital digit of value `d`, for `d` below 16. -/
def capitalDigit (d : Nat) : Char := (Nat.digitChar d).toUpper

/-- The last `width` digits of `n` in base `base`, leading zeros included. -/
def fixed (digit : Nat → Char) (base : Nat) : (width n : Nat) → Text
  | 0, _ => []
  | width + 1, n => fixed digit base width (n / base) ++ [digit (n % base)]

/-- All hexadecimal digits of `n` in small letters, at least `width` of them. -/
def padded (width n : Nat) : Text := Text.padLeft width '0' (Nat.toDigits 16 n)

/-- The decimal digits of `n`. -/
def decimal (n : Nat) : Text := Nat.toDigits 10 n

end Numeral

end TeachingCpu
