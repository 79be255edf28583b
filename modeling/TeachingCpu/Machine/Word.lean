import TeachingCpu.Text.Numeral
/-!
# TeachingCpu.Machine.Word

**Words** of 16 bits and their **bytes**, and the arithmetic of the ALU on them.

Design points:

* A word is a `BitVec 16`; its two readings as a number are core's `toNat` (unsigned) and
  `toInt` (two's complement).
* A byte is a `Fin 256`, because a byte is above all an index here: into memory, and into the
  instruction set.
* Each arithmetic function answers the wrapped word together with the two facts that wrapping
  loses (`Computed`): whether the unsigned and the signed result left their ranges. All of it is
  read off results in 32 bits, which lose nothing (`Circuit.toInt_onBits_signExtend`,
  `Circuit.toNat_onBits_setWidth`).
-/

set_option autoImplicit false

namespace TeachingCpu

/-- A byte: an opcode, an operand or an address of memory. -/
abbrev Byte := Fin 256

/-- There are bytes, so numerals can denote them. -/
instance Byte.size_neZero : @NeZero Nat Zero.ofOfNat0 256 := ⟨Nat.succ_ne_zero 255⟩

/-- A machine word. -/
abbrev Word := BitVec 16

/-- What can go wrong with words themselves. -/
inductive WordError
  /-- A text that is not one to four hexadecimal digits. -/
  | invalidNumberFormat (input : Text)
  /-- A division by the word zero. -/
  | divisionByZero
deriving DecidableEq, Repr

/-- The text of a word error. -/
def WordError.message : WordError → String
  | .invalidNumberFormat input => s!"Unrecognised number format: `{String.ofList input}`"
  | .divisionByZero => "Attempted to divide by zero"

/-- The two capital hexadecimal digits of a byte. -/
def Byte.hex (b : Byte) : Text := Numeral.fixed Numeral.capitalDigit 16 2 b

/-- The byte a number is, if it is below 256. -/
def Byte.ofNat? (n : Nat) : Option Byte := if h : n < 256 then some ⟨n, h⟩ else none

namespace Word

/-- The word with the given high and low bytes. -/
def ofBytes (high low : Byte) : Word := BitVec.ofNat 16 (high * 256 + low : Nat)

/-- A byte as a word, its high byte zero. -/
def ofByte (low : Byte) : Word := BitVec.ofNat 16 low

/-- The eight high bits of a word. -/
def high (w : Word) : Byte := ⟨w.toNat / 256, by have := w.isLt; omega⟩

/-- The eight low bits of a word. -/
def low (w : Word) : Byte := ⟨w.toNat % 256, by omega⟩

/-- The memory address a word names, if it names one. -/
def address? (w : Word) : Option Byte := Byte.ofNat? w.toNat

/-- Whether a word is negative as a two's complement number. -/
def isNegative (w : Word) : Bool := w.msb

/-- The four capital hexadecimal digits of a word. -/
def hex (w : Word) : Text := Numeral.fixed Numeral.capitalDigit 16 4 w.toNat

/-- The word written by one to four hexadecimal digits. -/
def ofHex? (t : Text) : Option Word :=
  if t.length ≤ 4 then (Numeral.read? 16 t).map (BitVec.ofNat 16) else none

/-- The word written by one to four hexadecimal digits, or the reason why there is none. -/
def ofHex (t : Text) : Except WordError Word :=
  match ofHex? t with
  | some w => .ok w
  | none => .error (.invalidNumberFormat t)

end Word

/-! ### Arithmetic -/

/-- A result of the ALU: the word and the ranges its exact value left. -/
structure Computed where
  /-- The exact result modulo 2^16. -/
  word : Word
  /-- Whether the exact unsigned result is outside 0 … 65535. -/
  carry : Bool
  /-- Whether the exact signed result is outside -32768 … 32767. -/
  overflow : Bool
deriving DecidableEq, Repr

namespace Word

/-- Whether a number is outside the range of signed words. -/
def leavesSigned (n : Int) : Bool := n < -32768 || 32767 < n

/-- The sum of two words. -/
def add (x y : Word) : Computed :=
  let signed := x.signExtend 32 + y.signExtend 32
  let unsigned := x.setWidth 32 + y.setWidth 32
  { word := signed.setWidth 16
    carry := 65535 < unsigned.toNat
    overflow := leavesSigned signed.toInt }

/-- The difference of two words; its carry is the borrow. -/
def subtract (x y : Word) : Computed :=
  let signed := x.signExtend 32 - y.signExtend 32
  { word := signed.setWidth 16
    carry := x.toNat < y.toNat
    overflow := leavesSigned signed.toInt }

/-- The product of two words. -/
def multiply (x y : Word) : Computed :=
  let signed := x.signExtend 32 * y.signExtend 32
  let unsigned := x.setWidth 32 * y.setWidth 32
  { word := signed.setWidth 16
    carry := 65535 < unsigned.toNat
    overflow := leavesSigned signed.toInt }

/-- The signed quotient of two words, rounded toward zero. It never carries, and leaves the
signed range only for -32768 divided by -1. -/
def divide (x y : Word) : Except WordError Computed :=
  if y = 0 then .error .divisionByZero
  else
    let signed := (x.signExtend 32).sdiv (y.signExtend 32)
    .ok {
      word := signed.setWidth 16
      carry := false
      overflow := leavesSigned signed.toInt }

end Word

end TeachingCpu
