import TeachingCpu.Assembly.Defect
import TeachingCpu.InstructionSet.Operation
import TeachingCpu.Text.Numeral
/-!
# TeachingCpu.Assembly.Operand

**Operands** of the assembly language, and the numbers in them.

A number is `$` and hexadecimal digits or `^` and decimal digits, any number of them, and must
be below 256. It is an address by itself, a value after `#`, and the address of an address
between parentheses.
-/

set_option autoImplicit false

namespace TeachingCpu

/-- The number written by digits, which must fit into a byte. -/
def Operand.ofDigits (base : Nat) (digits : Text) : Except Defect Byte :=
  match Numeral.read? base digits with
  | none => .error .invalidNumber
  | some n =>
    match Byte.ofNat? n with
    | some b => .ok b
    | none => .error .addressTooLarge

/-- An operand, by addressing mode. -/
inductive Operand
  /-- A value. -/
  | immediate (n : Byte)
  /-- The address of a value. -/
  | direct (address : Byte)
  /-- The address of the address of a value. -/
  | indirect (address : Byte)
  /-- A register. -/
  | register (r : Accumulator)
deriving DecidableEq, Repr

namespace Operand

/-- The number that a text writes. -/
def number : Text → Except Defect Byte
  | '$' :: digits => ofDigits 16 digits
  | '^' :: digits => ofDigits 10 digits
  | _ => .error .invalidNumber

/-- The operand that a text writes. -/
def ofText (t : Text) : Except Defect Operand :=
  match t with
  | ['A'] => .ok (.register .a)
  | ['B'] => .ok (.register .b)
  | '#' :: rest => (number rest).map .immediate
  | '$' :: _ => (number t).map .direct
  | '^' :: _ => (number t).map .direct
  | '(' :: rest =>
    if rest.getLast? = some ')' then (number rest.dropLast).map .indirect
    else .error (.invalidOperand t)
  | _ => .error (.invalidOperand t)

/-- The text that writes a value. -/
def immediateText (n : Byte) : Text := '#' :: '$' :: n.hex

end Operand

end TeachingCpu
