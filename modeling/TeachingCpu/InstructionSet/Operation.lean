import TeachingCpu.Machine.Alu
import TeachingCpu.Machine.Register
/-!
# TeachingCpu.InstructionSet.Operation

**Operations**: what each opcode means.

Opcodes are dense from `0x00` to `0x2D`, in families that vary the addressing mode and the
register; `0xFF` halts. `Operation.opcode` lays the families out and `Operation.decode?` finds
them again by range. Operations that only differ in a circuit without opcodes of its own
(multiplication, division) share the opcode of addition, so only the operations that
`decode?` answers are told apart by their opcodes.
-/

set_option autoImplicit false

namespace TeachingCpu

/-- A general purpose register as instructions name it. -/
inductive Accumulator
  | a
  | b
deriving DecidableEq, Repr

namespace Accumulator

/-- The register behind it. -/
def register : Accumulator → Register
  | .a => .gpa
  | .b => .gpb

/-- The other one. -/
def other : Accumulator → Accumulator
  | .a => .b
  | .b => .a

/-- Its place among the opcodes of a family. -/
def index : Accumulator → Nat
  | .a => 0
  | .b => 1

end Accumulator

/-- Where an instruction that changes a register takes its value from. -/
inductive Mode
  /-- The operand is the value. -/
  | immediate
  /-- The operand is the address of the value. -/
  | direct
  /-- The value is in the other general purpose register. -/
  | register
deriving DecidableEq, Repr

/-- The place of a mode among the opcodes of a family. -/
def Mode.index : Mode → Nat
  | .immediate => 0
  | .direct => 1
  | .register => 2

/-- How a jump names where it goes. -/
inductive Target
  /-- The operand is the address. -/
  | immediate
  /-- The operand is the address of the address. -/
  | direct
deriving DecidableEq, Repr

/-- The place of a target among the opcodes of a family. -/
def Target.index : Target → Nat
  | .immediate => 0
  | .direct => 1

/-- What an instruction does. -/
inductive Operation
  /-- Joins a register with a value through a circuit, into the register. -/
  | compute (circuit : Circuit) (mode : Mode) (dest : Accumulator)
  /-- Subtracts a value from a register for the sake of the flags. -/
  | compare (mode : Mode) (dest : Accumulator)
  /-- Moves a value into a register. -/
  | load (mode : Mode) (dest : Accumulator)
  /-- Moves a register into memory, at the operand or at the address stored there. -/
  | store (indirect : Bool) (src : Accumulator)
  /-- Goes to an address. -/
  | jump (target : Target)
  /-- Goes to an address if a flag is in a state. -/
  | branch (flag : Flag) (state : Bool) (target : Target)
  /-- Ends a run. -/
  | halt
deriving DecidableEq, Repr

/-- The opcode that ends a run. -/
def haltOpcode : Byte := 0xFF

/-- The high byte of the word that gives a program its origin. -/
def originOpcode : Byte := 0x00

/-- The place of a flag among the branch opcodes. -/
def Flag.branchIndex : Flag → Nat
  | .carry => 0
  | .negative => 1
  | .zero => 2
  | .overflow => 3

namespace Operation

/-- The opcode of an operation. -/
def opcode : Operation → Byte
  | .compute .sub mode dest => Fin.ofNat 256 (0x06 + mode.index * 2 + dest.index)
  | .compute _ mode dest => Fin.ofNat 256 (0x00 + mode.index * 2 + dest.index)
  | .compare mode dest => Fin.ofNat 256 (0x0C + mode.index * 2 + dest.index)
  | .load mode dest => Fin.ofNat 256 (0x12 + mode.index * 2 + dest.index)
  | .store indirect src => Fin.ofNat 256 (0x18 + indirect.toNat * 2 + src.index)
  | .jump target => Fin.ofNat 256 (0x1C + target.index)
  | .branch flag state target =>
    Fin.ofNat 256 (0x1E + flag.branchIndex * 4 + (!state).toNat * 2 + target.index)
  | .halt => haltOpcode

/-- The register with an opcode in a family that alternates between both. -/
def accumulatorAt (opcode : Nat) : Accumulator := if opcode % 2 = 0 then .a else .b

/-- The mode of the opcode at a place of a family. -/
def modeAt (place : Nat) : Mode :=
  match place / 2 with
  | 0 => .immediate
  | 1 => .direct
  | _ => .register

/-- The target of the opcode at a place of a family. -/
def targetAt (place : Nat) : Target := if place % 2 = 0 then .immediate else .direct

/-- The flag of the branch opcode at a place. -/
def flagAt (place : Nat) : Flag :=
  match place / 4 with
  | 0 => .carry
  | 1 => .negative
  | 2 => .zero
  | _ => .overflow

/-- The operation with an opcode, if there is one. -/
def decode? (opcode : Byte) : Option Operation :=
  let n := opcode.val
  if n < 0x06 then some (.compute .add (modeAt n) (accumulatorAt n))
  else if n < 0x0C then some (.compute .sub (modeAt (n - 0x06)) (accumulatorAt n))
  else if n < 0x12 then some (.compare (modeAt (n - 0x0C)) (accumulatorAt n))
  else if n < 0x18 then some (.load (modeAt (n - 0x12)) (accumulatorAt n))
  else if n < 0x1C then some (.store (0x1A ≤ n) (accumulatorAt n))
  else if n < 0x1E then some (.jump (targetAt (n - 0x1C)))
  else if n < 0x2E then
    some (.branch (flagAt (n - 0x1E)) ((n - 0x1E) % 4 < 2) (targetAt (n - 0x1E)))
  else if n = 0xFF then some .halt
  else none

set_option maxRecDepth 8000 in
/-- An opcode that decodes is the opcode of what it decodes to. -/
theorem opcode_of_decode? {opcode : Byte} {op : Operation} (h : decode? opcode = some op) :
    op.opcode = opcode := by
  have all : ∀ b : Byte, ∀ o ∈ decode? b, o.opcode = b := by decide
  exact all opcode op h

end Operation

end TeachingCpu
