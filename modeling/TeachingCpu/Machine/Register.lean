import TeachingCpu.Machine.Word
/-!
# TeachingCpu.Machine.Register

The six **registers** of the CPU.

`IR` holds an instruction word: its high byte is the opcode and its low byte the operand. `PC`
may be given any word, but stepping it (`Registers.incrementPc`) always leads back into memory.
-/

set_option autoImplicit false

namespace TeachingCpu

/-- A register. -/
inductive Register
  /-- The program counter. -/
  | pc
  /-- The memory address register. -/
  | mar
  /-- The memory data register. -/
  | mdr
  /-- The instruction register. -/
  | ir
  /-- The general purpose register A. -/
  | gpa
  /-- The general purpose register B. -/
  | gpb
deriving DecidableEq, Repr

namespace Register

/-- Every register, in the order in which they are shown. -/
def all : List Register := [.pc, .mar, .mdr, .ir, .gpa, .gpb]

/-- The name of a register. -/
def name : Register → String
  | .pc => "PC"
  | .mar => "MAR"
  | .mdr => "MDR"
  | .ir => "IR"
  | .gpa => "GPA"
  | .gpb => "GPB"

/-- A second, shorter name that some registers go by. -/
def shortNames : Register → List String
  | .gpa => ["A"]
  | .gpb => ["B"]
  | _ => []

/-- The register that a text names, letter case aside. -/
def ofName? (t : Text) : Option Register :=
  all.find? fun r => (r.name :: r.shortNames).any fun n => n.toList == t.upper

end Register

/-- What the registers hold. -/
structure Registers where
  pc : Word := 0
  mar : Word := 0
  mdr : Word := 0
  ir : Word := 0
  gpa : Word := 0
  gpb : Word := 0
deriving DecidableEq, Repr

namespace Registers

/-- The word in a register. -/
def read (r : Registers) : Register → Word
  | .pc => r.pc
  | .mar => r.mar
  | .mdr => r.mdr
  | .ir => r.ir
  | .gpa => r.gpa
  | .gpb => r.gpb

/-- Puts a word into a register. -/
def write (r : Registers) : Register → Word → Registers
  | .pc, w => { r with pc := w }
  | .mar, w => { r with mar := w }
  | .mdr, w => { r with mdr := w }
  | .ir, w => { r with ir := w }
  | .gpa, w => { r with gpa := w }
  | .gpb, w => { r with gpb := w }

/-- Clears a register. -/
def reset (r : Registers) (register : Register) : Registers := r.write register 0

/-- The address that follows a program counter: the next one, or the first after the last, as
also after any word that is no address. -/
def nextPc (pc : Word) : Word := if pc.toNat + 1 < 256 then pc + 1 else 0

/-- Steps the program counter. -/
def incrementPc (r : Registers) : Registers := { r with pc := nextPc r.pc }

/-- The high byte of the instruction register. -/
def opcode (r : Registers) : Byte := r.ir.high

/-- The low byte of the instruction register. -/
def operand (r : Registers) : Byte := r.ir.low

@[simp] theorem read_write_self (r : Registers) (a : Register) (w : Word) :
    (r.write a w).read a = w := by
  cases a <;> rfl

theorem read_write_of_ne (r : Registers) {a b : Register} (w : Word) (h : a ≠ b) :
    (r.write a w).read b = r.read b := by
  cases a <;> cases b <;> simp_all [read, write]

end Registers

end TeachingCpu
