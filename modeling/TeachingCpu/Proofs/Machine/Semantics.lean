import TeachingCpu.Machine.Cpu
import TeachingCpu.Proofs.Machine.Arithmetic
/-!
# TeachingCpu.Proofs.Machine.Semantics

The **meaning of instructions** in one step, as a programmer reads the instruction set.

`Visible` is the part of the processor that programs are written against: the program counter,
the instruction register, both general purpose registers, memory, the flags and the current
instruction. MAR, MDR, the memory pointer and the latches of the arithmetic unit are left out, so
a semantics on `Visible` cannot depend on what they held before. Sums, differences and flags are
said of exact numbers (`Circuit.joined`, `Circuit.flag`), the rest in the terms of memory and bits.

An instruction can fail only by storing through a pointer that is no address
(`Operation.effect`); a division by zero is possible for circuits without opcodes alone
(`Operation.effect_eq_error_iff`).
-/

set_option autoImplicit false

namespace TeachingCpu

/-! ### The visible state -/

/-- What a program can rely on of the processor. -/
structure Visible where
  pc : Word
  ir : Word
  gpa : Word
  gpb : Word
  /-- The words of memory, by address. -/
  memory : Vector Word 256
  status : Status
  /-- The instruction decoded last. -/
  current : Option Instruction

/-- The visible part of a processor state. -/
def Cpu.visible (cpu : Cpu) : Visible where
  pc := cpu.registers.pc
  ir := cpu.registers.ir
  gpa := cpu.registers.gpa
  gpb := cpu.registers.gpb
  memory := cpu.memory.slots
  status := cpu.status
  current := cpu.current

namespace Visible

/-- The word in a general purpose register. -/
def read (s : Visible) : Accumulator → Word
  | .a => s.gpa
  | .b => s.gpb

/-- Puts a word into a general purpose register. -/
def write (s : Visible) : Accumulator → Word → Visible
  | .a, w => { s with gpa := w }
  | .b, w => { s with gpb := w }

/-- The word at an address. -/
def load (s : Visible) (address : Byte) : Word := s.memory.get address

/-- Replaces the word at an address. -/
def store (s : Visible) (address : Byte) (word : Word) : Visible :=
  { s with memory := s.memory.setIfInBounds address word }

/-- The word that an instruction with operand `n` joins with the register `dest`. -/
def argument (s : Visible) (n : Byte) (dest : Accumulator) : Mode → Word
  | .immediate => BitVec.ofNat 16 n
  | .direct => s.load n
  | .register =>
    match dest with
    | .a => s.gpb
    | .b => s.gpa

/-- Where a jump with operand `n` goes. -/
def destination (s : Visible) (n : Byte) : Target → Word
  | .immediate => BitVec.ofNat 16 n
  | .direct => s.load n

/-- Puts all flags into the states that joining two words leaves. -/
def withFlags (s : Visible) (circuit : Circuit) (x y : Word) : Visible :=
  { s with status := s.status.withFlags (circuit.flag x y) }

/-- The state of a flag, by its place from the lowest bit on. -/
def flag (s : Visible) : Flag → Bool
  | .carry => s.status.bits.getLsbD 0
  | .zero => s.status.bits.getLsbD 1
  | .negative => s.status.bits.getLsbD 2
  | .overflow => s.status.bits.getLsbD 3

/-- The state in which an instruction word takes effect: the program counter is at the next
address, or at the first after the last, the word is in the instruction register, and its table
entry is current. -/
def fetched (s : Visible) (word : Word) (entry : Instruction) : Visible :=
  { s with pc := BitVec.ofNat 16 ((s.pc.toNat + 1) % 256), ir := word, current := some entry }

theorem flag_eq_get (s : Visible) (f : Flag) : s.flag f = s.status.get f := by
  cases f <;> rfl

end Visible

/-- From an address the program counter steps to the next one, and from the last to the first. -/
theorem Registers.nextPc_of_lt {pc : Word} (h : pc.toNat < 256) :
    nextPc pc = BitVec.ofNat 16 ((pc.toNat + 1) % 256) := by
  have hone : (1 : Word).toNat = 1 := rfl
  have hzero : (0 : Word).toNat = 0 := rfl
  apply BitVec.eq_of_toNat_eq
  rw [nextPc, BitVec.toNat_ofNat]
  by_cases hlast : pc.toNat + 1 < 256
  · rw [if_pos hlast, BitVec.toNat_add, hone]
    omega
  · rw [if_neg hlast, hzero]
    omega

/-! ### The effect of an operation -/

/-- What an operation with operand `n` makes of a visible state. -/
def Operation.effect (n : Byte) (s : Visible) : Operation → Except Fault Visible
  | .compute circuit mode dest =>
    let x := s.read dest
    let y := s.argument n dest mode
    if circuit = .div ∧ y = 0 then .error .divisionByZero
    else .ok ((s.write dest (circuit.joined x y)).withFlags circuit x y)
  | .compare mode dest => .ok (s.withFlags .sub (s.read dest) (s.argument n dest mode))
  | .load mode dest => .ok (s.write dest (s.argument n dest mode))
  | .store false src => .ok (s.store n (s.read src))
  | .store true src =>
    let pointer := s.load n
    if h : pointer.toNat < 256 then .ok (s.store ⟨pointer.toNat, h⟩ (s.read src))
    else .error (.memory (.addressOutOfRange pointer))
  | .jump target => .ok { s with pc := s.destination n target }
  | .branch flag state target =>
    .ok (if s.flag flag = state then { s with pc := s.destination n target } else s)
  | .halt => .ok s

@[simp] theorem Visible.write_current (s : Visible) (dest : Accumulator) (w : Word) :
    (s.write dest w).current = s.current := by
  cases dest <;> rfl

/-- Only decoding changes the current instruction. -/
theorem Operation.current_of_effect {op : Operation} {n : Byte} {s after : Visible}
    (h : op.effect n s = .ok after) : after.current = s.current := by
  cases op with
  | compute circuit mode dest =>
      rw [effect] at h
      split at h <;> cases h
      exact s.write_current dest _
  | store indirect src =>
      cases indirect with
      | false =>
          cases h
          rfl
      | true =>
          rw [effect] at h
          split at h <;> cases h
          rfl
  | load mode dest =>
      cases h
      exact s.write_current dest _
  | branch flag state target =>
      cases h
      split <;> rfl
  | _ =>
      cases h
      rfl

/-- Of the circuits, opcodes select addition and subtraction alone. -/
theorem Operation.circuit_of_decode? {opcode : Byte} {circuit : Circuit} {mode : Mode}
    {dest : Accumulator} (h : decode? opcode = some (.compute circuit mode dest)) :
    circuit = .add ∨ circuit = .sub := by
  simp only [decode?] at h
  repeat' split at h
  all_goals simp_all

/-- An operation with an opcode fails exactly by storing through a pointer past memory. -/
theorem Operation.effect_eq_error_iff {opcode : Byte} {op : Operation}
    (h : decode? opcode = some op) {n : Byte} {s : Visible} {fault : Fault} :
    op.effect n s = .error fault ↔
      (∃ src, op = .store true src ∧ 256 ≤ (s.load n).toNat) ∧
        fault = .memory (.addressOutOfRange (s.load n)) := by
  cases op with
  | compute circuit mode dest =>
      obtain rfl | rfl := circuit_of_decode? h <;> simp [effect]
  | store indirect src =>
      cases indirect with
      | false => simp [effect]
      | true =>
          by_cases hpointer : (s.load n).toNat < 256
          · simp [effect, hpointer]
          · have hle : 256 ≤ (s.load n).toNat := by omega
            rw [effect, dif_neg hpointer]
            simp [hle, eq_comm]
  | _ => simp [effect]

end TeachingCpu
