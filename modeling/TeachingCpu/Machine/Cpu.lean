import TeachingCpu.InstructionSet.Table
import TeachingCpu.Machine.Memory
import TeachingCpu.Machine.MicroOp
/-!
# TeachingCpu.Machine.Cpu

The **processor state** and the effect of a micro-instruction on it.

The state is one value, so a phase that fails can be undone by keeping the state of before. A
micro-instruction either yields a new state or a `Fault`; whether the phase goes on after it is a
separate question (`MicroOp.passes`), which only a guard can answer with no.
-/

set_option autoImplicit false

namespace TeachingCpu

/-- Why an engine refuses or abandons an operation. -/
inductive Fault
  /-- Another phase is under way. -/
  | busy
  /-- The instruction set, or the machine, has no instruction with the opcode. -/
  | invalidInstruction (opcode : Byte)
  /-- Memory refuses an access. -/
  | memory (error : MemoryError)
  /-- The divisor is zero. -/
  | divisionByZero
  /-- A program image does not begin with an origin word. -/
  | missingOrigin
deriving DecidableEq, Repr

/-- The text of a fault. -/
def Fault.message : Fault → String
  | .busy => "Engine is busy with another cycle"
  | .invalidInstruction opcode =>
    let digits := String.ofList (Numeral.padded 2 opcode)
    s!"No instruction has opcode 0x{digits}"
  | .memory error => error.message
  | .divisionByZero => WordError.divisionByZero.message
  | .missingOrigin => "Program image must begin with an ORG word"

/-- The complete state of the processor. -/
structure Cpu where
  memory : Memory := {}
  registers : Registers := {}
  alu : Alu := {}
  status : Status := {}
  /-- The instruction decoded last. -/
  current : Option Instruction := none
deriving DecidableEq

namespace Cpu

/-- The word that a source holds. -/
def value (cpu : Cpu) : Source → Word
  | .register r => cpu.registers.read r
  | .operand => Word.ofByte cpu.registers.operand

/-- Whether the current instruction ends a run. -/
def halted (cpu : Cpu) : Bool :=
  match cpu.current with
  | some i => i.id == haltOpcode
  | none => false

/-- Moves a word into a register. -/
def put (cpu : Cpu) (dest : Register) (word : Word) : Cpu :=
  { cpu with registers := cpu.registers.write dest word }

end Cpu

namespace MicroOp

/-- The state after a micro-instruction, instructions being looked up in `table`. -/
def apply (table : InstructionSet) (cpu : Cpu) : MicroOp → Except Fault Cpu
  | .transfer source dest => .ok (cpu.put dest (cpu.value source))
  | .incrementPc => .ok { cpu with registers := cpu.registers.incrementPc }
  | .selectAddress =>
    match cpu.memory.setPointer cpu.registers.mar with
    | .ok memory => .ok { cpu with memory }
    | .error error => .error (.memory error)
  | .readMemory => .ok (cpu.put .mdr cpu.memory.readAtPointer)
  | .writeMemory => .ok { cpu with memory := cpu.memory.writeAtPointer cpu.registers.mdr }
  | .lookup =>
    match table.lookup cpu.registers.opcode with
    | some instruction => .ok { cpu with current := some instruction }
    | none => .error (.invalidInstruction cpu.registers.opcode)
  | .setCircuit circuit => .ok { cpu with alu := { cpu.alu with circuit } }
  | .loadX source => .ok { cpu with alu := { cpu.alu with x := cpu.value source } }
  | .loadY source => .ok { cpu with alu := { cpu.alu with y := cpu.value source } }
  | .compute =>
    match cpu.alu.compute cpu.status with
    | .ok (alu, status) => .ok { cpu with alu, status }
    | .error _ => .error .divisionByZero
  | .storeZ dest => .ok (cpu.put dest cpu.alu.z)
  | .guard _ _ => .ok cpu

/-- Whether a phase goes on after a micro-instruction. -/
def passes (cpu : Cpu) : MicroOp → Bool
  | .guard flag state => cpu.status.get flag == state
  | _ => true

end MicroOp

end TeachingCpu
