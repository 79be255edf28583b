import TeachingCpu.InstructionSet.Operation
/-!
# TeachingCpu.Machine.MicroOp

**Micro-instructions**: the steps that every phase of the instruction cycle is made of.

Each moves one word between registers, memory and the arithmetic unit, or decides whether the
rest of its phase happens (`MicroOp.guard`). The micro-programs below are the only place that
says in which order: the program counter is copied before it is stepped, and a value read from
memory reaches the arithmetic unit before the register that it is joined with.
-/

set_option autoImplicit false

namespace TeachingCpu

/-- Where a word that is moved comes from. -/
inductive Source
  /-- A register. -/
  | register (r : Register)
  /-- The low byte of the instruction register. -/
  | operand
deriving DecidableEq, Repr

/-- The name of a source. -/
def Source.name : Source → String
  | .register r => r.name
  | .operand => "IR.operand"

/-- A micro-instruction. -/
inductive MicroOp
  /-- Moves a word into a register. -/
  | transfer (source : Source) (dest : Register)
  /-- Steps the program counter. -/
  | incrementPc
  /-- Points memory at the address in MAR. -/
  | selectAddress
  /-- Reads the word pointed at into MDR. -/
  | readMemory
  /-- Writes MDR to where memory points. -/
  | writeMemory
  /-- Makes the table entry of the opcode in IR the current instruction. -/
  | lookup
  /-- Selects a circuit. -/
  | setCircuit (circuit : Circuit)
  /-- Moves a word into the left input of the arithmetic unit. -/
  | loadX (source : Source)
  /-- Moves a word into the right input of the arithmetic unit. -/
  | loadY (source : Source)
  /-- Lets the arithmetic unit compute. -/
  | compute
  /-- Moves the output of the arithmetic unit into a register. -/
  | storeZ (dest : Register)
  /-- Ends the phase here unless a flag is in a state. -/
  | guard (flag : Flag) (state : Bool)
deriving DecidableEq, Repr

namespace MicroOp

/-- The text that stands for a micro-instruction in the log. -/
def text : MicroOp → String
  | .transfer source dest => s!"{dest.name} <- {source.name}"
  | .incrementPc => "PC <- PC + 1"
  | .selectAddress => "POINTER <- MAR"
  | .readMemory => "MDR <- MEMORY[POINTER]"
  | .writeMemory => "MEMORY[POINTER] <- MDR"
  | .lookup => "CURRENT <- ISA[IR.opcode]"
  | .setCircuit circuit => s!"ALU circuit <- {circuit.name}"
  | .loadX source => s!"ALU.x <- {source.name}"
  | .loadY source => s!"ALU.y <- {source.name}"
  | .compute => "ALU.z <- ALU.x op ALU.y"
  | .storeZ dest => s!"{dest.name} <- ALU.z"
  | .guard flag state => s!"continue if {flag.name} == {state.toNat}"

/-! ### Micro-programs -/

/-- Reads the next instruction word into MDR and steps the program counter. -/
def fetch : List MicroOp :=
  [.transfer (.register .pc) .mar, .incrementPc, .selectAddress, .readMemory]

/-- Moves the word read into IR and finds its instruction. -/
def decode : List MicroOp := [.transfer (.register .mdr) .ir, .lookup]

/-- Reads the word at the address in the operand into MDR. -/
def readOperand : List MicroOp := [.transfer .operand .mar, .selectAddress, .readMemory]

/-- Goes to an address. -/
def jump : Target → List MicroOp
  | .immediate => [.transfer .operand .pc]
  | .direct => readOperand ++ [.transfer (.register .mdr) .pc]

/-- Joins a register with a value, leaving the result in the arithmetic unit. -/
def join (circuit : Circuit) (mode : Mode) (dest : Accumulator) : List MicroOp :=
  let x := MicroOp.loadX (.register dest.register)
  .setCircuit circuit :: (match mode with
    | .immediate => [x, .loadY .operand]
    | .direct => readOperand ++ [.loadY (.register .mdr), x]
    | .register => [x, .loadY (.register dest.other.register)]) ++ [.compute]

/-- Joins both general purpose registers through any circuit, into the first. -/
def operate (circuit : Circuit) : List MicroOp :=
  [.setCircuit circuit, .loadX (.register .gpa), .loadY (.register .gpb), .compute, .storeZ .gpa]

end MicroOp

/-- The micro-instructions that carry out an operation. -/
def Operation.microProgram : Operation → List MicroOp
  | .compute circuit mode dest => MicroOp.join circuit mode dest ++ [.storeZ dest.register]
  | .compare mode dest => MicroOp.join .sub mode dest
  | .load .immediate dest => [.transfer .operand dest.register]
  | .load .direct dest => MicroOp.readOperand ++ [.transfer (.register .mdr) dest.register]
  | .load .register dest => [.transfer (.register dest.other.register) dest.register]
  | .store indirect src =>
    [.transfer .operand .mar] ++
    (if indirect then [.selectAddress, .readMemory, .transfer (.register .mdr) .mar] else []) ++
    [.transfer (.register src.register) .mdr, .selectAddress, .writeMemory]
  | .jump target => MicroOp.jump target
  | .branch flag state target => .guard flag state :: MicroOp.jump target
  | .halt => []

end TeachingCpu
