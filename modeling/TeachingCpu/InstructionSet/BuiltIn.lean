import TeachingCpu.InstructionSet.Table
/-!
# TeachingCpu.InstructionSet.BuiltIn

The **built-in instruction set**: an entry for every opcode that means something.
-/

set_option autoImplicit false

namespace TeachingCpu

/-- The instruction set used where no other is given. -/
def InstructionSet.builtIn : InstructionSet :=
  .ofDistinct [
    ⟨0x00, "ADD #n,A", "Add an immediate value to GPA"⟩,
    ⟨0x01, "ADD #n,B", "Add an immediate value to GPB"⟩,
    ⟨0x02, "ADD addr,A", "Add the value at a memory address to GPA"⟩,
    ⟨0x03, "ADD addr,B", "Add the value at a memory address to GPB"⟩,
    ⟨0x04, "ADD B,A", "Add GPB to GPA"⟩,
    ⟨0x05, "ADD A,B", "Add GPA to GPB"⟩,
    ⟨0x06, "SUB #n,A", "Subtract an immediate value from GPA"⟩,
    ⟨0x07, "SUB #n,B", "Subtract an immediate value from GPB"⟩,
    ⟨0x08, "SUB addr,A", "Subtract the value at a memory address from GPA"⟩,
    ⟨0x09, "SUB addr,B", "Subtract the value at a memory address from GPB"⟩,
    ⟨0x0A, "SUB B,A", "Subtract GPB from GPA"⟩,
    ⟨0x0B, "SUB A,B", "Subtract GPA from GPB"⟩,
    ⟨0x0C, "CMP #n,A", "Compare an immediate value with GPA"⟩,
    ⟨0x0D, "CMP #n,B", "Compare an immediate value with GPB"⟩,
    ⟨0x0E, "CMP addr,A", "Compare the value at a memory address with GPA"⟩,
    ⟨0x0F, "CMP addr,B", "Compare the value at a memory address with GPB"⟩,
    ⟨0x10, "CMP B,A", "Compare GPB with GPA"⟩,
    ⟨0x11, "CMP A,B", "Compare GPA with GPB"⟩,
    ⟨0x12, "MOVE #n,A", "Move an immediate value into GPA"⟩,
    ⟨0x13, "MOVE #n,B", "Move an immediate value into GPB"⟩,
    ⟨0x14, "MOVE addr,A", "Move the value at a memory address into GPA"⟩,
    ⟨0x15, "MOVE addr,B", "Move the value at a memory address into GPB"⟩,
    ⟨0x16, "MOVE B,A", "Copy GPB into GPA"⟩,
    ⟨0x17, "MOVE A,B", "Copy GPA into GPB"⟩,
    ⟨0x18, "MOVE A,addr", "Store GPA at a memory address"⟩,
    ⟨0x19, "MOVE B,addr", "Store GPB at a memory address"⟩,
    ⟨0x1A, "MOVE A,(addr)", "Store GPA at the address held in memory"⟩,
    ⟨0x1B, "MOVE B,(addr)", "Store GPB at the address held in memory"⟩,
    ⟨0x1C, "JMP #n", "Jump to an address"⟩,
    ⟨0x1D, "JMP addr", "Jump to the address held in memory"⟩,
    ⟨0x1E, "BCS #n", "Branch to an address if CARRY is set"⟩,
    ⟨0x1F, "BCS addr", "Branch to the address held in memory if CARRY is set"⟩,
    ⟨0x20, "BCC #n", "Branch to an address if CARRY is clear"⟩,
    ⟨0x21, "BCC addr", "Branch to the address held in memory if CARRY is clear"⟩,
    ⟨0x22, "BNS #n", "Branch to an address if NEGATIVE is set"⟩,
    ⟨0x23, "BNS addr", "Branch to the address held in memory if NEGATIVE is set"⟩,
    ⟨0x24, "BNC #n", "Branch to an address if NEGATIVE is clear"⟩,
    ⟨0x25, "BNC addr", "Branch to the address held in memory if NEGATIVE is clear"⟩,
    ⟨0x26, "BZS #n", "Branch to an address if ZERO is set"⟩,
    ⟨0x27, "BZS addr", "Branch to the address held in memory if ZERO is set"⟩,
    ⟨0x28, "BZC #n", "Branch to an address if ZERO is clear"⟩,
    ⟨0x29, "BZC addr", "Branch to the address held in memory if ZERO is clear"⟩,
    ⟨0x2A, "BVS #n", "Branch to an address if OVERFLOW is set"⟩,
    ⟨0x2B, "BVS addr", "Branch to the address held in memory if OVERFLOW is set"⟩,
    ⟨0x2C, "BVC #n", "Branch to an address if OVERFLOW is clear"⟩,
    ⟨0x2D, "BVC addr", "Branch to the address held in memory if OVERFLOW is clear"⟩,
    ⟨0xFF, "HALT", "Stop the processor"⟩] (by decide)

end TeachingCpu
