import TeachingCpu.Proofs.Machine.Semantics
import TeachingCpu.Proofs.Machine.Word
/-!
# TeachingCpu.Proofs.Machine.MicroProgram

**Micro-programs** as functions of the processor state.

`MicroOp.perform` is the effect of micro-instructions in a row, without an engine around them.
A program is carried out by rewriting with one equation per micro-instruction, of the form
`perform table (op :: rest) cpu = perform table rest cpu'`; the fragments that several programs
share (`readOperand`, `join`, `jump`) get an equation of the same form, so that a program is
never taken apart twice.

The only micro-instructions with more than one outcome are `selectAddress` (the address may be
past memory), `lookup` (the table may lack the opcode), `compute` (the divisor may be zero) and
`guard` (the rest may be left out).
-/

set_option autoImplicit false

namespace TeachingCpu

/-! ### Micro-instructions in a row -/

namespace MicroOp

variable {table : InstructionSet}

/-- The state that micro-instructions in a row leave, or the fault of the first one that fails.
A guard that fails leaves out the rest. -/
def perform (table : InstructionSet) : List MicroOp → Cpu → Except Fault Cpu
  | [], cpu => .ok cpu
  | op :: rest, cpu =>
    match op.apply table cpu with
    | .error fault => .error fault
    | .ok next => if op.passes cpu then perform table rest next else .ok next

/-- The micro-instructions that are attempted, the one that fails included. -/
def attempts (table : InstructionSet) : List MicroOp → Cpu → List MicroOp
  | [], _ => []
  | op :: rest, cpu =>
    match op.apply table cpu with
    | .error _ => [op]
    | .ok next => if op.passes cpu then op :: attempts table rest next else [op]

theorem attempts_ne_nil (table : InstructionSet) {program : List MicroOp} (h : program ≠ [])
    (cpu : Cpu) :
    attempts table program cpu ≠ [] := by
  cases program with
  | nil => exact absurd rfl h
  | cons op rest =>
      simp only [attempts]
      split
      · simp
      · split <;> simp

section Equations

variable (rest : List MicroOp) (cpu : Cpu)

@[simp] theorem perform_nil : perform table [] cpu = .ok cpu := rfl

@[simp] theorem perform_transfer (source : Source) (dest : Register) :
    perform table (.transfer source dest :: rest) cpu =
      perform table rest (cpu.put dest (cpu.value source)) := rfl

@[simp] theorem perform_incrementPc :
    perform table (.incrementPc :: rest) cpu =
      perform table rest { cpu with registers := cpu.registers.incrementPc } := rfl

@[simp] theorem perform_readMemory :
    perform table (.readMemory :: rest) cpu =
      perform table rest (cpu.put .mdr cpu.memory.readAtPointer) := rfl

@[simp] theorem perform_writeMemory :
    perform table (.writeMemory :: rest) cpu =
      perform table rest
        { cpu with memory := cpu.memory.writeAtPointer cpu.registers.mdr } := rfl

@[simp] theorem perform_setCircuit (circuit : Circuit) :
    perform table (.setCircuit circuit :: rest) cpu =
      perform table rest { cpu with alu := { cpu.alu with circuit } } := rfl

@[simp] theorem perform_loadX (source : Source) :
    perform table (.loadX source :: rest) cpu =
      perform table rest { cpu with alu := { cpu.alu with x := cpu.value source } } := rfl

@[simp] theorem perform_loadY (source : Source) :
    perform table (.loadY source :: rest) cpu =
      perform table rest { cpu with alu := { cpu.alu with y := cpu.value source } } := rfl

@[simp] theorem perform_storeZ (dest : Register) :
    perform table (.storeZ dest :: rest) cpu = perform table rest (cpu.put dest cpu.alu.z) := rfl

@[simp] theorem perform_guard (flag : Flag) (state : Bool) :
    perform table (.guard flag state :: rest) cpu =
      if cpu.status.get flag = state then perform table rest cpu else .ok cpu := by
  simp [perform, apply, passes]

theorem perform_lookup :
    perform table (.lookup :: rest) cpu =
      match table.lookup cpu.registers.opcode with
      | some instruction => perform table rest { cpu with current := some instruction }
      | none => .error (.invalidInstruction cpu.registers.opcode) := by
  simp only [perform, apply, passes]
  cases table.lookup cpu.registers.opcode <;> rfl

theorem perform_selectAddress :
    perform table (.selectAddress :: rest) cpu =
      match cpu.registers.mar.address? with
      | some a => perform table rest { cpu with memory := { cpu.memory with pointer := a } }
      | none => .error (.memory (.addressOutOfRange cpu.registers.mar)) := by
  simp only [perform, apply, passes, Memory.setPointer, Memory.locate]
  cases cpu.registers.mar.address? <;> rfl

theorem perform_compute :
    perform table (.compute :: rest) cpu =
      match cpu.alu.circuit.compute cpu.alu.x cpu.alu.y with
      | .ok result =>
        perform table rest { cpu with
          alu := { cpu.alu with z := result.word }, status := cpu.status.record result }
      | .error _ => .error .divisionByZero := by
  simp only [perform, apply, passes, Alu.compute]
  cases cpu.alu.circuit.compute cpu.alu.x cpu.alu.y <;> rfl

end Equations

/-! ### The programs of the machine -/

/-- The state after the word at the operand address has been read. -/
def operandRead (cpu : Cpu) : Cpu :=
  { cpu with
    memory := { cpu.memory with pointer := cpu.registers.operand }
    registers := { cpu.registers with
      mar := Word.ofByte cpu.registers.operand
      mdr := cpu.memory.get cpu.registers.operand } }

/-- The state in which the arithmetic unit of `cpu` computes for an instruction in a mode. -/
def prepared (cpu : Cpu) : Mode → Cpu
  | .direct => operandRead cpu
  | _ => cpu

/-- An operand is a byte, so reading the word it addresses never fails. -/
theorem perform_readOperand (rest : List MicroOp) (cpu : Cpu) :
    perform table (readOperand ++ rest) cpu = perform table rest (operandRead cpu) := by
  simp [readOperand, perform_selectAddress, Cpu.put, Cpu.value, Registers.write, operandRead,
    Memory.readAtPointer, Memory.get]

theorem read_register (cpu : Cpu) (r : Accumulator) :
    cpu.registers.read r.register = cpu.visible.read r := by
  cases r <;> rfl

/-- The arithmetic unit works on the register and the value that the instruction names, whatever
its latches and circuit were, and its result is the exact one. -/
theorem perform_join (circuit : Circuit) (mode : Mode) (dest : Accumulator) (rest : List MicroOp)
    (cpu : Cpu) :
    let x := cpu.visible.read dest
    let y := cpu.visible.argument cpu.registers.operand dest mode
    perform table (join circuit mode dest ++ rest) cpu =
      if circuit = .div ∧ y = 0 then .error .divisionByZero
      else perform table rest { prepared cpu mode with
        alu := { x, y, z := circuit.joined x y, circuit }
        status := cpu.status.withFlags (circuit.flag x y) } := by
  intro x y
  -- the modes differ in how the value gets to the unit, and not in what the circuit does
  have hjoin : perform table (join circuit mode dest ++ rest) cpu =
      match circuit.compute x y with
      | .ok result =>
        perform table rest { prepared cpu mode with
          alu := { x, y, z := result.word, circuit }
          status := cpu.status.record result }
      | .error _ => .error .divisionByZero := by
    cases mode with
    | immediate =>
        simp only [join, List.cons_append, List.nil_append, perform_setCircuit, perform_loadX,
          perform_loadY, perform_compute, Cpu.value, read_register]
        rfl
    | direct =>
        -- here the value comes first, and the register it is joined with after it
        simp only [join, List.cons_append, List.append_assoc, List.nil_append, perform_setCircuit,
          perform_readOperand, perform_loadX, perform_loadY, perform_compute, Cpu.value,
          read_register]
        cases dest <;> rfl
    | register =>
        simp only [join, List.cons_append, List.nil_append, perform_setCircuit, perform_loadX,
          perform_loadY, perform_compute, Cpu.value, read_register]
        cases dest <;> rfl
  rw [hjoin]
  by_cases hzero : circuit = .div ∧ y = 0
  · rw [if_pos hzero, hzero.1, hzero.2, Circuit.compute_div_zero]
  · rw [if_neg hzero, Circuit.compute_eq hzero]
    dsimp only
    rw [Status.record_eq_withFlags, Circuit.flag_computed]
    rfl

/-- Writing to memory at the end of a phase stores the word in MDR where memory points. -/
theorem perform_store (table : InstructionSet) (cpu : Cpu) :
    (perform table [.writeMemory] cpu).map Cpu.visible =
      .ok (cpu.visible.store cpu.memory.pointer cpu.registers.mdr) := by
  have hslots : cpu.memory.slots.setIfInBounds cpu.memory.pointer cpu.registers.mdr =
      cpu.memory.slots.set cpu.memory.pointer cpu.registers.mdr := by
    ext i hi
    rw [Vector.getElem_setIfInBounds, Vector.getElem_set]
  rw [perform_writeMemory, perform_nil, Visible.store, Cpu.visible, hslots]
  rfl

theorem perform_jump (table : InstructionSet) (target : Target) (cpu : Cpu) :
    ∃ after, perform table (jump target) cpu = .ok after ∧
      after.visible =
        { cpu.visible with pc := cpu.visible.destination cpu.registers.operand target } := by
  cases target with
  | immediate => exact ⟨_, rfl, rfl⟩
  | direct => exact ⟨_, by rw [jump, perform_readOperand, perform_transfer, perform_nil], rfl⟩

/-- Fetching fails only when the program counter is past memory. -/
theorem perform_fetch (table : InstructionSet) (cpu : Cpu) :
    perform table fetch cpu =
      match cpu.registers.pc.address? with
      | some p => .ok { cpu with
          memory := { cpu.memory with pointer := p }
          registers := { cpu.registers with
            pc := Registers.nextPc cpu.registers.pc
            mar := cpu.registers.pc
            mdr := cpu.memory.get p } }
      | none => .error (.memory (.addressOutOfRange cpu.registers.pc)) := by
  simp only [fetch, perform_transfer, perform_incrementPc, perform_selectAddress, Cpu.put,
    Cpu.value, Registers.read, Registers.write, Registers.incrementPc]
  cases cpu.registers.pc.address? <;> rfl

/-- Decoding fails only when the table lacks the opcode of the word read. -/
theorem perform_decode (table : InstructionSet) (cpu : Cpu) :
    perform table decode cpu =
      match table.lookup cpu.registers.mdr.high with
      | some instruction => .ok { cpu with
          registers := { cpu.registers with ir := cpu.registers.mdr }
          current := some instruction }
      | none => .error (.invalidInstruction cpu.registers.mdr.high) := by
  simp only [decode, perform_transfer, perform_lookup]
  rfl

/-- **Execution refines the one-step meaning.** The micro-program of an operation fails where the
operation does, with the same fault, and otherwise leaves the visible state that the operation
asks for. -/
theorem perform_microProgram (op : Operation) (cpu : Cpu) :
    (perform table op.microProgram cpu).map Cpu.visible =
      op.effect cpu.registers.operand cpu.visible := by
  cases op with
  | compute circuit mode dest =>
      rw [Operation.microProgram, perform_join, Operation.effect]
      split
      · rfl
      · cases mode <;> cases dest <;> rfl
  | compare mode dest =>
      rw [Operation.microProgram, ← List.append_nil (join _ _ _), perform_join]
      cases mode <;> rfl
  | load mode dest =>
      cases mode with
      | immediate => cases dest <;> rfl
      | direct =>
          rw [Operation.microProgram, perform_readOperand]
          cases dest <;> rfl
      | register => cases dest <;> rfl
  | store indirect src =>
      cases indirect with
      | false =>
          have hmar : ((cpu.put .mar (cpu.value .operand)).put .mdr
              ((cpu.put .mar (cpu.value .operand)).value (.register src.register))).registers.mar =
                Word.ofByte cpu.registers.operand := rfl
          simp only [Operation.microProgram, Bool.false_eq_true, if_false, List.append_nil,
            List.cons_append, List.nil_append, perform_transfer, perform_selectAddress, hmar,
            Word.address?_ofByte, perform_store]
          cases src <;> rfl
      | true =>
          -- the pointer is read as an operand would be, then takes the place of the address
          have hprogram : (Operation.store true src).microProgram =
              readOperand ++ [.transfer (.register .mdr) .mar,
                .transfer (.register src.register) .mdr, .selectAddress, .writeMemory] := rfl
          have hmar : ∀ w, (((operandRead cpu).put .mar
              ((operandRead cpu).value (.register .mdr))).put .mdr w).registers.mar =
                cpu.visible.load cpu.registers.operand := fun _ => rfl
          simp only [hprogram, perform_readOperand, perform_transfer, perform_selectAddress, hmar,
            Operation.effect]
          by_cases hpointer : (cpu.visible.load cpu.registers.operand).toNat < 256
          · rw [dif_pos hpointer, Word.address?_eq_some_iff.mpr
              (rfl : _ = ((⟨_, hpointer⟩ : Byte) : Nat))]
            dsimp only
            rw [perform_store]
            cases src <;> rfl
          · rw [dif_neg hpointer, Word.address?_eq_none_iff.mpr (by omega)]
            rfl
  | jump target =>
      obtain ⟨after, hafter, hvisible⟩ := perform_jump table target cpu
      rw [Operation.microProgram, hafter, Operation.effect, Except.map, hvisible]
  | branch flag state target =>
      rw [Operation.microProgram, perform_guard, Operation.effect, Visible.flag_eq_get]
      by_cases h : cpu.status.get flag = state
      · obtain ⟨after, hafter, hvisible⟩ := perform_jump table target cpu
        have hv : cpu.visible.status.get flag = state := h
        rw [if_pos h, if_pos hv, hafter, Except.map, hvisible]
      · have hv : ¬ cpu.visible.status.get flag = state := h
        rw [if_neg h, if_neg hv]
        rfl
  | halt => rfl

end MicroOp

end TeachingCpu
