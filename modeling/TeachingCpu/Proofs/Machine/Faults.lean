import TeachingCpu.InstructionSet.BuiltIn
import TeachingCpu.Proofs.InstructionSet.Table
import TeachingCpu.Proofs.Machine.Request
import TeachingCpu.Proofs.Machine.Run
/-!
# TeachingCpu.Proofs.Machine.Faults

**When an activity fails, and with which fault.** What the micro-program of an activity comes to is
known without an engine (`MicroOp.perform_fetch`, `MicroOp.perform_decode`,
`MicroOp.perform_microProgram`), and an idle engine fails just when it does
(`Engine.complete_eq_error_iff`).

Of all words that reach MAR only the program counter and the pointer of an indirect store are not
made of a byte, so these are the only addresses that can be past memory. Every instruction selects
its own circuit before it computes, and none of them divides.
-/

set_option autoImplicit false

namespace TeachingCpu

/-! ### Kinds of operations and requests -/

/-- Whether the operand is the address of a word that is read or written. -/
def Operation.isDirect : Operation → Bool
  | .compute _ mode _ => mode = .direct
  | .compare mode _ => mode = .direct
  | .load mode _ => mode = .direct
  | .store indirect _ => !indirect
  | .jump target => target = .direct
  | .branch _ _ target => target = .direct
  | .halt => false

/-- Whether a request carries out instructions of a program, or parts of one. -/
def Request.isOfProgram : Request → Bool
  | .fetch | .decode | .execute | .cycle | .run _ _ => true
  | _ => false

/-! ### The places where something can be missing -/

theorem Circuit.compute_eq_error_iff {circuit : Circuit} {x y : Word} {error : WordError} :
    circuit.compute x y = .error error ↔ circuit = .div ∧ y = 0 ∧ error = .divisionByZero := by
  cases circuit with
  | div =>
      rw [compute, Word.divide]
      by_cases hy : y = 0
      · rw [if_pos hy]
        simp [hy, @eq_comm _ error]
      · rw [if_neg hy]
        simp only [reduceCtorEq, true_and, false_iff, not_and]
        exact fun h => absurd h hy
  | _ => simp [compute]

namespace MicroOp

variable {table : InstructionSet} {cpu : Cpu} {fault : Fault}

theorem perform_fetch_eq_error_iff :
    perform table fetch cpu = .error fault ↔
      256 ≤ cpu.registers.pc.toNat ∧ fault = .memory (.addressOutOfRange cpu.registers.pc) := by
  rw [perform_fetch]
  cases haddress : cpu.registers.pc.address? with
  | some p =>
      have hlt := p.isLt
      rw [← Word.address?_eq_some_iff.mp haddress] at hlt
      simp
      omega
  | none => simp [Word.address?_eq_none_iff.mp haddress, eq_comm]

theorem perform_decode_eq_error_iff :
    perform table decode cpu = .error fault ↔
      (∀ i ∈ table.entries, i.id ≠ cpu.registers.mdr.high) ∧
        fault = .invalidInstruction cpu.registers.mdr.high := by
  rw [perform_decode, ← InstructionSet.lookup_eq_none_iff]
  cases table.lookup cpu.registers.mdr.high with
  | some i => simp
  | none => simp [eq_comm]

theorem perform_microProgram_eq_error_iff {opcode : Byte} {op : Operation}
    (hop : Operation.decode? opcode = some op) :
    perform table op.microProgram cpu = .error fault ↔
      (∃ src, op = .store true src) ∧
        256 ≤ (cpu.memory.get cpu.registers.operand).toNat ∧
        fault = .memory (.addressOutOfRange (cpu.memory.get cpu.registers.operand)) := by
  have heffect : perform table op.microProgram cpu = .error fault ↔
      op.effect cpu.registers.operand cpu.visible = .error fault := by
    have hvisible : (perform table op.microProgram cpu).map Cpu.visible = _ :=
      perform_microProgram op cpu
    rw [← hvisible]
    cases perform table op.microProgram cpu <;> simp [Except.map]
  rw [heffect, Operation.effect_eq_error_iff hop, exists_and_right, and_assoc]
  rfl

theorem perform_operate_eq_error_iff {circuit : Circuit} :
    perform table (operate circuit) cpu = .error fault ↔
      circuit = .div ∧ cpu.registers.gpb = 0 ∧ fault = .divisionByZero := by
  simp only [operate, perform_setCircuit, perform_loadX, perform_loadY, perform_compute, Cpu.value,
    Registers.read]
  cases hresult : circuit.compute cpu.registers.gpa cpu.registers.gpb with
  | ok result =>
      simp only [perform_storeZ, perform_nil, reduceCtorEq, false_iff]
      rintro ⟨hcircuit, hgpb, -⟩
      rw [Circuit.compute_eq_error_iff.mpr ⟨hcircuit, hgpb, rfl⟩] at hresult
      cases hresult
  | error error =>
      obtain ⟨hcircuit, hgpb, -⟩ := Circuit.compute_eq_error_iff.mp hresult
      simp [hcircuit, hgpb, eq_comm]

end MicroOp

namespace Engine

variable {e : Engine} {a : Activity} {program : List MicroOp} {fault : Fault}

/-! ### Activities of an idle engine -/

/-- An idle engine fails an activity just as its micro-program fails. -/
theorem complete_eq_error_iff (hidle : e.phase = none)
    (hprogram : a.program? e.cpu = some program) :
    (e.complete a).answer = .error fault ↔
      MicroOp.perform e.table program e.cpu = .error fault := by
  rw [complete_of_program hidle hprogram]
  cases hperform : MicroOp.perform e.table program e.cpu with
  | ok cpu => simp [(wholePhase_of_ok hidle hperform a.stage).1]
  | error _ => simp [(wholePhase_of_error hidle hperform a.stage).1]

theorem execute_eq_error_iff (hidle : e.phase = none) :
    e.execute.answer = .error fault ↔ ∃ i, e.cpu.current = some i ∧
      ((Operation.decode? i.id = none ∧ fault = .invalidInstruction i.id) ∨
        (∃ src, Operation.decode? i.id = some (.store true src)) ∧
          256 ≤ (e.cpu.memory.get e.cpu.registers.operand).toNat ∧
          fault = .memory (.addressOutOfRange (e.cpu.memory.get e.cpu.registers.operand))) := by
  change (e.complete .execute).answer = .error fault ↔ _
  cases hprogram : Activity.execute.program? e.cpu with
  | none =>
      rcases complete_of_no_program hidle hprogram with ⟨hcurrent, h⟩ | ⟨i, hcurrent, hop, h⟩
      · simp [h, hcurrent]
      · simp [h, hcurrent, hop, refuse, eq_comm]
  | some program =>
      obtain ⟨i, op, hcurrent, hop, rfl⟩ := Activity.program?_execute_eq_some_iff.mp hprogram
      rw [complete_eq_error_iff hidle hprogram, MicroOp.perform_microProgram_eq_error_iff hop]
      simp [hcurrent, hop]

/-- Every byte is an address, so what is read or written at the operand is there. -/
theorem execute_of_isDirect (hidle : e.phase = none) {i : Instruction} {op : Operation}
    (hcurrent : e.cpu.current = some i) (hop : Operation.decode? i.id = some op)
    (hdirect : op.isDirect = true) : e.execute.answer = .ok () := by
  cases hanswer : e.execute.answer with
  | ok _ => rfl
  | error fault =>
      obtain ⟨j, hj, hreason⟩ := (execute_eq_error_iff hidle).mp hanswer
      obtain rfl : i = j := Option.some.inj (hcurrent.symm.trans hj)
      rw [hop] at hreason
      rcases hreason with ⟨hnone, -⟩ | ⟨⟨src, hstore⟩, -, -⟩
      · cases hnone
      · cases hstore
        cases hdirect

/-! ### Programs never divide -/

theorem complete_ne_divisionByZero (e : Engine) (stage : Stage) :
    (e.complete stage.activity).answer ≠ .error .divisionByZero := by
  intro h
  cases hphase : e.phase with
  | some p =>
      rw [complete_of_phase (by simp [hphase])] at h
      cases h
  | none =>
      cases stage with
      | fetching =>
          obtain ⟨-, hfault⟩ :=
            MicroOp.perform_fetch_eq_error_iff.mp ((complete_eq_error_iff hphase rfl).mp h)
          cases hfault
      | decoding =>
          obtain ⟨-, hfault⟩ :=
            MicroOp.perform_decode_eq_error_iff.mp ((complete_eq_error_iff hphase rfl).mp h)
          cases hfault
      | executing =>
          obtain ⟨i, -, ⟨-, hfault⟩ | ⟨-, -, hfault⟩⟩ := (execute_eq_error_iff hphase).mp h <;>
            cases hfault

theorem cycle_ne_divisionByZero (e : Engine) : e.cycle.answer ≠ .error .divisionByZero :=
  Reply.andThen_ne_error (e.complete_ne_divisionByZero .fetching) fun _ e =>
    Reply.andThen_ne_error (e.complete_ne_divisionByZero .decoding) fun _ e =>
      e.complete_ne_divisionByZero .executing

theorem run_ne_divisionByZero (e : Engine) (limit : Nat) (c : Cancellation) :
    (e.run limit c).answer ≠ .error .divisionByZero := by
  rw [run]
  split
  · refine runFrom_induction (motive := fun _ reply => reply.answer ≠ .error .divisionByZero)
      (fun _ _ _ => by simp) (fun e fault log hfault => ?_) (fun _ _ _ h => h) c limit 0 #[] e
    have hne := e.cycle_ne_divisionByZero
    rw [hfault] at hne
    simpa using hne
  · simp [refuse]

theorem respond_ne_divisionByZero (e : Engine) {r : Request} (hr : r.isOfProgram = true) :
    (e.respond r).answer ≠ .error .divisionByZero := by
  cases r with
  | fetch => exact Reply.map_ne_error (e.complete_ne_divisionByZero .fetching) _
  | decode => exact Reply.map_ne_error (e.complete_ne_divisionByZero .decoding) _
  | execute => exact Reply.map_ne_error (e.complete_ne_divisionByZero .executing) _
  | cycle => exact Reply.map_ne_error e.cycle_ne_divisionByZero _
  | run limit c => exact Reply.map_ne_error (e.run_ne_divisionByZero limit c) _
  | _ => cases hr

theorem replies_ne_divisionByZero (e : Engine) {rs : List Request}
    (hrs : ∀ r ∈ rs, r.isOfProgram = true) :
    ∀ reply ∈ e.replies rs, reply.answer ≠ .error .divisionByZero := by
  induction rs generalizing e with
  | nil => simp [replies]
  | cons r rs ih =>
      rw [List.forall_mem_cons] at hrs
      rw [replies, List.forall_mem_cons]
      exact ⟨e.respond_ne_divisionByZero hrs.1, ih _ hrs.2⟩

/-! ### Every way to fail -/

/-- **An idle engine fails for these reasons and no others.** The state of the arithmetic unit is
not among them, so no program divides by zero, whatever circuit was selected before; and no
instruction whose operand is an address fails at all. -/
theorem fails_iff (e : Engine) (hidle : e.phase = none) :
    let pointer := e.cpu.memory.get e.cpu.registers.operand
    (∀ fault, e.fetch.answer = .error fault ↔
      256 ≤ e.cpu.registers.pc.toNat ∧
        fault = .memory (.addressOutOfRange e.cpu.registers.pc)) ∧
    (∀ fault, e.decode.answer = .error fault ↔
      (∀ i ∈ e.table.entries, i.id ≠ e.cpu.registers.mdr.high) ∧
        fault = .invalidInstruction e.cpu.registers.mdr.high) ∧
    (∀ fault, e.execute.answer = .error fault ↔ ∃ i, e.cpu.current = some i ∧
      ((Operation.decode? i.id = none ∧ fault = .invalidInstruction i.id) ∨
        (∃ src, Operation.decode? i.id = some (.store true src)) ∧ 256 ≤ pointer.toNat ∧
          fault = .memory (.addressOutOfRange pointer))) ∧
    (∀ circuit fault, (e.operate circuit).answer = .error fault ↔
      circuit = .div ∧ e.cpu.registers.gpb = 0 ∧ fault = .divisionByZero) ∧
    (∀ rs : List Request, (∀ r ∈ rs, r.isOfProgram = true) →
      ∀ reply ∈ e.replies rs, reply.answer ≠ .error .divisionByZero) ∧
    ∀ i op, e.cpu.current = some i → Operation.decode? i.id = some op → op.isDirect = true →
      e.execute.answer = .ok () := by
  refine ⟨fun fault => ?_, fun fault => ?_, fun fault => execute_eq_error_iff hidle,
    fun circuit fault => ?_, fun rs => e.replies_ne_divisionByZero,
    fun i op => execute_of_isDirect hidle⟩
  · exact (complete_eq_error_iff (a := .fetch) hidle rfl).trans MicroOp.perform_fetch_eq_error_iff
  · exact (complete_eq_error_iff (a := .decode) hidle rfl).trans
      MicroOp.perform_decode_eq_error_iff
  · exact (complete_eq_error_iff (a := .operate circuit) hidle rfl).trans
      MicroOp.perform_operate_eq_error_iff

/-- Everything is out of place here, the divider being selected included. -/
theorem fails_iff_all_out_of_place :
    let e : Engine := {
      table := .builtIn
      cpu := {
        memory := ({} : Memory).set 0x10 0x0200
        registers := { pc := 0x0100, mdr := 0x2E00, ir := 0x1A10 }
        alu := { circuit := .div }
        current := some ⟨0x1A, "MOVE A,(addr)", "Store GPA at the address held in memory"⟩ } }
    e.fetch.answer = .error (.memory (.addressOutOfRange 0x0100)) ∧
      e.decode.answer = .error (.invalidInstruction 0x2E) ∧
      e.execute.answer = .error (.memory (.addressOutOfRange 0x0200)) ∧
      (e.operate .div).answer = .error .divisionByZero ∧
      ∀ reply ∈ e.replies [.execute, .cycle, .run 3 .never],
        reply.answer ≠ .error .divisionByZero := by
  intro e
  have hpointer : e.cpu.memory.get e.cpu.registers.operand = 0x0200 := by decide
  obtain ⟨hfetch, hdecode, hexecute, hoperate, hprogram, -⟩ := fails_iff e rfl
  rw [hpointer] at hexecute
  exact ⟨(hfetch _).mpr ⟨by decide, rfl⟩, (hdecode _).mpr ⟨by decide, by decide⟩,
    (hexecute _).mpr ⟨_, rfl, .inr ⟨⟨.a, by decide⟩, by decide, rfl⟩⟩,
    (hoperate _ _).mpr ⟨rfl, rfl, rfl⟩, hprogram _ (by decide)⟩

end Engine

end TeachingCpu
