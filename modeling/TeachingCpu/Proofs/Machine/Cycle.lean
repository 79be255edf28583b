import TeachingCpu.InstructionSet.BuiltIn
import TeachingCpu.Proofs.InstructionSet.Table
import TeachingCpu.Proofs.Machine.Phase
/-!
# TeachingCpu.Proofs.Machine.Cycle

**An instruction cycle refines the one-step meaning of the instruction.** Fetching and decoding
lead to the state in which the instruction word takes effect (`Visible.fetched`), whatever was in
the registers and latches that programs do not see, and executing carries out the effect.
-/

set_option autoImplicit false

namespace TeachingCpu

namespace Engine

variable {e : Engine} {p : Byte} {entry : Instruction} {op : Operation}

/-- After fetching, the word at the program counter is in MDR. -/
theorem fetch_of_address (hidle : e.phase = none) (hpc : e.cpu.registers.pc.toNat = p) :
    ∃ cpu, e.fetch.answer = .ok () ∧ e.fetch.engine = { e with cpu } ∧
      cpu.registers.mdr = e.cpu.memory.get p ∧
      cpu.visible =
        { e.cpu.visible with pc := BitVec.ofNat 16 ((e.cpu.visible.pc.toNat + 1) % 256) } := by
  have hok := MicroOp.perform_fetch e.table e.cpu
  rw [Word.address?_eq_some_iff.mpr hpc] at hok
  obtain ⟨hanswer, hengine⟩ := wholePhase_of_ok hidle hok .fetching
  rw [← fetch_eq] at hanswer hengine
  have hpc' : Registers.nextPc e.cpu.registers.pc =
      BitVec.ofNat 16 ((e.cpu.visible.pc.toNat + 1) % 256) :=
    Registers.nextPc_of_lt (hpc ▸ p.isLt)
  refine ⟨_, hanswer, hengine, rfl, ?_⟩
  rw [← hpc']
  rfl

/-- After decoding, the word in MDR is in IR and its entry is current. -/
theorem decode_of_lookup (hidle : e.phase = none)
    (hentry : e.table.lookup e.cpu.registers.mdr.high = some entry) :
    ∃ cpu, e.decode.answer = .ok () ∧ e.decode.engine = { e with cpu } ∧
      cpu.visible =
        { e.cpu.visible with ir := e.cpu.registers.mdr, current := some entry } := by
  have hok := MicroOp.perform_decode e.table e.cpu
  rw [hentry] at hok
  obtain ⟨hanswer, hengine⟩ := wholePhase_of_ok hidle hok .decoding
  rw [← decode_eq] at hanswer hengine
  exact ⟨_, hanswer, hengine, rfl⟩

/-- Executing carries out the current instruction, or leaves the engine as it was. -/
theorem execute_of_decode? (hidle : e.phase = none) (hcurrent : e.cpu.current = some entry)
    (hop : Operation.decode? entry.id = some op) :
    let s := e.cpu.visible
    e.execute.answer = (op.effect s.ir.low s).map (fun _ => ()) ∧
      e.execute.engine.cpu.visible = (op.effect s.ir.low s).toOption.getD s ∧
      e.execute.engine.phase = none ∧ e.execute.engine.table = e.table := by
  have heffect : (MicroOp.perform e.table op.microProgram e.cpu).map Cpu.visible =
      op.effect e.cpu.visible.ir.low e.cpu.visible := MicroOp.perform_microProgram op e.cpu
  intro s
  rw [execute_eq hidle hcurrent hop, ← heffect]
  cases h : MicroOp.perform e.table op.microProgram e.cpu with
  | ok cpu =>
      obtain ⟨hanswer, hengine⟩ := wholePhase_of_ok hidle h .executing
      rw [hanswer, hengine]
      exact ⟨rfl, rfl, hidle, rfl⟩
  | error fault =>
      obtain ⟨hanswer, hengine⟩ := wholePhase_of_error hidle h .executing
      rw [hanswer, hengine]
      exact ⟨rfl, rfl, hidle, rfl⟩

/-- A cycle whose fetching and decoding succeed ends as its execution does. -/
theorem cycle_eq_execute (hfetch : e.fetch.answer = .ok ())
    (hdecode : e.fetch.engine.decode.answer = .ok ()) :
    e.cycle.answer = e.fetch.engine.decode.engine.execute.answer ∧
      e.cycle.engine = e.fetch.engine.decode.engine.execute.engine := by
  simp only [cycle, Reply.andThen_of_ok hfetch, Reply.andThen_of_ok hdecode, and_self]

/-- A cycle at an instruction ends as the effect of its operation does, and where that fails, with
the instruction fetched and decoded. -/
theorem cycle_eq_effect (hidle : e.phase = none) (hpc : e.cpu.registers.pc.toNat = p)
    (hentry : e.table.lookup (e.cpu.memory.get p).high = some entry)
    (hop : Operation.decode? (e.cpu.memory.get p).high = some op) :
    let word := e.cpu.memory.get p
    let before := e.cpu.visible.fetched word entry
    let after := op.effect word.low before
    e.cycle.answer = after.map (fun _ => ()) ∧
      e.cycle.engine.cpu.visible = after.toOption.getD before ∧
      e.cycle.engine.phase = none ∧ e.cycle.engine.table = e.table := by
  intro word before after
  obtain ⟨fetched, hfetch, hfetched, hmdr, hvisible₁⟩ := fetch_of_address hidle hpc
  have hidle₁ : e.fetch.engine.phase = none := by rw [hfetched]; exact hidle
  have htable₁ : e.fetch.engine.table = e.table := by rw [hfetched]
  have hmdr₁ : e.fetch.engine.cpu.registers.mdr = word := by rw [hfetched]; exact hmdr
  -- decoding starts from MDR, which is not part of the visible state
  obtain ⟨decoded, hdecode, hdecoded, hvisible₂⟩ :=
    decode_of_lookup hidle₁ (by rw [hmdr₁, htable₁]; exact hentry)
  have hbefore : e.fetch.engine.decode.engine.cpu.visible = before := by
    rw [hdecoded, hvisible₂, hmdr₁, hfetched, hvisible₁]
    rfl
  have hidle₂ : e.fetch.engine.decode.engine.phase = none := by rw [hdecoded]; exact hidle₁
  have htable₂ : e.fetch.engine.decode.engine.table = e.table := by rw [hdecoded]; exact htable₁
  have hid : entry.id = word.high := InstructionSet.id_of_lookup hentry
  obtain ⟨hanswer, hvisible₃, hidle₃, htable₃⟩ :=
    execute_of_decode? hidle₂ (congrArg Visible.current hbefore) (hid ▸ hop)
  obtain ⟨hcycle, hengine⟩ := cycle_eq_execute hfetch hdecode
  rw [hbefore] at hanswer hvisible₃
  exact ⟨hcycle.trans hanswer, hengine ▸ hvisible₃, hengine ▸ hidle₃,
    hengine ▸ htable₃.trans htable₂⟩

/-- **A cycle is one step of the instruction set.** Only the visible state decides what a cycle
does to the visible state; a cycle fails exactly by storing through a pointer past memory, and
then leaves the state in which the instruction was to take effect. -/
theorem cycle_refines_effect {opcode operand : Byte} (hidle : e.phase = none)
    (hpc : e.cpu.registers.pc.toNat = p)
    (hword : e.cpu.memory.slots[p].toNat = 256 * opcode + operand)
    (hentry : entry ∈ e.table.entries) (hid : entry.id = opcode)
    (hop : Operation.decode? opcode = some op) :
    let before := e.cpu.visible.fetched e.cpu.memory.slots[p] entry
    let after := op.effect operand before
    let pointer := e.cpu.memory.slots[operand]
    e.cycle.answer = after.map (fun _ => ()) ∧
      e.cycle.engine.cpu.visible = after.toOption.getD before ∧
      e.cycle.engine.phase = none ∧
      e.cycle.engine.table = e.table ∧
      (∀ fault, e.cycle.answer = .error fault ↔
        (∃ src, op = .store true src ∧ 256 ≤ pointer.toNat) ∧
          fault = .memory (.addressOutOfRange pointer)) := by
  intro before after pointer
  have hhigh : (e.cpu.memory.get p).high = opcode := Word.high_eq_of_toNat hword
  have hlow : (e.cpu.memory.get p).low = operand := Word.low_eq_of_toNat hword
  obtain ⟨hanswer, hvisible, hphase, htable⟩ := @cycle_eq_effect e p entry op hidle hpc
    (by rw [hhigh]; exact InstructionSet.lookup_eq_some_iff.mpr ⟨hentry, hid⟩)
    (by rw [hhigh]; exact hop)
  rw [hlow] at hanswer hvisible
  refine ⟨hanswer, hvisible, hphase, htable, fun fault => ?_⟩
  -- the cycle fails as the effect does, and of the effects only a store can
  have hfault : e.cycle.answer = .error fault ↔ after = .error fault := by
    rw [hanswer]
    change after.map _ = _ ↔ _
    cases after <;> simp [Except.map]
  exact hfault.trans (Operation.effect_eq_error_iff hop)

/-- At `5` stands `MOVE B,$05`, an instruction that overwrites its own word. -/
theorem cycle_refines_effect_on_itself :
    let e : Engine := {
      table := .builtIn
      cpu := { memory := ({} : Memory).set 5 0x1905, registers := { pc := 5, gpb := 0xBEEF } } }
    e.cycle.answer = .ok () ∧ e.cycle.engine.cpu.visible.load 5 = 0xBEEF ∧
      e.cycle.engine.cpu.visible.pc = 6 ∧ e.cycle.engine.cpu.visible.ir = 0x1905 := by
  intro e
  have hword : e.cpu.memory.slots[(5 : Byte)] = 0x1905 := Memory.get_set_self _ _ _
  obtain ⟨hanswer, hvisible, -⟩ :=
    @cycle_refines_effect e 5 ⟨0x19, "MOVE B,addr", "Store GPB at a memory address"⟩
      (.store false .b) 0x19 0x05 rfl (by decide) (by rw [hword]; decide) (by decide) rfl
      (by decide)
  rw [hword] at hanswer hvisible
  rw [hanswer, hvisible]
  exact ⟨rfl, Vector.getElem_setIfInBounds_self (by decide), rfl, rfl⟩

end Engine

end TeachingCpu
