import Mathlib.Data.List.Forall2
import TeachingCpu.InstructionSet.BuiltIn
import TeachingCpu.Proofs.InstructionSet.Table
import TeachingCpu.Proofs.Machine.Invariant
/-!
# TeachingCpu.Proofs.Machine.Wording

**Only the ids of an instruction set matter to execution.** An engine can be stripped of the words
in its instruction set and of the order of the entries (`Engine.bare`). Every operation commutes
with that: the reply of the bare engine is the bare reply. So two engines that are the same when
bare, as are new ones whose tables list the same ids, reply alike for ever.

There is one lemma for each operation, in the order in which they are defined. The only one that
says anything about tables is `InstructionSet.lookup_bare`.
-/

set_option autoImplicit false

namespace TeachingCpu

/-! ### Without words -/

/-- The entry without its words. -/
def Instruction.bare (i : Instruction) : Instruction := ⟨i.id, "", ""⟩

/-- The table with bare entries, one for each id and in the order of the ids. -/
def InstructionSet.bare (table : InstructionSet) : InstructionSet :=
  .ofDistinct (((List.finRange 256).filter fun id => (table.lookup id).isSome).map fun id =>
      ⟨id, "", ""⟩) <| by
    rw [List.map_map]
    exact (List.map_id _).symm ▸ (List.nodup_finRange 256).filter _

/-- The state with a bare current instruction. -/
def Cpu.bare (cpu : Cpu) : Cpu := { cpu with current := cpu.current.map Instruction.bare }

/-- The phase with a bare state to go back to. -/
def Phase.bare (p : Phase) : Phase := { p with start := p.start.bare }

/-- The engine with a bare table and in a bare state. -/
def Engine.bare (e : Engine) : Engine := ⟨e.table.bare, e.cpu.bare, e.phase.map Phase.bare⟩

/-- The reply with the engine bare that it leaves. -/
def Reply.bare {α : Type} (r : Reply α) : Reply α := ⟨r.answer, r.engine.bare, r.log⟩

/-! ### Tables -/

namespace InstructionSet

theorem mem_entries_bare (table : InstructionSet) (i : Instruction) :
    i ∈ table.bare.entries ↔ (table.lookup i.id).isSome ∧ i = ⟨i.id, "", ""⟩ := by
  simp only [bare, entries_ofDistinct, List.mem_map, List.mem_filter, List.mem_finRange, true_and]
  constructor
  · intro ⟨id, hlisted, hi⟩
    rw [← hi]
    exact ⟨hlisted, rfl⟩
  · intro ⟨hlisted, hi⟩
    exact ⟨i.id, hlisted, hi.symm⟩

/-- In a bare table the bare entry is found. -/
theorem lookup_bare (table : InstructionSet) (opcode : Byte) :
    table.bare.lookup opcode = (table.lookup opcode).map Instruction.bare := by
  cases h : table.lookup opcode with
  | none =>
      refine lookup_eq_none_iff.mpr fun i hi hid => ?_
      have hlisted := ((mem_entries_bare table i).mp hi).1
      rw [hid, h] at hlisted
      exact nomatch hlisted
  | some i =>
      have hid : i.id = opcode := id_of_lookup h
      refine lookup_eq_some_iff.mpr ⟨(mem_entries_bare table _).mpr ⟨?_, rfl⟩, hid⟩
      rw [Instruction.bare, hid, h]
      rfl

/-- A bare table says no more than which ids there are. -/
theorem bare_eq_bare {s t : InstructionSet}
    (h : ∀ id, (∃ i ∈ s.entries, i.id = id) ↔ ∃ i ∈ t.entries, i.id = id) : s.bare = t.bare := by
  have hlisted (id : Byte) : (s.lookup id).isSome = (t.lookup id).isSome := by
    rw [Bool.eq_iff_iff, Option.isSome_iff_exists, Option.isSome_iff_exists, exists_lookup_iff,
      exists_lookup_iff]
    exact h id
  simp [bare, hlisted]

end InstructionSet

/-! ### States -/

namespace Cpu

variable (cpu : Cpu)

@[simp] theorem bare_memory : cpu.bare.memory = cpu.memory := rfl

@[simp] theorem bare_registers : cpu.bare.registers = cpu.registers := rfl

@[simp] theorem bare_alu : cpu.bare.alu = cpu.alu := rfl

@[simp] theorem bare_status : cpu.bare.status = cpu.status := rfl

@[simp] theorem bare_current : cpu.bare.current = cpu.current.map Instruction.bare := rfl

@[simp] theorem value_bare (source : Source) : cpu.bare.value source = cpu.value source := by
  cases source <;> rfl

@[simp] theorem put_bare (dest : Register) (word : Word) :
    cpu.bare.put dest word = (cpu.put dest word).bare := rfl

@[simp] theorem halted_bare : cpu.bare.halted = cpu.halted := by
  cases h : cpu.current <;> simp [halted, h, Instruction.bare]

end Cpu

namespace MicroOp

theorem apply_bare (table : InstructionSet) (cpu : Cpu) (op : MicroOp) :
    op.apply table.bare cpu.bare = (op.apply table cpu).map Cpu.bare := by
  cases op with
  | transfer source dest =>
      rw [apply, apply, Cpu.value_bare]
      rfl
  | loadX source =>
      rw [apply, apply, Cpu.value_bare]
      rfl
  | loadY source =>
      rw [apply, apply, Cpu.value_bare]
      rfl
  | lookup =>
      rw [apply, apply, Cpu.bare_registers, InstructionSet.lookup_bare]
      cases table.lookup cpu.registers.opcode <;> rfl
  | selectAddress =>
      rw [apply, apply, Cpu.bare_registers, Cpu.bare_memory]
      cases cpu.memory.setPointer cpu.registers.mar <;> rfl
  | compute =>
      rw [apply, apply, Cpu.bare_alu, Cpu.bare_status]
      cases cpu.alu.compute cpu.status <;> rfl
  | _ => rfl

@[simp] theorem passes_bare (cpu : Cpu) (op : MicroOp) : op.passes cpu.bare = op.passes cpu := by
  cases op <;> rfl

end MicroOp

/-! ### Replies -/

namespace Reply

variable {α β : Type}

theorem bare_map (r : Reply α) (f : α → β) : (r.map f).bare = r.bare.map f := rfl

theorem bare_andThen (r : Reply α) {next : α → Engine → Reply β}
    (hnext : ∀ a e, next a e.bare = (next a e).bare) :
    (r.andThen next).bare = r.bare.andThen next := by
  cases hanswer : r.answer with
  | error fault =>
      rw [andThen_of_error hanswer, andThen_of_error (r := r.bare) hanswer]
      rfl
  | ok a =>
      rw [andThen_of_ok hanswer, andThen_of_ok (r := r.bare) hanswer]
      simp only [bare, hnext]

end Reply

/-! ### Operations -/

namespace Engine

variable (e : Engine)

@[simp] theorem bare_table : e.bare.table = e.table.bare := rfl

@[simp] theorem bare_cpu : e.bare.cpu = e.cpu.bare := rfl

@[simp] theorem bare_phase : e.bare.phase = e.phase.map Phase.bare := rfl

@[simp] theorem isIdle_bare : e.bare.isIdle = e.isIdle := by simp [isIdle]

@[simp] theorem halted_bare : e.bare.halted = e.halted := e.cpu.halted_bare

theorem reset_bare : e.bare.reset = e.reset.bare := by
  unfold reset
  rw [isIdle_bare]
  split <;> rfl

theorem load_bare (image : List Word) : e.bare.load image = (e.load image).bare := by
  unfold load
  rw [isIdle_bare]
  split
  · split
    · rfl
    · split
      · split <;> rfl
      · rfl
  · rfl

theorem setRegister_bare (register : Register) (word : Word) :
    e.bare.setRegister register word = (e.setRegister register word).bare := by
  unfold setRegister
  rw [isIdle_bare]
  split <;> rfl

theorem poke_bare (address word : Word) :
    e.bare.poke address word = (e.poke address word).bare := by
  unfold poke
  rw [isIdle_bare, bare_cpu, Cpu.bare_memory]
  split
  · split <;> rfl
  · rfl

theorem setCurrent_bare (id : Byte) : e.bare.setCurrent id = (e.setCurrent id).bare := by
  unfold setCurrent
  rw [isIdle_bare, bare_table, InstructionSet.lookup_bare]
  split
  · cases e.table.lookup id <;> rfl
  · rfl

theorem begin_bare (stage : Stage) (program : List MicroOp) :
    e.bare.begin stage program = (e.begin stage program).bare := by
  unfold begin
  rw [isIdle_bare]
  split <;> rfl

theorem beginExecute_bare : e.bare.beginExecute = e.beginExecute.bare := by
  unfold beginExecute
  rw [isIdle_bare, bare_cpu, Cpu.bare_current]
  split
  · cases e.cpu.current with
    | none => rfl
    | some i =>
        simp only [Option.map_some, Instruction.bare]
        cases Operation.decode? i.id with
        | none => rfl
        | some op =>
            dsimp only
            rw [Reply.bare_andThen _ (fun _ _ => rfl), begin_bare]
  · rfl

theorem step_bare : e.bare.step = e.step.bare := by
  unfold step
  rw [bare_phase]
  cases e.phase with
  | none => rfl
  | some p =>
      obtain ⟨stage, pending, start⟩ := p
      cases pending with
      | nil => rfl
      | cons op rest =>
          simp only [Option.map_some, Phase.bare, bare_table, bare_cpu, MicroOp.apply_bare,
            MicroOp.passes_bare]
          cases op.apply e.table e.cpu with
          | error fault => rfl
          | ok cpu =>
              cases op.passes e.cpu with
              | false => rfl
              | true => cases rest <;> rfl

theorem pendingCount_bare : e.bare.pendingCount = e.pendingCount := by
  unfold pendingCount
  rw [bare_phase]
  cases e.phase <;> rfl

theorem stepsWithin_bare (bound : Nat) : stepsWithin bound e.bare = (stepsWithin bound e).bare := by
  induction bound generalizing e with
  | zero => rfl
  | succ bound ih =>
      rw [stepsWithin, stepsWithin, step_bare, Reply.bare_andThen]
      intro more e
      cases more with
      | true => exact ih e
      | false => rfl

theorem finish_bare : e.bare.finish = e.finish.bare := by
  rw [finish, pendingCount_bare, stepsWithin_bare, finish]

/-! ### Activities, cycles and runs -/

theorem beginFetch_bare : e.bare.beginFetch = e.beginFetch.bare := e.begin_bare _ _

theorem beginDecode_bare : e.bare.beginDecode = e.beginDecode.bare := e.begin_bare _ _

theorem commence_bare (a : Activity) : e.bare.commence a = (e.commence a).bare := by
  cases a <;> simp only [commence, Reply.bare_map, beginFetch_bare, beginDecode_bare,
    beginExecute_bare, begin_bare]

theorem complete_bare (a : Activity) : e.bare.complete a = (e.complete a).bare := by
  rw [complete_eq, complete_eq, commence_bare, Reply.bare_andThen]
  intro begun e
  cases begun with
  | true => exact e.finish_bare
  | false => rfl

theorem fetch_bare : e.bare.fetch = e.fetch.bare := e.complete_bare .fetch

theorem decode_bare : e.bare.decode = e.decode.bare := e.complete_bare .decode

theorem execute_bare : e.bare.execute = e.execute.bare := e.complete_bare .execute

theorem operate_bare (circuit : Circuit) : e.bare.operate circuit = (e.operate circuit).bare :=
  e.complete_bare (.operate circuit)

theorem cycle_bare : e.bare.cycle = e.cycle.bare := by
  rw [cycle, cycle, fetch_bare, Reply.bare_andThen]
  intro _ e
  rw [decode_bare, Reply.bare_andThen]
  exact fun _ e => e.execute_bare

theorem runFrom_bare (c : Cancellation) (remaining done : Nat) (log : Array Event) :
    runFrom c remaining done log e.bare = (runFrom c remaining done log e).bare := by
  induction remaining generalizing done log e with
  | zero =>
      unfold runFrom
      rw [halted_bare]
      split
      · rfl
      · split <;> rfl
  | succ remaining ih =>
      unfold runFrom
      rw [halted_bare, cycle_bare]
      split
      · rfl
      · split
        · rfl
        · dsimp only
          cases hanswer : e.cycle.answer with
          | error fault => simp only [Reply.bare, hanswer]
          | ok _ =>
              simp only [Reply.bare, hanswer]
              exact ih _ _ _

theorem run_bare (limit : Nat) (c : Cancellation) : e.bare.run limit c = (e.run limit c).bare := by
  unfold run
  rw [isIdle_bare]
  split
  · exact e.runFrom_bare c limit 0 #[]
  · rfl

/-! ### Requests -/

theorem respond_bare (r : Request) : e.bare.respond r = (e.respond r).bare := by
  cases r <;> simp only [respond, Reply.bare_map, load_bare, reset_bare, setRegister_bare,
    poke_bare, setCurrent_bare, beginFetch_bare, beginDecode_bare, beginExecute_bare, step_bare,
    fetch_bare, decode_bare, execute_bare, cycle_bare, operate_bare, run_bare]

theorem replies_bare (rs : List Request) : e.bare.replies rs = (e.replies rs).map Reply.bare := by
  induction rs generalizing e with
  | nil => rfl
  | cons r rs ih =>
      rw [replies, replies, respond_bare, List.map_cons, ← ih]
      rfl

end Engine

/-! ### The current instruction -/

/-- What is left of decoding, if anything, makes the entry current that has the opcode in IR. -/
theorem MicroOp.current_of_perform_decode {table : InstructionSet} {pending : List MicroOp}
    {cpu after : Cpu} (hpending : pending <:+ decode) (hne : pending ≠ [])
    (hperform : perform table pending cpu = .ok after) :
    ∃ i, after.current = some i ∧ i.id = after.registers.ir.high := by
  simp only [decode, List.suffix_cons_iff, List.suffix_nil, hne, or_false] at hpending
  rcases hpending with rfl | rfl
  · change perform table decode cpu = .ok after at hperform
    rw [perform_decode] at hperform
    split at hperform
    · next i hi =>
        cases hperform
        exact ⟨i, rfl, InstructionSet.id_of_lookup hi⟩
    · cases hperform
  · rw [perform_lookup] at hperform
    split at hperform
    · next i hi =>
        cases hperform
        exact ⟨i, rfl, InstructionSet.id_of_lookup hi⟩
    · cases hperform

namespace Engine

theorem current_of_decode {e : Engine} (hok : e.decode.answer = .ok ()) :
    ∃ i, e.decode.engine.cpu.current = some i ∧
      i.id = e.decode.engine.cpu.registers.ir.high := by
  cases hphase : e.phase with
  | some p =>
      have hbusy : e.decode = e.refuse .busy := complete_of_phase (by simp [hphase]) .decode
      rw [hbusy] at hok
      cases hok
  | none =>
      rw [decode_eq] at hok ⊢
      cases hperform : MicroOp.perform e.table MicroOp.decode e.cpu with
      | error fault =>
          rw [(wholePhase_of_error hphase hperform .decoding).1] at hok
          cases hok
      | ok cpu =>
          rw [(wholePhase_of_ok hphase hperform .decoding).2]
          exact MicroOp.current_of_perform_decode (List.suffix_refl _) nofun hperform

/-- Likewise where decoding is done step by step. -/
theorem Coherent.current_of_step {table : InstructionSet} {e : Engine} (h : e.Coherent table)
    (hstage : e.stage? = some .decoding) (hover : e.step.answer = .ok false) :
    ∃ i, e.step.engine.cpu.current = some i ∧ i.id = e.step.engine.cpu.registers.ir.high := by
  obtain ⟨p, hphase, hdecoding⟩ := Option.map_eq_some_iff.mp hstage
  obtain ⟨-, done, hprogram, -, hdone⟩ := h.underWay p hphase
  rw [hdecoding] at hprogram
  have hdecode : MicroOp.decode = done ++ p.pending := Option.some.inj hprogram
  have hne : p.pending ≠ [] := by
    intro hnil
    rw [hdone hnil, hnil] at hdecode
    cases hdecode
  rcases step_cases hphase with ⟨op, rest, cpu, -, -, -, -, hstep⟩ | hstep
  · rw [hstep] at hover
    cases hover
  · rw [hstep] at hover ⊢
    unfold remainder at hover ⊢
    cases hperform : MicroOp.perform e.table p.pending e.cpu with
    | error fault =>
        rw [hperform] at hover
        cases hover
    | ok cpu => exact MicroOp.current_of_perform_decode ⟨done, hdecode.symm⟩ hne hperform

end Engine

/-! ### Replies that differ in words at most -/

/-- Two replies have the same answer and report the same, and leave engines that are the same but
for words. -/
structure Reply.AgreesWith {α : Type} (r r' : Reply α) : Prop where
  answer : r.answer = r'.answer
  log : r.log = r'.log
  memory : r.engine.cpu.memory = r'.engine.cpu.memory
  registers : r.engine.cpu.registers = r'.engine.cpu.registers
  alu : r.engine.cpu.alu = r'.engine.cpu.alu
  status : r.engine.cpu.status = r'.engine.cpu.status
  stage : r.engine.stage? = r'.engine.stage?
  pending : r.engine.pending = r'.engine.pending
  halted : r.engine.halted = r'.engine.halted
  current : r.engine.cpu.current.map (·.id) = r'.engine.cpu.current.map (·.id)

namespace Engine

theorem stage?_bare (e : Engine) : e.bare.stage? = e.stage? := by
  rw [stage?, bare_phase, Option.map_map]
  rfl

theorem pending_bare (e : Engine) : e.bare.pending = e.pending := by
  rw [pending, bare_phase, Option.map_map]
  rfl

theorem current_bare (e : Engine) :
    e.bare.cpu.current.map (·.id) = e.cpu.current.map (·.id) := by
  rw [bare_cpu, Cpu.bare_current, Option.map_map]
  rfl

end Engine

theorem Reply.agreesWith_of_bare {α : Type} {r r' : Reply α} (h : r.bare = r'.bare) :
    r.AgreesWith r' := by
  obtain ⟨hanswer, hengine, hlog⟩ := Reply.mk.inj h
  obtain ⟨-, hcpu, -⟩ := Engine.mk.inj hengine
  obtain ⟨hmemory, hregisters, halu, hstatus, -⟩ := Cpu.mk.inj hcpu
  exact {
    answer := hanswer
    log := hlog
    memory := hmemory
    registers := hregisters
    alu := halu
    status := hstatus
    stage := by rw [← Engine.stage?_bare, hengine, Engine.stage?_bare]
    pending := by rw [← Engine.pending_bare, hengine, Engine.pending_bare]
    halted := by rw [← Engine.halted_bare, hengine, Engine.halted_bare]
    current := by rw [← Engine.current_bare, hengine, Engine.current_bare] }

namespace Engine

theorem replies_agree {e e' : Engine} (h : e.bare = e'.bare) (rs : List Request) :
    List.Forall₂ Reply.AgreesWith (e.replies rs) (e'.replies rs) := by
  have hreplies : (e.replies rs).map Reply.bare = (e'.replies rs).map Reply.bare := by
    rw [← replies_bare, ← replies_bare, h]
  rw [← List.forall₂_eq_eq_eq, List.forall₂_map_left_iff, List.forall₂_map_right_iff] at hreplies
  exact hreplies.imp fun _ _ => Reply.agreesWith_of_bare

/-- **Only the ids of an instruction set matter to execution.** Entries are an instruction set just
if their ids differ; otherwise they are refused for the id of the first entry that repeats one. The
entries keep their order, and what is looked up is the entry with that id. So the current
instruction has the opcode in IR whenever one was decoded, at once or step by step. And engines with
any two tables that list the same ids reply alike to any requests in a row, whatever the order of
the entries and their words are. -/
theorem only_ids_matter :
    (∀ entries : List Instruction,
      (∀ id, InstructionSet.ofEntries entries = .error ⟨id⟩ ↔
        ∃ before i after, entries = before ++ i :: after ∧ i.id = id ∧
          id ∈ before.map (·.id) ∧ (before.map (·.id)).Nodup) ∧
      (∀ table, InstructionSet.ofEntries entries = .ok table ↔
        (entries.map (·.id)).Nodup ∧ table.entries = entries) ∧
      ∀ document, (Json.read? document).bind Json.instructions? = some entries →
        InstructionSet.ofDocument document =
          (InstructionSet.ofEntries entries).mapError .duplicateId) ∧
    (∀ (table : InstructionSet) (k : Byte),
      ((∃ i, table.lookup k = some i) ↔ ∃ i ∈ table.entries, i.id = k) ∧
      ∀ i, table.lookup k = some i ↔ i ∈ table.entries ∧ i.id = k) ∧
    (∀ e : Engine, e.decode.answer = .ok () →
      ∃ i, e.decode.engine.cpu.current = some i ∧
        i.id = e.decode.engine.cpu.registers.ir.high) ∧
    (∀ (table : InstructionSet) (rs : List Request),
      let e := ({ table } : Engine).after rs
      e.stage? = some .decoding → e.step.answer = .ok false →
      ∃ i, e.step.engine.cpu.current = some i ∧ i.id = e.step.engine.cpu.registers.ir.high) ∧
    ∀ s t : InstructionSet,
      (∀ id, (∃ i ∈ s.entries, i.id = id) ↔ ∃ i ∈ t.entries, i.id = id) →
      ∀ rs : List Request, List.Forall₂ Reply.AgreesWith
        (({ table := s } : Engine).replies rs) (({ table := t } : Engine).replies rs) := by
  refine ⟨fun entries => ⟨fun id => InstructionSet.ofEntries_eq_error_iff,
      fun table => InstructionSet.ofEntries_eq_ok_iff,
      fun _ => InstructionSet.ofDocument_of_instructions?⟩,
    fun table k => ⟨table.exists_lookup_iff k, fun _ => InstructionSet.lookup_eq_some_iff⟩,
    fun _ => current_of_decode, fun table rs => (Coherent.of_requests table rs).current_of_step,
    fun s t hids => replies_agree ?_⟩
  simp [bare, InstructionSet.bare_eq_bare hids]

/-- The built-in instruction set backwards and in other words. -/
def backwards : InstructionSet :=
  .ofDistinct (InstructionSet.builtIn.entries.reverse.map fun i => ⟨i.id, "?", "?"⟩) (by decide)

/-- A program runs to its halt with either table, and an unknown id is refused with either. Of four
entries the third is the first that repeats an id. -/
theorem only_ids_matter_backwards :
    let fetched : List Request := [.load [0x0000#16, 0x0005#16, 0xFF00#16], .fetch]
    let begun := fetched ++ [.beginDecode, .step]
    let rs := begun ++ [.step, .run 3 .never, .setCurrent 0x99]
    let e : Engine := { table := .builtIn }
    let e' : Engine := { table := backwards }
    InstructionSet.ofEntries [⟨1, "a", ""⟩, ⟨2, "b", ""⟩, ⟨2, "c", ""⟩, ⟨1, "d", ""⟩] = .error ⟨2⟩ ∧
      (∃ i, (e.after fetched).decode.engine.cpu.current = some i ∧
        i.id = (e.after fetched).decode.engine.cpu.registers.ir.high) ∧
      (∃ i, (e.after begun).step.engine.cpu.current = some i ∧
        i.id = (e.after begun).step.engine.cpu.registers.ir.high) ∧
      List.Forall₂ Reply.AgreesWith (e.replies rs) (e'.replies rs) ∧
      (e.after rs).cpu.current ≠ (e'.after rs).cpu.current := by
  intro fetched begun rs e e'
  obtain ⟨hentries, -, hdecode, hstep, hagree⟩ := only_ids_matter
  have hrepeated := ((hentries [⟨1, "a", ""⟩, ⟨2, "b", ""⟩, ⟨2, "c", ""⟩, ⟨1, "d", ""⟩]).1 2).mpr
    ⟨[⟨1, "a", ""⟩, ⟨2, "b", ""⟩], ⟨2, "c", ""⟩, [⟨1, "d", ""⟩], rfl, rfl, by simp, by simp⟩
  have hids (id : Byte) : (∃ i ∈ InstructionSet.builtIn.entries, i.id = id) ↔
      ∃ i ∈ backwards.entries, i.id = id := by
    simp [backwards]
  have hwords : (e.after rs).cpu.current ≠ (e'.after rs).cpu.current := by decide +kernel
  exact ⟨hrepeated, hdecode (e.after fetched) (by decide +kernel),
    hstep .builtIn begun (by decide +kernel) (by decide +kernel),
    hagree .builtIn backwards hids rs, hwords⟩

end Engine

end TeachingCpu
