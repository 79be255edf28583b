import TeachingCpu.Proofs.Machine.Faults
import TeachingCpu.Proofs.Machine.Invariant
/-!
# TeachingCpu.Proofs.Machine.Trace

**The trace is a faithful record.** What a phase logs says which micro-instructions were attempted,
in which order, and where the phase failed; and as every micro-instruction has a text of its own
(`MicroOp.text_injective`), the processor state that a phase leaves can be computed from its log
alone.

Design points:

* How a phase can go (`MicroOp.Course`) is said without an engine: its program is done to the end,
  or a guard leaves out the rest, or a micro-instruction fails. `MicroOp.course_of_leads` shows by
  induction on what is still to come that nothing else happens.
* A log is read back (`MicroOp.recorded`) from the texts of its entries, not from the events behind
  them.
-/

set_option autoImplicit false

namespace TeachingCpu

/-! ### Texts of micro-instructions -/

theorem Register.mem_all (r : Register) : r ∈ all := by cases r <;> decide

theorem Circuit.mem_all (c : Circuit) : c ∈ all := by cases c <;> decide

theorem Flag.mem_all (f : Flag) : f ∈ all := by cases f <;> decide

/-- Every source. -/
def Source.all : List Source := Register.all.map .register ++ [.operand]

theorem Source.mem_all (source : Source) : source ∈ all := by
  cases source with
  | register r => simp [all, r.mem_all]
  | operand => simp [all]

namespace MicroOp

/-- Every micro-instruction. -/
def all : List MicroOp :=
  Source.all.flatMap (fun source => Register.all.map (.transfer source)) ++
  [.incrementPc, .selectAddress, .readMemory, .writeMemory, .lookup, .compute] ++
  Circuit.all.map .setCircuit ++ Source.all.map .loadX ++ Source.all.map .loadY ++
  Register.all.map .storeZ ++ Flag.all.flatMap fun flag => [.guard flag false, .guard flag true]

theorem mem_all (op : MicroOp) : op ∈ all := by
  cases op with
  | transfer source dest => simp [all, source.mem_all, dest.mem_all]
  | setCircuit circuit => simp [all, circuit.mem_all]
  | loadX source => simp [all, source.mem_all]
  | loadY source => simp [all, source.mem_all]
  | storeZ dest => simp [all, dest.mem_all]
  | guard flag state => cases state <;> simp [all, flag.mem_all]
  | _ => simp [all]

/-- The micro-instruction that a text stands for. -/
def ofText? (text : String) : Option MicroOp := all.find? fun op => op.text == text

set_option maxRecDepth 4000 in
theorem ofText?_text_of_mem_all : ∀ op ∈ all, ofText? op.text = some op := by decide +kernel

@[simp] theorem ofText?_text (op : MicroOp) : ofText? op.text = some op :=
  ofText?_text_of_mem_all op op.mem_all

/-- Distinct micro-instructions have distinct texts. -/
theorem text_injective : Function.Injective text := by
  intro op other h
  have hread : some op = some other := by rw [← ofText?_text op, h, ofText?_text]
  exact Option.some.inj hread

/-! ### Reading a log back -/

/-- The micro-instruction that an entry of a log names. -/
def named? (entry : Entry) : Option MicroOp :=
  if entry.level = .trace then ofText? entry.message else none

/-- The micro-instructions that a log names. -/
def recorded (log : List Entry) : List MicroOp := log.filterMap named?

@[simp] theorem named?_trace (op : MicroOp) : named? ⟨.trace, op.text⟩ = some op := by
  simp [named?]

@[simp] theorem named?_of_ne {level : Level} (h : level ≠ .trace) (message : String) :
    named? ⟨level, message⟩ = none := by
  simp [named?, h]

theorem recorded_append (earlier later : List Entry) :
    recorded (earlier ++ later) = recorded earlier ++ recorded later :=
  List.filterMap_append

@[simp] theorem recorded_map_trace (ops : List MicroOp) :
    recorded (ops.map fun op => ⟨.trace, op.text⟩) = ops := by
  have hname : named? ∘ (fun op : MicroOp => ⟨.trace, op.text⟩) = some := funext named?_trace
  rw [recorded, List.filterMap_map, hname, List.filterMap_some]

/-! ### Replaying -/

variable {table : InstructionSet} {program done rest ops : List MicroOp} {op : MicroOp}
  {start cpu after : Cpu}

/-- Micro-instructions applied one after the other, each to the state that the one before left. -/
def replay (table : InstructionSet) (ops : List MicroOp) (cpu : Cpu) : Except Fault Cpu :=
  ops.foldlM (fun cpu op => op.apply table cpu) cpu

theorem replay_snoc (table : InstructionSet) (ops : List MicroOp) (op : MicroOp) (cpu : Cpu) :
    replay table (ops ++ [op]) cpu = (replay table ops cpu).bind (op.apply table) := by
  simp only [replay, List.foldlM_append, List.foldlM_cons, List.foldlM_nil, bind_pure]
  rfl

theorem Leads.replay_eq (h : Leads table ops start cpu) : replay table ops start = .ok cpu := by
  induction h with
  | none cpu => rfl
  | next _ hop _ ih =>
      rw [replay_snoc, ih]
      exact hop

/-! ### The ways a phase can go -/

/-- How a micro-program can go from a state on: which micro-instructions of it are attempted, and
what comes of it. -/
inductive Course (table : InstructionSet) (program : List MicroOp) (start : Cpu) :
    List MicroOp → Except Fault Cpu → Prop
  /-- Every micro-instruction is done. -/
  | whole {cpu : Cpu} (hdone : Leads table program start cpu) :
      Course table program start program (.ok cpu)
  /-- A flag is not in the state that a guard asks for, which leaves out the rest. -/
  | leftOut {done rest : List MicroOp} {cpu : Cpu} {flag : Flag} {state : Bool}
      (hprogram : done ++ .guard flag state :: rest = program)
      (hdone : Leads table done start cpu) (hflag : cpu.status.get flag ≠ state) :
      Course table program start (done ++ [.guard flag state]) (.ok cpu)
  /-- A micro-instruction fails. -/
  | failed {done rest : List MicroOp} {cpu : Cpu} {op : MicroOp} {fault : Fault}
      (hprogram : done ++ op :: rest = program) (hdone : Leads table done start cpu)
      (hop : op.apply table cpu = .error fault) :
      Course table program start (done ++ [op]) (.error fault)

theorem exists_guard_of_passes_eq_false (h : op.passes cpu = false) :
    ∃ flag state, op = .guard flag state ∧ cpu.status.get flag ≠ state := by
  cases op with
  | guard flag state => exact ⟨flag, state, rfl, by simpa [passes] using h⟩
  | _ => cases h

theorem course_of_leads (hprogram : done ++ rest = program) (hdone : Leads table done start cpu) :
    Course table program start (done ++ attempts table rest cpu) (perform table rest cpu) := by
  -- what is done grows at its end by what is taken off what is still to come
  induction rest generalizing done cpu with
  | nil =>
      obtain rfl : done = program := by simpa using hprogram
      simpa [attempts, perform] using Course.whole hdone
  | cons op rest ih =>
      simp only [attempts, perform]
      cases hop : op.apply table cpu with
      | error fault => exact .failed hprogram hdone hop
      | ok next =>
          cases hpasses : op.passes cpu with
          | true =>
              have hsnoc : (done ++ [op]) ++ rest = program := by simpa using hprogram
              simpa using ih hsnoc (hdone.next hop hpasses)
          | false =>
              obtain ⟨flag, state, rfl, hflag⟩ := exists_guard_of_passes_eq_false hpasses
              obtain rfl : cpu = next := Except.ok.inj hop
              exact .leftOut hprogram hdone hflag

theorem course (table : InstructionSet) (program : List MicroOp) (start : Cpu) :
    Course table program start (attempts table program start) (perform table program start) :=
  course_of_leads rfl (.none start)

namespace Course

variable {outcome : Except Fault Cpu}

theorem prefix_program (h : Course table program start ops outcome) : ops <+: program := by
  cases h with
  | whole _ => exact List.prefix_rfl
  | leftOut hprogram _ _ => exact ⟨_, by simpa using hprogram⟩
  | failed hprogram _ _ => exact ⟨_, by simpa using hprogram⟩

theorem replay_eq (h : Course table program start ops outcome) :
    replay table ops start = outcome := by
  cases h with
  | whole hdone => exact hdone.replay_eq
  | leftOut _ hdone _ =>
      rw [replay_snoc, hdone.replay_eq]
      rfl
  | failed _ hdone hop =>
      rw [replay_snoc, hdone.replay_eq]
      exact hop

theorem exists_last {fault : Fault} (h : Course table program start ops (.error fault)) :
    ∃ done op, ops = done ++ [op] := by
  cases h with
  | failed _ _ _ => exact ⟨_, _, rfl⟩

end Course

end MicroOp

/-! ### The log of a phase -/

namespace Stage

/-- The entry that a phase begins with. -/
def heading : Stage → Entry
  | .fetching => ⟨.phase, "Fetching"⟩
  | .decoding => ⟨.phase, "Decoding"⟩
  | .executing => ⟨.phase, "Executing"⟩

/-- The name of a phase in the middle of a sentence. -/
def gerund : Stage → String
  | .fetching => "fetching"
  | .decoding => "decoding"
  | .executing => "executing"

/-- The entries of a phase in which micro-instructions were attempted. -/
def record (stage : Stage) (ops : List MicroOp) : List Entry :=
  stage.heading :: ops.map fun op => ⟨.trace, op.text⟩

/-- The entry of a phase that a micro-instruction made fail. -/
def warning (stage : Stage) (op : MicroOp) : Entry :=
  ⟨.warning, s!"`{op.text}` failed, rolled back to before {stage.gerund}"⟩

theorem phase_name_eq_heading (stage : Stage) : ⟨.phase, stage.name⟩ = stage.heading := by
  cases stage <;> rfl

theorem toLower_name (stage : Stage) : stage.name.toLower = stage.gerund := by
  cases stage <;> decide +kernel

@[simp] theorem recorded_record (stage : Stage) (ops : List MicroOp) :
    MicroOp.recorded (stage.record ops) = ops := by
  rw [record, ← phase_name_eq_heading, MicroOp.recorded,
    List.filterMap_cons_none (MicroOp.named?_of_ne (by decide) _)]
  exact MicroOp.recorded_map_trace ops

@[simp] theorem recorded_record_warning (stage : Stage) (ops : List MicroOp) (op : MicroOp) :
    MicroOp.recorded (stage.record ops ++ [stage.warning op]) = ops := by
  have hwarning : MicroOp.recorded [stage.warning op] = [] := by
    simp [MicroOp.recorded, warning]
  rw [MicroOp.recorded_append, recorded_record, hwarning, List.append_nil]

end Stage

namespace Engine

variable {e : Engine} {a : Activity} {program : List MicroOp}

/-- An activity that succeeds logs its phase and what it attempted. -/
theorem entries_complete_of_ok (hidle : e.phase = none)
    (hprogram : a.program? e.cpu = some program) {cpu : Cpu}
    (hperform : MicroOp.perform e.table program e.cpu = .ok cpu) :
    (e.complete a).log.map Event.entry =
      a.stage.record (MicroOp.attempts e.table program e.cpu) := by
  simp [complete_of_program hidle hprogram, wholePhase_eq hidle, remainder, hperform,
    Reply.prependLog, Stage.record, Stage.phase_name_eq_heading, Event.entry, Function.comp_def]

/-- An activity that fails logs its phase, what it attempted, and that the last of this failed. -/
theorem entries_complete_of_error (hidle : e.phase = none)
    (hprogram : a.program? e.cpu = some program) {fault : Fault}
    (hperform : MicroOp.perform e.table program e.cpu = .error fault)
    {done : List MicroOp} {op : MicroOp}
    (hattempts : MicroOp.attempts e.table program e.cpu = done ++ [op]) :
    (e.complete a).log.map Event.entry =
      a.stage.record (done ++ [op]) ++ [a.stage.warning op] := by
  simp [complete_of_program hidle hprogram, wholePhase_eq hidle, remainder, hperform, hattempts,
    Reply.prependLog, Stage.record, Stage.phase_name_eq_heading, Stage.warning, Stage.phaseName,
    Stage.toLower_name, Event.entry, Function.comp_def]

/-- **The trace is a faithful record.** An activity that begins a phase logs the phase, the
micro-instructions attempted, and a warning if and only if it fails; from a log without one, the
state that the phase left follows by doing what it names. -/
theorem trace_faithful (hidle : e.phase = none) (hprogram : a.program? e.cpu = some program) :
    let r := e.complete a
    let log := r.log.map Event.entry
    Function.Injective MicroOp.text ∧
    ∃ ops, ops <+: program ∧ MicroOp.recorded log = ops ∧
      (r.answer = .ok () →
        MicroOp.Course e.table program e.cpu ops (.ok r.engine.cpu) ∧
        log = a.stage.record ops ∧
        MicroOp.replay e.table (MicroOp.recorded log) e.cpu = .ok r.engine.cpu) ∧
      ∀ fault, r.answer = .error fault →
        MicroOp.Course e.table program e.cpu ops (.error fault) ∧
        ∃ done op, ops = done ++ [op] ∧ log = a.stage.record ops ++ [a.stage.warning op] := by
  intro r log
  have hcourse := MicroOp.course e.table program e.cpu
  refine ⟨MicroOp.text_injective, MicroOp.attempts e.table program e.cpu,
    hcourse.prefix_program, ?_⟩
  -- what is attempted is the same either way; the outcome decides how the log ends
  cases hperform : MicroOp.perform e.table program e.cpu with
  | ok cpu =>
      have hlog : log = a.stage.record _ := entries_complete_of_ok hidle hprogram hperform
      have hcpu : r.engine.cpu = cpu := by
        simp [r, complete_of_program hidle hprogram, wholePhase_of_ok hidle hperform]
      have hanswer : r.answer = .ok () := by
        simp [r, complete_of_program hidle hprogram, wholePhase_of_ok hidle hperform]
      rw [hlog, Stage.recorded_record, hcpu, ← hperform, hanswer]
      exact ⟨rfl, fun _ => ⟨hcourse, rfl, hcourse.replay_eq⟩, fun fault h => by cases h⟩
  | error fault =>
      rw [hperform] at hcourse
      obtain ⟨done, op, hattempts⟩ := hcourse.exists_last
      have hlog : log = _ := entries_complete_of_error hidle hprogram hperform hattempts
      have hanswer : r.answer = .error fault := by
        simp [r, complete_of_program hidle hprogram, wholePhase_of_error hidle hperform]
      rw [hlog, Stage.recorded_record_warning, hanswer]
      refine ⟨hattempts.symm, (by intro h; cases h), fun other h => ?_⟩
      obtain rfl : fault = other := Except.error.inj h
      exact ⟨hcourse, done, op, hattempts, by rw [hattempts]⟩

/-- The next word can be fetched here, but the current instruction stores past memory. -/
theorem trace_faithful_fetch_and_stray_store :
    let e : Engine := {
      table := .builtIn
      cpu := {
        memory := ({} : Memory).set 0x10 0x0200
        registers := { ir := 0x1A10 }
        current := some ⟨0x1A, "MOVE A,(addr)", "Store GPA at the address held in memory"⟩ } }
    let fetched := e.fetch.log.map Event.entry
    let executed := e.execute.log.map Event.entry
    fetched = Stage.fetching.record (MicroOp.recorded fetched) ∧
      MicroOp.replay e.table (MicroOp.recorded fetched) e.cpu = .ok e.fetch.engine.cpu ∧
      MicroOp.Course e.table (Operation.store true .a).microProgram e.cpu
        (MicroOp.recorded executed) (.error (.memory (.addressOutOfRange 0x0200))) ∧
      executed.getLast? =
        some ⟨.warning, "`POINTER <- MAR` failed, rolled back to before executing"⟩ := by
  intro e fetched executed
  have hpointer : e.cpu.memory.get e.cpu.registers.operand = 0x0200 := by decide
  have hanswer : e.execute.answer = .error (.memory (.addressOutOfRange 0x0200)) := by
    rw [execute_eq_error_iff rfl, hpointer]
    exact ⟨_, rfl, .inr ⟨⟨.a, by decide⟩, by decide, rfl⟩⟩
  have hfetch : Activity.fetch.program? e.cpu = some MicroOp.fetch := rfl
  have hstore : Activity.execute.program? e.cpu = some (Operation.store true .a).microProgram := by
    decide
  obtain ⟨-, ops, -, hops, hok, -⟩ := trace_faithful (e := e) rfl hfetch
  obtain ⟨-, hlog, hreplay⟩ := hok rfl
  obtain ⟨-, attempted, -, hattempted, -, herror⟩ := trace_faithful (e := e) rfl hstore
  obtain ⟨hcourse, -⟩ := herror _ hanswer
  exact ⟨hops.symm ▸ hlog, hreplay, hattempted.symm ▸ hcourse, by decide +kernel⟩

end Engine

end TeachingCpu
