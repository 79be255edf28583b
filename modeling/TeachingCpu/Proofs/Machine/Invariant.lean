import TeachingCpu.Proofs.InstructionSet.Table
import TeachingCpu.Proofs.Machine.Request
import TeachingCpu.Proofs.Machine.Run
/-!
# TeachingCpu.Proofs.Machine.Invariant

**What holds of an engine between any two requests** (`Engine.Coherent`), whatever was asked of it
before and whatever it answered.

While a phase is under way its micro-program is in two parts: the one done, which leads from the
state kept for going back to the present one (`MicroOp.Leads`), and the one to come. A guard that
fails ends its phase at once, so what is done never contains one.

Requests other than steps keep an idle engine idle or put a whole micro-program before it, so only
`Engine.step_cases` has to look into a phase.
-/

set_option autoImplicit false

namespace TeachingCpu

/-! ### Sound processor states -/

/-- The upper half of the status register is clear, and the current instruction is one of the
table's. -/
structure Cpu.Sound (table : InstructionSet) (cpu : Cpu) : Prop where
  current : ∀ i, cpu.current = some i → i ∈ table.entries
  status : cpu.status.bits.toNat < 16

theorem Status.set_lt {s : Status} (h : s.bits.toNat < 16) (flag : Flag) (state : Bool) :
    (s.set flag state).bits.toNat < 16 := by
  unfold set
  split
  · exact h
  · have hbit : (BitVec.twoPow 8 flag.index).toNat < 2 ^ 4 := by cases flag <;> decide
    rw [BitVec.toNat_xor]
    exact Nat.xor_lt_two_pow h hbit

theorem Status.record_lt {s : Status} (h : s.bits.toNat < 16) (result : Computed) :
    (s.record result).bits.toNat < 16 :=
  set_lt (set_lt (set_lt (set_lt h _ _) _ _) _ _) _ _

namespace Cpu

variable {table : InstructionSet} {cpu next : Cpu}

theorem Sound.initial (table : InstructionSet) : ({} : Cpu).Sound table where
  current _ h := by cases h
  status := by decide

/-- Soundness is about the current instruction and the status register alone. -/
theorem Sound.congr (h : cpu.Sound table) (hcurrent : next.current = cpu.current)
    (hstatus : next.status = cpu.status) : next.Sound table :=
  ⟨hcurrent ▸ h.current, hstatus ▸ h.status⟩

theorem Sound.apply (h : cpu.Sound table) {op : MicroOp} (hop : op.apply table cpu = .ok next) :
    next.Sound table := by
  -- only a lookup makes an instruction current, and only computing writes the status register
  cases op with
  | lookup =>
      rw [MicroOp.apply] at hop
      split at hop
      · next i hi =>
          cases hop
          refine ⟨fun j hj => ?_, h.status⟩
          cases hj
          exact InstructionSet.mem_of_lookup hi
      · cases hop
  | compute =>
      rw [MicroOp.apply, Alu.compute] at hop
      cases hresult : cpu.alu.circuit.compute cpu.alu.x cpu.alu.y with
      | error _ =>
          rw [hresult] at hop
          cases hop
      | ok result =>
          rw [hresult] at hop
          cases hop
          exact ⟨h.current, Status.record_lt h.status result⟩
  | selectAddress =>
      rw [MicroOp.apply] at hop
      split at hop <;> cases hop
      exact h.congr rfl rfl
  | _ =>
      cases hop
      exact h.congr rfl rfl

theorem Sound.perform (h : cpu.Sound table) {program : List MicroOp}
    (hperform : MicroOp.perform table program cpu = .ok next) : next.Sound table := by
  induction program generalizing cpu with
  | nil =>
      cases hperform
      exact h
  | cons op rest ih =>
      rw [MicroOp.perform] at hperform
      split at hperform
      · cases hperform
      · next between hop =>
          split at hperform
          · exact ih (h.apply hop) hperform
          · cases hperform
            exact h.apply hop

end Cpu

/-! ### Micro-instructions done -/

namespace MicroOp

/-- Micro-instructions in a row lead from one state to another: each succeeds, and lets the phase
go on. -/
inductive Leads (table : InstructionSet) : List MicroOp → Cpu → Cpu → Prop
  | none (cpu : Cpu) : Leads table [] cpu cpu
  | next {done : List MicroOp} {start cpu after : Cpu} {op : MicroOp}
      (before : Leads table done start cpu) (hop : op.apply table cpu = .ok after)
      (hpasses : op.passes cpu = true) : Leads table (done ++ [op]) start after

end MicroOp

/-! ### The invariant -/

namespace Engine

/-- The stage of the phase under way. -/
def stage? (e : Engine) : Option Stage := e.phase.map (·.stage)

/-- The micro-instructions still to come. -/
def pending (e : Engine) : List MicroOp := (e.phase.map (·.pending)).getD []

/-- What holds of an engine between any two requests: it has the table that it began with and is in
a sound state. What is to come of a phase is the rest of its micro-program, and what is done of it
leads from the state to go back to, to the present one. Nothing is left to do only where nothing was
to be done at all. -/
structure Coherent (table : InstructionSet) (e : Engine) : Prop where
  table_eq : e.table = table
  sound : e.cpu.Sound table
  underWay : ∀ p, e.phase = some p → p.start.Sound table ∧ ∃ done,
    p.stage.activity.program? p.start = some (done ++ p.pending) ∧
    MicroOp.Leads table done p.start e.cpu ∧ (p.pending = [] → done = [])

variable {table : InstructionSet} {e : Engine} {p : Phase}

theorem coherent_of_idle (htable : e.table = table) (hidle : e.phase = none)
    (hsound : e.cpu.Sound table) : e.Coherent table where
  table_eq := htable
  sound := hsound
  underWay p hphase := by
    rw [hidle] at hphase
    exact nomatch hphase

/-! ### Whole phases -/

theorem remainder_coherent (htable : e.table = table) (hsound : e.cpu.Sound table)
    (hstart : p.start.Sound table) : (e.remainder p).engine.Coherent table := by
  subst htable
  refine coherent_of_idle ?_ (remainder_phase e p) ?_ <;> unfold remainder <;> split
  · rfl
  · rfl
  · next cpu hperform => exact hsound.perform hperform
  · exact hstart

theorem Coherent.step (h : e.Coherent table) : e.step.engine.Coherent table := by
  cases hphase : e.phase with
  | none =>
      have hstep : e.step = ⟨.ok false, e, []⟩ := by simp [Engine.step, hphase]
      rw [hstep]
      exact h
  | some p =>
      obtain ⟨hstart, done, hprogram, hleads, -⟩ := h.underWay p hphase
      rcases step_cases hphase with ⟨op, rest, cpu, hpending, hrest, hop, hpasses, hstep⟩ | hstep
      · rw [h.table_eq] at hop
        rw [hpending, List.append_cons] at hprogram
        rw [hstep]
        refine ⟨h.table_eq, h.sound.apply hop, fun p' hphase' => ?_⟩
        obtain rfl := Option.some.inj hphase'
        exact ⟨hstart, done ++ [op], hprogram, hleads.next hop hpasses,
          fun hnil => absurd hnil hrest⟩
      · rw [hstep]
        exact remainder_coherent h.table_eq h.sound hstart

theorem Coherent.commence (h : e.Coherent table) (stage : Stage) :
    (e.commence stage.activity).engine.Coherent table := by
  rcases commence_cases e stage.activity with ⟨hengine, -⟩ | ⟨program, hidle, hprogram⟩
  · rw [hengine]
    exact h
  · rw [commence_of_program hidle hprogram, Stage.stage_activity]
    refine ⟨h.table_eq, h.sound, fun p hphase => ?_⟩
    obtain rfl := Option.some.inj hphase
    exact ⟨h.sound, [], hprogram, .none _, fun _ => rfl⟩

theorem Coherent.complete (h : e.Coherent table) (a : Activity) :
    (e.complete a).engine.Coherent table := by
  rcases complete_cases e a with hengine | ⟨program, hidle, hcomplete⟩
  · rw [hengine]
    exact h
  · rw [hcomplete, wholePhase_eq hidle]
    exact remainder_coherent h.table_eq h.sound h.sound

/-! ### Cycles -/

theorem Coherent.andThen {α β : Type} {r : Reply α} {next : α → Engine → Reply β}
    (h : r.engine.Coherent table)
    (hnext : ∀ a e, Coherent table e → (next a e).engine.Coherent table) :
    (r.andThen next).engine.Coherent table := by
  cases hanswer : r.answer with
  | error _ =>
      rw [Reply.andThen_of_error hanswer]
      exact h
  | ok a =>
      rw [Reply.andThen_of_ok hanswer]
      exact hnext a _ h

theorem Coherent.cycle (h : e.Coherent table) : e.cycle.engine.Coherent table :=
  (h.complete .fetch).andThen fun _ _ h => (h.complete .decode).andThen fun _ _ h =>
    h.complete .execute

/-! ### Every request -/

/-- An idle engine stays coherent when its state is replaced by a sound one. -/
theorem Coherent.set (h : e.Coherent table) (hidle : e.isIdle = true) {cpu : Cpu}
    (hsound : cpu.Sound table) : Coherent table { e with cpu } :=
  coherent_of_idle h.table_eq (Option.isNone_iff_eq_none.mp hidle) hsound

theorem Coherent.load (h : e.Coherent table) (image : List Word) :
    (e.load image).engine.Coherent table := by
  unfold Engine.load
  split
  · next hidle =>
      split
      · exact h
      · split
        · split
          · exact h
          · exact h.set hidle ((Cpu.Sound.initial table).congr rfl rfl)
        · exact h
  · exact h

theorem Coherent.reset (h : e.Coherent table) : e.reset.engine.Coherent table := by
  unfold Engine.reset
  split
  · next hidle => exact h.set hidle (Cpu.Sound.initial table)
  · exact h

theorem Coherent.setRegister (h : e.Coherent table) (register : Register) (word : Word) :
    (e.setRegister register word).engine.Coherent table := by
  unfold Engine.setRegister
  split
  · next hidle => exact h.set hidle (h.sound.congr rfl rfl)
  · exact h

theorem Coherent.poke (h : e.Coherent table) (address word : Word) :
    (e.poke address word).engine.Coherent table := by
  unfold Engine.poke
  split
  · next hidle =>
      split
      · exact h.set hidle (h.sound.congr rfl rfl)
      · exact h
  · exact h

theorem Coherent.setCurrent (h : e.Coherent table) (id : Byte) :
    (e.setCurrent id).engine.Coherent table := by
  unfold Engine.setCurrent
  split
  · next hidle =>
      split
      · next i hi =>
          have hmem : i ∈ table.entries := by
            rw [← h.table_eq]
            exact InstructionSet.mem_of_lookup hi
          refine h.set hidle ⟨fun j hj => ?_, h.sound.status⟩
          cases hj
          exact hmem
      · exact h
  · exact h

theorem Coherent.run (h : e.Coherent table) (limit : Nat) (c : Cancellation) :
    (e.run limit c).engine.Coherent table := by
  unfold Engine.run
  split
  · exact runFrom_induction
      (motive := fun e reply => e.Coherent table → reply.engine.Coherent table)
      (fun _ _ _ h => h) (fun _ _ _ _ h => h.cycle) (fun _ _ _ ih h => ih h.cycle) c limit 0 #[] e h
  · exact h

theorem Coherent.respond (h : e.Coherent table) (r : Request) :
    (e.respond r).engine.Coherent table := by
  cases r with
  | load image => exact h.load image
  | reset => exact h.reset
  | setRegister register word => exact h.setRegister register word
  | poke address word => exact h.poke address word
  | setCurrent id => exact h.setCurrent id
  | beginFetch => exact h.commence .fetching
  | beginDecode => exact h.commence .decoding
  | beginExecute => exact h.commence .executing
  | step => exact h.step
  | fetch => exact h.complete .fetch
  | decode => exact h.complete .decode
  | execute => exact h.complete .execute
  | cycle => exact h.cycle
  | operate circuit => exact h.complete (.operate circuit)
  | run limit c => exact h.run limit c

theorem Coherent.after (h : e.Coherent table) (rs : List Request) :
    (e.after rs).Coherent table := by
  induction rs generalizing e with
  | nil => exact h
  | cons r rs ih => exact ih (h.respond r)

/-- An engine is coherent whatever was asked of it. -/
theorem Coherent.of_requests (table : InstructionSet) (rs : List Request) :
    (({ table } : Engine).after rs).Coherent table := by
  have hnew : Coherent table { table } := coherent_of_idle rfl rfl (Cpu.Sound.initial table)
  exact hnew.after rs

end Engine

end TeachingCpu
