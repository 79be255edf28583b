import TeachingCpu.Proofs.Machine.Bounded
import TeachingCpu.Proofs.Machine.Interleaving
/-!
# TeachingCpu.Proofs.Machine.Idle

**An idle engine comes to rest again.** Whatever it is asked to carry out as a whole, it is idle
afterwards and does not answer that it is busy (`Reply.Settled`). If it fails in a single operation
it is as it was before (`Reply.Undoes`). If it fails in a row of cycles it is where the cycles
before the failing one lead, and the phases of that one which it completed (`Engine.Abandons`).
-/

set_option autoImplicit false

namespace TeachingCpu

/-! ### Replies -/

/-- A reply that leaves an idle engine, for a reason other than that another phase is under way. -/
structure Reply.Settled {α : Type} (r : Reply α) : Prop where
  idle : r.engine.phase = none
  notBusy : r.answer ≠ .error .busy

/-- A reply that leaves the engine as it was if it is a fault. -/
def Reply.Undoes {α : Type} (r : Reply α) (e : Engine) : Prop :=
  ∀ fault, r.answer = .error fault → r.engine = e

/-! ### Faults of micro-programs -/

namespace MicroOp

theorem apply_ne_busy (table : InstructionSet) (cpu : Cpu) (op : MicroOp) :
    op.apply table cpu ≠ .error .busy := by
  intro h
  cases op with
  | selectAddress =>
      rw [apply] at h
      split at h <;> cases h
  | lookup =>
      rw [apply] at h
      split at h <;> cases h
  | compute =>
      rw [apply] at h
      split at h <;> cases h
  | _ => cases h

theorem perform_ne_busy (table : InstructionSet) (program : List MicroOp) (cpu : Cpu) :
    perform table program cpu ≠ .error .busy := by
  induction program generalizing cpu with
  | nil => simp [perform]
  | cons op rest ih =>
      rw [perform]
      split
      · next fault hop =>
          intro h
          rw [Except.error.inj h] at hop
          exact apply_ne_busy table cpu op hop
      · split
        · exact ih _
        · simp

end MicroOp

namespace Engine

variable {e : Engine} {fault : Fault} {limit : Nat}

/-! ### Single operations -/

theorem complete_ne_busy (hidle : e.phase = none) (a : Activity) :
    (e.complete a).answer ≠ .error .busy := by
  cases hprogram : a.program? e.cpu with
  | some program =>
      have hperform := MicroOp.perform_ne_busy e.table program e.cpu
      rw [complete_of_program hidle hprogram]
      cases hresult : MicroOp.perform e.table program e.cpu with
      | ok cpu =>
          rw [(wholePhase_of_ok hidle hresult a.stage).1]
          exact nofun
      | error fault =>
          rw [(wholePhase_of_error hidle hresult a.stage).1]
          rw [hresult] at hperform
          simpa using hperform
  | none =>
      rcases complete_of_no_program hidle hprogram with ⟨-, hcomplete⟩ | ⟨i, -, -, hcomplete⟩
      · rw [hcomplete]
        exact nofun
      · rw [hcomplete]
        exact nofun

theorem complete_settled (hidle : e.phase = none) (a : Activity) : (e.complete a).Settled :=
  ⟨complete_phase hidle a, complete_ne_busy hidle a⟩

theorem complete_undoes (e : Engine) (a : Activity) : (e.complete a).Undoes e :=
  fun _ => complete_of_error

/-- A change of state is done, or refused for a reason other than that a phase is under way. -/
theorem settled_of_set {r : Reply Unit} (hidle : e.phase = none)
    (h : (∃ cpu log, r = ⟨.ok (), { e with cpu }, log⟩) ∨ ∃ fault ≠ .busy, r = e.refuse fault) :
    r.Settled ∧ r.Undoes e := by
  rcases h with ⟨cpu, log, rfl⟩ | ⟨fault, hfault, rfl⟩
  · exact ⟨⟨hidle, nofun⟩, nofun⟩
  · exact ⟨⟨hidle, fun h => hfault (Except.error.inj h)⟩, fun _ _ => rfl⟩

theorem reset_settled (hidle : e.phase = none) : e.reset.Settled ∧ e.reset.Undoes e :=
  settled_of_set hidle (.inl ⟨{}, [], by simp [reset, isIdle, hidle]⟩)

theorem setRegister_settled (hidle : e.phase = none) (register : Register) (word : Word) :
    (e.setRegister register word).Settled ∧ (e.setRegister register word).Undoes e :=
  settled_of_set hidle (.inl ⟨e.cpu.put register word, [], by simp [setRegister, isIdle, hidle]⟩)

theorem poke_settled (hidle : e.phase = none) (address word : Word) :
    (e.poke address word).Settled ∧ (e.poke address word).Undoes e := by
  refine settled_of_set hidle ?_
  cases hwrite : e.cpu.memory.write address word with
  | ok memory => exact .inl ⟨{ e.cpu with memory }, [], by simp [poke, isIdle, hidle, hwrite]⟩
  | error error => exact .inr ⟨.memory error, by simp, by simp [poke, isIdle, hidle, hwrite]⟩

theorem setCurrent_settled (hidle : e.phase = none) (id : Byte) :
    (e.setCurrent id).Settled ∧ (e.setCurrent id).Undoes e := by
  refine settled_of_set hidle ?_
  cases hlookup : e.table.lookup id with
  | some i =>
      refine .inl ⟨{ e.cpu with current := some i }, [], ?_⟩
      simp [setCurrent, isIdle, hidle, hlookup]
  | none =>
      refine .inr ⟨.invalidInstruction id, by simp, ?_⟩
      simp [setCurrent, isIdle, hidle, hlookup]

/-! ### Cycles -/

/-- What a cycle leaves that fails: the state after those of its phases that it completed. -/
inductive Abandons (e : Engine) (fault : Fault) : Engine → Prop
  | fetching (hfault : e.fetch.answer = .error fault) : e.Abandons fault e
  | decoding (hfetch : e.fetch.answer = .ok ())
      (hfault : e.fetch.engine.decode.answer = .error fault) : e.Abandons fault e.fetch.engine
  | executing (hfetch : e.fetch.answer = .ok ()) (hdecode : e.fetch.engine.decode.answer = .ok ())
      (hfault : e.fetch.engine.decode.engine.execute.answer = .error fault) :
      e.Abandons fault e.fetch.engine.decode.engine

theorem abandons_of_cycle (hfault : e.cycle.answer = .error fault) :
    e.Abandons fault e.cycle.engine := by
  rcases cycle_of_error hfault with
    ⟨hfetch, hengine⟩ | ⟨hfetch, hdecode, hengine⟩ | ⟨hfetch, hdecode, hexecute, hengine⟩
  · rw [hengine]
    exact .fetching hfetch
  · rw [hengine]
    exact .decoding hfetch hdecode
  · rw [hengine]
    exact .executing hfetch hdecode hexecute

theorem Abandons.ne_busy {after : Engine} (hidle : e.phase = none)
    (h : e.Abandons fault after) : fault ≠ .busy := by
  have hfetched : e.fetch.engine.phase = none := complete_phase hidle .fetch
  have hdecoded : e.fetch.engine.decode.engine.phase = none := complete_phase hfetched .decode
  rintro rfl
  cases h with
  | fetching hfault => exact complete_ne_busy hidle .fetch hfault
  | decoding _ hfault => exact complete_ne_busy hfetched .decode hfault
  | executing _ _ hfault => exact complete_ne_busy hdecoded .execute hfault

/-- What a row of at most `n` cycles leaves of which one fails: the machine was not halted before
that one, and all those before it succeeded. -/
def AbandonsWithin (e : Engine) (n : Nat) (fault : Fault) (after : Engine) : Prop :=
  ∃ k < n, e.GetsThrough k ∧ (e.afterCycles k).halted = false ∧
    (e.afterCycles k).Abandons fault after

theorem AbandonsWithin.ne_busy {n : Nat} {after : Engine} (hidle : e.phase = none)
    (h : e.AbandonsWithin n fault after) : fault ≠ .busy := by
  obtain ⟨k, -, -, -, habandons⟩ := h
  exact habandons.ne_busy (afterCycles_phase hidle k)

/-- What is asked of a reply that stands for at most `n` cycles in a row. -/
structure CyclesSettled (e : Engine) (n : Nat) {α : Type} (r : Reply α) : Prop where
  idle : r.engine.phase = none
  abandons : ∀ fault, r.answer = .error fault → e.AbandonsWithin n fault r.engine

theorem CyclesSettled.settled {n : Nat} {α : Type} {r : Reply α} (hidle : e.phase = none)
    (h : e.CyclesSettled n r) : r.Settled :=
  ⟨h.idle, fun hbusy => (h.abandons .busy hbusy).ne_busy hidle rfl⟩

/-- A run that nobody cancels fails in one of its cycles or not at all. -/
theorem run_settled (hidle : e.phase = none) (limit : Nat) :
    e.CyclesSettled limit (e.run limit .never) := by
  have hafter := afterCycles_phase hidle
  obtain ⟨k, hk, hthrough, hhalted | ⟨hrunning, rfl | ⟨hlt, fault, hfault⟩⟩⟩ := exists_stop e limit
  · rw [run_of_halted hidle hthrough hk hhalted never_quiet]
    exact ⟨hafter k, nofun⟩
  · rw [run_of_limit hidle hthrough hrunning never_quiet]
    exact ⟨hafter k, nofun⟩
  · rw [run_of_fault hidle hthrough hlt hrunning hfault never_quiet]
    refine ⟨hafter (k + 1), fun fault' h => ?_⟩
    rw [← Except.error.inj h]
    exact ⟨k, hlt, hthrough, hrunning, abandons_of_cycle hfault⟩

/-- Cycles of the console fail as a run with that limit fails. -/
theorem cyclesFrom_eq_error_iff (fault : Fault) (remaining done : Nat) (log : List Event)
    (e : Engine) :
    (cyclesFrom remaining log.toArray e).answer = .error fault ↔
      (runFrom .never remaining done log.toArray e).answer = .error fault := by
  induction remaining generalizing done log e with
  | zero =>
      cases hhalted : e.halted with
      | true =>
          rw [runFrom_of_halted hhalted, cyclesFrom]
          simp
      | false =>
          rw [runFrom_zero hhalted rfl, cyclesFrom]
          simp
  | succ remaining ih =>
      cases hhalted : e.halted with
      | true => simp [runFrom_of_halted hhalted, cyclesFrom, hhalted]
      | false =>
          rw [cyclesFrom, if_neg (by simp [hhalted])]
          cases hanswer : e.cycle.answer with
          | error _ =>
              rw [runFrom_succ_of_error hhalted rfl hanswer]
              simp [hanswer]
          | ok _ =>
              rw [runFrom_succ_of_ok hhalted rfl hanswer]
              simpa [hanswer] using ih (done + 1) (log ++ e.cycle.log) e.cycle.engine

theorem cycles_eq_error_iff (hidle : e.phase = none) (n : Nat) :
    (e.cycles n).answer = .error fault ↔ (e.run n .never).answer = .error fault := by
  have h := cyclesFrom_eq_error_iff fault n 0 [] e
  simpa [cycles, run, isIdle, hidle] using h

theorem cycles_settled (hidle : e.phase = none) (n : Nat) :
    e.CyclesSettled n (e.cycles n) := by
  have hrun := run_settled hidle n
  refine ⟨?_, fun fault hfault => ?_⟩
  · rw [cycles_engine hidle]
    exact hrun.idle
  · rw [cycles_engine hidle]
    exact hrun.abandons fault ((cycles_eq_error_iff hidle n).mp hfault)

end Engine

end TeachingCpu
