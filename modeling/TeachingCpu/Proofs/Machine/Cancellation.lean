import TeachingCpu.Proofs.Machine.Cycle
import TeachingCpu.Proofs.Machine.Iteration
import TeachingCpu.Proofs.Machine.Faults
/-!
# TeachingCpu.Proofs.Machine.Cancellation

**A run is cancelled between cycles only.** When a run is asked to stop is told by how much it has
reported by then, so the wish may come up anywhere within a cycle; it takes effect when that cycle
is over, and only if the cycle has neither failed nor halted the machine.

That the wish comes up *during* a cycle is said by the lengths of two reports: that of the cycles
before it, and that of these cycles with it.
-/

set_option autoImplicit false

namespace TeachingCpu

namespace Engine

variable {e : Engine} {entry : Instruction} {j k n limit : Nat}

/-! ### Cycles that decode a halt -/

theorem decode_current (hidle : e.phase = none) (hok : e.decode.answer = .ok ()) :
    ∃ entry, e.decode.engine.cpu.current = some entry ∧
      entry.id = e.cpu.registers.mdr.high := by
  cases hentry : e.table.lookup e.cpu.registers.mdr.high with
  | some entry =>
      obtain ⟨cpu, -, hdecoded, hvisible⟩ := decode_of_lookup hidle hentry
      refine ⟨entry, ?_, InstructionSet.id_of_lookup hentry⟩
      rw [hdecoded]
      exact congrArg Visible.current hvisible
  | none =>
      have hfault : (e.complete .decode).answer = _ :=
        (complete_eq_error_iff hidle rfl).mpr (MicroOp.perform_decode_eq_error_iff.mpr
          ⟨InstructionSet.lookup_eq_none_iff.mp hentry, rfl⟩)
      rw [show (e.complete .decode).answer = _ from hok] at hfault
      cases hfault

/-- Executing an instruction leaves it the current one. -/
theorem execute_current (hidle : e.phase = none) (hcurrent : e.cpu.current = some entry)
    (hok : e.execute.answer = .ok ()) : e.execute.engine.cpu.current = some entry := by
  cases hop : Operation.decode? entry.id with
  | none =>
      have hfault := (execute_eq_error_iff hidle).mpr ⟨entry, hcurrent, .inl ⟨hop, rfl⟩⟩
      rw [hok] at hfault
      cases hfault
  | some op =>
      obtain ⟨hanswer, hvisible, -⟩ := execute_of_decode? hidle hcurrent hop
      cases heffect : op.effect e.cpu.visible.ir.low e.cpu.visible with
      | error fault =>
          rw [heffect, hok] at hanswer
          cases hanswer
      | ok after =>
          rw [heffect] at hvisible
          have hafter := Operation.current_of_effect heffect
          rw [← show e.execute.engine.cpu.visible = after from hvisible] at hafter
          exact hafter.trans hcurrent

/-- A cycle that succeeds leaves the machine halted exactly if the word that it fetched is a
halt. -/
theorem halted_of_cycle (hidle : e.phase = none) (hok : e.cycle.answer = .ok ()) :
    e.cycle.engine.halted = (e.fetch.engine.cpu.registers.mdr.high == 0xFF) := by
  have hfetched : e.fetch.engine.phase = none := complete_phase hidle .fetch
  have hdecoded : e.fetch.engine.decode.engine.phase = none := complete_phase hfetched .decode
  cases hfetch : e.fetch.answer with
  | error fault =>
      rw [cycle, Reply.andThen_of_error hfetch] at hok
      cases hok
  | ok _ =>
      cases hdecode : e.fetch.engine.decode.answer with
      | error fault =>
          rw [cycle, Reply.andThen_of_ok hfetch, Reply.andThen_of_error hdecode] at hok
          cases hok
      | ok _ =>
          obtain ⟨hanswer, hengine⟩ := cycle_eq_execute hfetch hdecode
          obtain ⟨entry, hcurrent, hid⟩ := decode_current hfetched hdecode
          have hcurrent := execute_current hdecoded hcurrent (hanswer.symm.trans hok)
          rw [halted, Cpu.halted, hengine, hcurrent, ← hid]
          rfl

/-! ### The cycle in which a run is cancelled -/

/-- A run with a limit does another cycle after so many. -/
structure Starts (e : Engine) (limit k : Nat) : Prop where
  lt : k < limit
  through : e.GetsThrough k
  running : (e.afterCycles k).halted = false

/-- An event is reported during the cycle after `k` others: it is the `n`-th of all. -/
def ReportsDuring (e : Engine) (k n : Nat) : Prop :=
  (e.cyclesLog k).length < n ∧ n ≤ (e.cyclesLog (k + 1)).length

theorem cyclesLog_length_mono (hjk : j ≤ k) :
    (e.cyclesLog j).length ≤ (e.cyclesLog k).length := by
  induction hjk with
  | refl => exact Nat.le_refl _
  | step _ ih =>
      rw [cyclesLog, List.length_append]
      exact Nat.le_add_right_of_le ih

/-- Every event that cycles in a row report is reported during one of them. -/
theorem exists_reportsDuring (hpos : 0 < n) (hn : n ≤ (e.cyclesLog k).length) :
    ∃ j < k, e.ReportsDuring j n := by
  induction k with
  | zero =>
      rw [cyclesLog, List.length_nil] at hn
      omega
  | succ k ih =>
      rcases Nat.lt_or_ge (e.cyclesLog k).length n with hlt | hle
      · exact ⟨k, Nat.lt_succ_self k, hlt, hn⟩
      · obtain ⟨j, hj, hduring⟩ := ih hle
        exact ⟨j, Nat.lt_succ_of_lt hj, hduring⟩

theorem requested_eq_false_of_length_lt (h : (e.cyclesLog k).length < n) :
    ∀ j < k + 1, Cancellation.requested ⟨some n⟩ (e.cyclesLog j).length = false := by
  intro j hj
  have hle := cyclesLog_length_mono (e := e) (Nat.le_of_lt_succ hj)
  simp only [Cancellation.requested, decide_eq_false_iff_not]
  omega

/-- What a run comes to that is asked to stop during the cycle after `k` others. -/
theorem run_of_reportsDuring (hidle : e.phase = none) (hstarts : e.Starts limit k)
    (hduring : e.ReportsDuring k n) :
    e.run limit ⟨some n⟩ =
      ⟨(e.afterCycles k).cycle.answer.map fun _ =>
          if (e.afterCycles (k + 1)).halted then .halted (k + 1) else .cancelled (k + 1),
        e.afterCycles (k + 1), e.cyclesLog (k + 1)⟩ := by
  have hquiet := requested_eq_false_of_length_lt hduring.1
  cases hanswer : (e.afterCycles k).cycle.answer with
  | error fault =>
      exact run_of_fault hidle hstarts.through hstarts.lt hstarts.running hanswer hquiet
  | ok _ =>
      have hthrough := hstarts.through.succ hstarts.running hanswer
      cases hhalted : (e.afterCycles (k + 1)).halted with
      | true =>
          rw [run_of_halted hidle hthrough hstarts.lt hhalted hquiet]
          rfl
      | false =>
          have hrequested : Cancellation.requested ⟨some n⟩ (e.cyclesLog (k + 1)).length = true :=
            decide_eq_true hduring.2
          rw [run_of_requested hidle hthrough hstarts.lt hhalted hquiet hrequested]
          rfl

/-- A run is asked to stop during one of its cycles, or too late for it to make a difference. -/
theorem exists_starts_or_run_eq (hidle : e.phase = none) (limit : Nat) (hpos : 0 < n) :
    (∃ k, e.Starts limit k ∧ e.ReportsDuring k n) ∨
      (e.run limit .never).log.length < n ∧ e.run limit ⟨some n⟩ = e.run limit .never := by
  obtain ⟨k, hk, hthrough, hstop⟩ := exists_stop e limit
  rcases Nat.lt_or_ge (e.cyclesLog k).length n with hlate | hn
  · have hquiet := requested_eq_false_of_length_lt hlate
    rcases hstop with hhalted | ⟨hrunning, rfl | ⟨hlt, fault, hfault⟩⟩
    · rw [run_of_halted hidle hthrough hk hhalted never_quiet,
        run_of_halted hidle hthrough hk hhalted fun j hj => hquiet j (Nat.lt_succ_of_lt hj)]
      exact .inr ⟨hlate, rfl⟩
    · rw [run_of_limit hidle hthrough hrunning never_quiet,
        run_of_limit hidle hthrough hrunning hquiet]
      exact .inr ⟨hlate, rfl⟩
    · rw [run_of_fault hidle hthrough hlt hrunning hfault never_quiet,
        run_of_fault hidle hthrough hlt hrunning hfault hquiet]
      -- the cycle that fails reports something too
      rcases Nat.lt_or_ge (e.cyclesLog (k + 1)).length n with hlate' | hn
      · exact .inr ⟨hlate', rfl⟩
      · exact .inl ⟨k, ⟨hlt, hthrough, hrunning⟩, hlate, hn⟩
  · -- the run gets past the cycle in which it was asked
    obtain ⟨j, hj, hduring⟩ := exists_reportsDuring hpos hn
    exact .inl ⟨j,
      ⟨Nat.lt_of_lt_of_le hj hk, hthrough.of_le (Nat.le_of_lt hj), hthrough.running j hj⟩, hduring⟩

/-- **Cancelling takes effect between cycles.** A run that is asked to stop beforehand does nothing.
Asked during a cycle it finishes that one and starts no other: it fails if the cycle does, is halted
if the cycle decodes a halt, and is cancelled otherwise, also with the last cycle that it is
allowed. There is no other time to ask, but when it makes no difference any more. The engine that
is left is idle, and as it is after so many cycles in a row. -/
theorem run_cancelled_between_cycles (hidle : e.phase = none) (hrunning : e.halted = false)
    (limit : Nat) :
    e.run limit .beforehand = ⟨.ok (.cancelled 0), e, []⟩ ∧
    (∀ k n, e.Starts limit k → e.ReportsDuring k n →
      let before := e.afterCycles k
      let r := e.run limit ⟨some n⟩
      let decodesHalt := before.fetch.engine.cpu.registers.mdr.high = 0xFF
      r.engine = e.afterCycles (k + 1) ∧ r.engine.phase = none ∧ r.log = e.cyclesLog (k + 1) ∧
        (∀ fault, before.cycle.answer = .error fault → r.answer = .error fault) ∧
        (before.cycle.answer = .ok () → decodesHalt → r.answer = .ok (.halted (k + 1))) ∧
        (before.cycle.answer = .ok () → ¬decodesHalt → r.answer = .ok (.cancelled (k + 1)))) ∧
    ∀ n, 0 < n → (∃ k, e.Starts limit k ∧ e.ReportsDuring k n) ∨
      (e.run limit .never).log.length < n ∧ e.run limit ⟨some n⟩ = e.run limit .never := by
  refine ⟨?_, fun k n hstarts hduring => ?_, fun n => exists_starts_or_run_eq hidle limit⟩
  · exact run_of_requested hidle (.zero e) (Nat.zero_le limit) hrunning nofun rfl
  · have hbefore : (e.afterCycles k).phase = none := afterCycles_phase hidle k
    dsimp only
    rw [run_of_reportsDuring hidle hstarts hduring]
    refine ⟨rfl, afterCycles_phase hidle (k + 1), rfl, fun fault hfault => ?_,
      fun hok hhalt => ?_, fun hok hhalt => ?_⟩
    · rw [hfault]
      rfl
    · simp [afterCycles, hok, halted_of_cycle hbefore hok, hhalt, Except.map]
    · simp [afterCycles, hok, halted_of_cycle hbefore hok, hhalt, Except.map]

/-- An engine with a program that jumps to itself. -/
def spin : Engine where
  table := .builtIn
  cpu := { memory := ({} : Memory).set 0x00 0x1C00 }

/-- The thirteenth event of the run is the second micro-instruction of its second cycle. That cycle is
finished, and the run is cancelled although it was allowed no other cycle anyway. -/
theorem run_cancelled_between_cycles_at_its_limit :
    spin.ReportsDuring 1 13 ∧ (spin.run 2 ⟨some 13⟩).answer = .ok (.cancelled 2) ∧
      (spin.run 2 ⟨some 13⟩).engine = spin.afterCycles 2 ∧
      (spin.run 2 ⟨some 13⟩).log.length = 20 ∧
      spin.run 2 .beforehand = ⟨.ok (.cancelled 0), spin, []⟩ := by
  have hstarts : spin.Starts 2 1 := by
    have hok : (spin.afterCycles 0).cycle.answer = .ok () := by rfl
    exact ⟨by decide, (GetsThrough.zero spin).succ (by rfl) hok, by rfl⟩
  have hduring : spin.ReportsDuring 1 13 := by
    have hbefore : (spin.cyclesLog 1).length = 10 := by rfl
    have hwith : (spin.cyclesLog (1 + 1)).length = 20 := by rfl
    exact ⟨by omega, by omega⟩
  obtain ⟨hbeforehand, hcancelled, -⟩ := run_cancelled_between_cycles (e := spin) rfl rfl 2
  obtain ⟨hengine, -, hlog, -, -, hanswer⟩ := hcancelled 1 13 hstarts hduring
  refine ⟨hduring, hanswer (by rfl) (by decide), hengine, ?_, hbeforehand⟩
  rw [hlog]
  rfl

end Engine

end TeachingCpu
