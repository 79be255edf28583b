import Mathlib.Data.Set.Basic
import Mathlib.Order.Bounds.Defs
import TeachingCpu.Console.Session
import TeachingCpu.InstructionSet.BuiltIn
import TeachingCpu.Proofs.Machine.Iteration
/-!
# TeachingCpu.Proofs.Machine.Bounded

**Bounded runs are iterated cycles.** A run that nobody cancels does the first cycles of those in
a row, as many as there are before the machine is halted, a cycle fails or the limit is reached.

Three other loops come to the same as a run: two runs in a row (`Engine.run_add`), the cycles of
the console, which asks the same questions in another order (`Engine.cyclesFrom_engine`), and a
loop whose counter has a largest number (`Engine.countFrom_eq`).
-/

set_option autoImplicit false

namespace TeachingCpu

/-- The outcome of a run, counted from a start that was `earlier` cycles before it. -/
def RunOutcome.later (earlier : Nat) : RunOutcome → RunOutcome
  | .halted cycles => .halted (earlier + cycles)
  | .cancelled cycles => .cancelled (earlier + cycles)
  | .limitReached cycles => .limitReached (earlier + cycles)

theorem RunOutcome.later_later (first second : Nat) (outcome : RunOutcome) :
    (outcome.later second).later first = outcome.later (first + second) := by
  cases outcome <;> simp [later, Nat.add_assoc]

namespace Reply

variable {α β γ : Type}

theorem map_map (r : Reply α) (f : α → β) (g : β → γ) : (r.map f).map g = r.map (g ∘ f) := by
  obtain ⟨answer, engine, log⟩ := r
  cases answer <;> rfl

theorem map_prependLog (earlier : List Event) (r : Reply α) (f : α → β) :
    (r.prependLog earlier).map f = (r.map f).prependLog earlier := rfl

/-- An answer after which nothing was reported is the last thing there is. -/
theorem map_prependLog_of_ok (earlier : List Event) (a : α) (e : Engine) (f : α → β) :
    (map f ⟨.ok a, e, []⟩).prependLog earlier = ⟨.ok (f a), e, earlier⟩ := by
  simp [map, Except.map, prependLog]

theorem turn_engine (r : Reply α) (success : α → Engine → List Entry) :
    (r.turn success).engine = r.engine := by
  unfold turn
  dsimp only
  split <;> rfl

end Reply

namespace Engine

variable {e : Engine} {c : Cancellation} {k limit remaining done fuel : Nat}

/-! ### Runs in a row -/

/-- What was done before a run only adds to its count and stands before what it reports. -/
theorem runFrom_never_eq (remaining done : Nat) (log : List Event) (e : Engine) :
    runFrom .never remaining done log.toArray e =
      ((runFrom .never remaining 0 [].toArray e).map (·.later done)).prependLog log := by
  induction remaining generalizing done log e with
  | zero =>
      cases hhalted : e.halted with
      | true =>
          rw [runFrom_of_halted hhalted, runFrom_of_halted hhalted, Reply.map_prependLog_of_ok]
          rfl
      | false =>
          rw [runFrom_zero hhalted rfl, runFrom_zero hhalted rfl, Reply.map_prependLog_of_ok]
          rfl
  | succ remaining ih =>
      cases hhalted : e.halted with
      | true =>
          rw [runFrom_of_halted hhalted, runFrom_of_halted hhalted, Reply.map_prependLog_of_ok]
          rfl
      | false =>
          cases hanswer : e.cycle.answer with
          | error fault =>
              rw [runFrom_succ_of_error hhalted rfl hanswer,
                runFrom_succ_of_error hhalted rfl hanswer]
              rfl
          | ok _ =>
              -- both go on from the same engine, one cycle further
              rw [runFrom_succ_of_ok hhalted rfl hanswer, runFrom_succ_of_ok hhalted rfl hanswer,
                ih (done + 1), ih (0 + 1), Reply.map_prependLog, Reply.map_map,
                Reply.prependLog_prependLog]
              simp only [Function.comp_def, RunOutcome.later_later, Nat.zero_add, List.nil_append]

/-- What goes on from the outcome of a run: another run if the limit was all that stopped it. -/
def resume (limit : Nat) (outcome : RunOutcome) (e : Engine) : Reply RunOutcome :=
  match outcome with
  | .limitReached cycles => (e.run limit .never).map (·.later cycles)
  | outcome => ⟨.ok outcome, e, []⟩

/-- A run of `a + b` cycles is one of `a` cycles, resumed for `b` more. -/
theorem run_add (hidle : e.phase = none) (a b : Nat) :
    e.run (a + b) .never = (e.run a .never).andThen (resume b) := by
  obtain ⟨k, hk, hthrough, hhalted | ⟨hrunning, rfl | ⟨hlt, fault, hfault⟩⟩⟩ := exists_stop e a
  · rw [run_of_halted hidle hthrough hk hhalted never_quiet,
      run_of_halted hidle hthrough (Nat.le_add_right_of_le hk) hhalted never_quiet]
    simp [Reply.andThen, resume]
  · have hafter := afterCycles_phase hidle k
    rw [run_of_limit hidle hthrough hrunning never_quiet,
      run_eq_runFrom hidle hthrough (Nat.le_add_right k b) never_quiet, Nat.add_sub_cancel_left,
      runFrom_never_eq, Reply.andThen_of_ok rfl]
    simp only [resume, run, isIdle, hafter, Option.isNone_none, if_true]
    rfl
  · rw [run_of_fault hidle hthrough hlt hrunning hfault never_quiet,
      run_of_fault hidle hthrough (Nat.lt_add_right b hlt) hrunning hfault never_quiet]
    rfl

/-! ### Other loops -/

/-- Cycles of the console lead where a run with that limit leads. -/
theorem cyclesFrom_engine (remaining done : Nat) (log : List Event) (e : Engine) :
    (cyclesFrom remaining log.toArray e).engine =
      (runFrom .never remaining done log.toArray e).engine := by
  induction remaining generalizing done log e with
  | zero =>
      cases hhalted : e.halted with
      | true => rw [runFrom_of_halted hhalted, cyclesFrom]
      | false => rw [runFrom_zero hhalted rfl, cyclesFrom]
  | succ remaining ih =>
      cases hhalted : e.halted with
      | true => rw [runFrom_of_halted hhalted, cyclesFrom, if_pos hhalted]
      | false =>
          rw [cyclesFrom, if_neg (by simp [hhalted])]
          cases hanswer : e.cycle.answer with
          | error fault =>
              rw [runFrom_succ_of_error hhalted rfl hanswer]
              simp [hanswer]
          | ok _ =>
              rw [runFrom_succ_of_ok hhalted rfl hanswer]
              simpa [hanswer] using ih (done + 1) (log ++ e.cycle.log) e.cycle.engine

theorem cycles_engine (hidle : e.phase = none) (n : Nat) :
    (e.cycles n).engine = (e.run n .never).engine := by
  have h := cyclesFrom_engine n 0 [] e
  simpa [cycles, run, isIdle, hidle] using h

/-- The rest of a run whose counter has 64 bits: the count goes up to the limit, and to count
further than the counter can is no result. `fuel` bounds the turns of the loop. -/
def countFrom (c : Cancellation) (limit : Nat) :
    (fuel done : Nat) → Array Event → Engine → Option (Reply RunOutcome)
  | 0, _, _, _ => none
  | fuel + 1, done, log, e =>
    if e.halted then some ⟨.ok (.halted done), e, log.toList⟩
    else if c.requested log.size then some ⟨.ok (.cancelled done), e, log.toList⟩
    else if limit ≤ done then some ⟨.ok (.limitReached done), e, log.toList⟩
    else
      let r := e.cycle
      let log := log.appendList r.log
      match r.answer with
      | .error fault => some ⟨.error fault, r.engine, log.toList⟩
      | .ok () => if done + 1 = 2 ^ 64 then none else countFrom c limit fuel (done + 1) log r.engine

/-- Counting up to a limit of 64 bits never needs a number of more. -/
theorem countFrom_eq (hlimit : limit < 2 ^ 64) (hcount : done + remaining = limit)
    (hfuel : remaining < fuel) (log : Array Event) (e : Engine) :
    countFrom c limit fuel done log e = some (runFrom c remaining done log e) := by
  induction fuel generalizing remaining done log e with
  | zero => exact absurd hfuel (Nat.not_lt_zero _)
  | succ fuel ih =>
      unfold countFrom runFrom
      cases e.halted with
      | true => rfl
      | false =>
          cases c.requested log.size with
          | true => rfl
          | false =>
              cases remaining with
              | zero =>
                  have hreached : limit ≤ done := by omega
                  simp [hreached]
              | succ remaining =>
                  have hbelow : ¬limit ≤ done := by omega
                  have hcountable : done ≠ 0xFFFFFFFFFFFFFFFF := by omega
                  have hnext := ih (show done + 1 + remaining = limit by omega)
                    (show remaining < fuel by omega)
                  cases hanswer : e.cycle.answer <;> simp [hbelow, hcountable, hanswer, hnext]

/-! ### Bounded runs -/

/-- The machine is halted if its current instruction is the one with the opcode `0xFF`. -/
theorem halted_iff : e.halted = true ↔ ∃ i, e.cpu.current = some i ∧ i.id = 0xFF := by
  unfold halted Cpu.halted
  cases e.cpu.current <;> simp [haltOpcode]

/-- The numbers of cycles, up to a limit, that all succeed and leave the machine halted. -/
def haltsAfter (e : Engine) (limit : Nat) : Set Nat :=
  {k | k ≤ limit ∧ e.Completes k ∧ ∃ i, (e.afterCycles k).cpu.current = some i ∧ i.id = 0xFF}

theorem GetsThrough.isLeast (h : e.GetsThrough k) (hk : k ≤ limit)
    (hhalted : (e.afterCycles k).halted = true) : IsLeast (e.haltsAfter limit) k := by
  refine ⟨⟨hk, h.completes, halted_iff.mp hhalted⟩, fun j hj => ?_⟩
  obtain ⟨-, -, hearlier⟩ := hj
  rw [← halted_iff] at hearlier
  refine Nat.le_of_not_lt fun hlt => ?_
  rw [h.running j hlt] at hearlier
  cases hearlier

/-- A run that gets as far as cycles succeed, or as it is allowed, and is not halted there, has not
been halted before either. -/
theorem GetsThrough.haltsAfter_eq_empty (h : e.GetsThrough k)
    (hrunning : (e.afterCycles k).halted = false)
    (hlast : k = limit ∨ ∃ fault, (e.afterCycles k).cycle.answer = .error fault) :
    e.haltsAfter limit = ∅ := by
  refine Set.eq_empty_iff_forall_notMem.mpr fun j hj => ?_
  obtain ⟨hlimit, hcompletes, hhalted⟩ := hj
  rw [← halted_iff] at hhalted
  rcases Nat.lt_trichotomy j k with hlt | rfl | hgt
  · rw [h.running j hlt] at hhalted
    cases hhalted
  · rw [hrunning] at hhalted
    cases hhalted
  · rcases hlast with rfl | ⟨fault, hfault⟩
    · omega
    · rw [hcompletes k hgt] at hfault
      cases hfault

/-- **A bounded run is iterated cycles.** It does the least number of cycles after which the
machine is halted; if there is none within the limit, as many as the limit allows or as succeed.
Its counter stays within 64 bits, also where no limit is given; it can be done in two parts; and
the console gets to the same state by as many single cycles. -/
theorem run_iterates_cycles (hidle : e.phase = none) :
    (∀ limit, let r := e.run limit .never
      (∃ k, IsLeast (e.haltsAfter limit) k ∧
        r = ⟨.ok (.halted k), e.afterCycles k, e.cyclesLog k⟩) ∨
      e.haltsAfter limit = ∅ ∧
        (e.Completes limit ∧
          r = ⟨.ok (.limitReached limit), e.afterCycles limit, e.cyclesLog limit⟩ ∨
        ∃ k < limit, ∃ fault, e.Completes k ∧ (e.afterCycles k).cycle.answer = .error fault ∧
          r = ⟨.error fault, (e.afterCycles k).cycle.engine, e.cyclesLog (k + 1)⟩)) ∧
    (unlimited < 2 ^ 64 ∧ ∀ limit < 2 ^ 64, ∀ c : Cancellation,
      countFrom c limit (limit + 1) 0 #[] e = some (e.run limit c)) ∧
    (∀ a b, e.run (a + b) .never = (e.run a .never).andThen (resume b)) ∧
    ∀ limit n, (Session.perform limit e (.cycle n)).engine = (e.run n .never).engine := by
  refine ⟨fun limit => ?_, ⟨by decide, fun limit hlimit c => ?_⟩, run_add hidle,
    fun limit n => ?_⟩
  · obtain ⟨k, hk, hthrough, hhalted | ⟨hrunning, rfl | ⟨hlt, fault, hfault⟩⟩⟩ :=
      exists_stop e limit
    · exact .inl ⟨k, hthrough.isLeast hk hhalted, run_of_halted hidle hthrough hk hhalted never_quiet⟩
    · exact .inr ⟨hthrough.haltsAfter_eq_empty hrunning (.inl rfl),
        .inl ⟨hthrough.completes, run_of_limit hidle hthrough hrunning never_quiet⟩⟩
    · exact .inr ⟨hthrough.haltsAfter_eq_empty hrunning (.inr ⟨fault, hfault⟩),
        .inr ⟨k, hlt, fault, hthrough.completes, hfault,
          run_of_fault hidle hthrough hlt hrunning hfault never_quiet⟩⟩
  · have hrun : e.run limit c = runFrom c limit 0 #[] e := by simp [run, isIdle, hidle]
    rw [hrun]
    exact countFrom_eq hlimit (Nat.zero_add limit) (Nat.lt_succ_self limit) _ _
  · rw [Session.perform, Reply.turn_engine]
    exact cycles_engine hidle n

/-- An engine with a program of two instructions, of which the second is a halt. -/
def addThenHalt : Engine where
  table := .builtIn
  cpu := { memory := (({} : Memory).set 0x00 0x0001).set 0x01 0xFF00 }

/-- It halts exactly at a limit of two cycles, be they done at once, in two runs or one by one. -/
theorem run_iterates_cycles_to_a_halt :
    IsLeast (addThenHalt.haltsAfter 2) 2 ∧
      (addThenHalt.run 2 .never).answer = .ok (.halted 2) ∧
      ((addThenHalt.run 1 .never).andThen (resume 1)).answer = .ok (.halted 2) ∧
      (Session.perform 0 addThenHalt (.cycle 2)).engine.cpu.registers.gpa = 1 ∧
      countFrom .never 2 3 0 #[] addThenHalt = some (addThenHalt.run 2 .never) := by
  have hanswer : (addThenHalt.run 2 .never).answer = .ok (.halted 2) := by rfl
  have hgpa : (addThenHalt.run 2 .never).engine.cpu.registers.gpa = 1 := by rfl
  obtain ⟨hstops, ⟨-, hcounts⟩, hparts, hconsole⟩ := run_iterates_cycles (e := addThenHalt) rfl
  refine ⟨?_, hanswer, by rw [← hparts 1 1, hanswer], by rw [hconsole, hgpa],
    hcounts 2 (by decide) .never⟩
  obtain ⟨k, hleast, hrun⟩ | ⟨-, ⟨-, hrun⟩ | ⟨k, -, fault, -, -, hrun⟩⟩ := hstops 2
  · rw [hrun] at hanswer
    obtain rfl : k = 2 := by simpa using hanswer
    exact hleast
  · rw [hrun] at hanswer
    cases hanswer
  · rw [hrun] at hanswer
    cases hanswer

end Engine

end TeachingCpu
