import TeachingCpu.Machine.Engine
import TeachingCpu.Proofs.Machine.MicroProgram
/-!
# TeachingCpu.Proofs.Machine.Phase

**Whole phases.** Stepping a phase to its end amounts to performing what is left of its
micro-program on the processor state: `Engine.finish_eq` for a phase under way and
`Engine.wholePhase_eq` for one that begins in an idle engine. The operations `fetch`,
`decode` and `execute` are instances.

The bound on the number of steps is never what ends a phase, because each step that leaves the
phase under way takes a micro-instruction off it.
-/

set_option autoImplicit false

namespace TeachingCpu

namespace Reply

variable {α β : Type}

/-- The reply with its answer put differently. -/
def map {ε : Type} (f : α → β) (r : Reply α ε) : Reply β ε := ⟨r.answer.map f, r.engine, r.log⟩

/-- The reply with what was reported before it. -/
def prependLog (earlier : List Event) (r : Reply α) : Reply α :=
  ⟨r.answer, r.engine, earlier ++ r.log⟩

@[simp] theorem prependLog_answer (earlier : List Event) (r : Reply α) :
    (r.prependLog earlier).answer = r.answer := rfl

@[simp] theorem prependLog_engine (earlier : List Event) (r : Reply α) :
    (r.prependLog earlier).engine = r.engine := rfl

@[simp] theorem prependLog_prependLog (first second : List Event) (r : Reply α) :
    (r.prependLog second).prependLog first = r.prependLog (first ++ second) := by
  simp [prependLog]

theorem andThen_of_ok {r : Reply α} {a : α} (h : r.answer = .ok a)
    (next : α → Engine → Reply β) :
    r.andThen next =
      ⟨(next a r.engine).answer, (next a r.engine).engine, r.log ++ (next a r.engine).log⟩ := by
  simp only [andThen, h]

theorem andThen_of_error {r : Reply α} {fault : Fault} (h : r.answer = .error fault)
    (next : α → Engine → Reply β) : r.andThen next = ⟨.error fault, r.engine, r.log⟩ := by
  simp only [andThen, h]

theorem map_andThen {γ : Type} (r : Reply α) (f : α → β) (next : β → Engine → Reply γ) :
    (r.map f).andThen next = r.andThen fun a => next (f a) := by
  obtain ⟨answer, engine, log⟩ := r
  cases answer <;> rfl

theorem andThen_ne_error {r : Reply α} {fault : Fault} (h : r.answer ≠ .error fault)
    {next : α → Engine → Reply β} (hnext : ∀ a e, (next a e).answer ≠ .error fault) :
    (r.andThen next).answer ≠ .error fault := by
  cases hanswer : r.answer with
  | error _ =>
      rw [hanswer] at h
      rw [andThen_of_error hanswer]
      simpa using h
  | ok a =>
      rw [andThen_of_ok hanswer]
      exact hnext a r.engine

theorem map_ne_error {r : Reply α} {fault : Fault} (h : r.answer ≠ .error fault) (f : α → β) :
    (r.map f).answer ≠ .error fault := by
  cases hanswer : r.answer with
  | error _ => simpa [map, hanswer, Except.map] using h
  | ok _ => simp [map, hanswer, Except.map]

/-- Going on only where there is more does not touch a reply that says there is none. -/
theorem andThen_map_false (r : Reply Unit) (next : Engine → Reply Unit) :
    ((r.map fun _ => false).andThen fun more e => if more then next e else ⟨.ok (), e, []⟩) = r := by
  obtain ⟨answer, engine, log⟩ := r
  cases answer <;> simp [map, andThen, Except.map]

end Reply

namespace Engine

/-! ### A phase under way -/

/-- What a phase comes to when it is stepped to its end. -/
def remainder (e : Engine) (p : Phase) : Reply Unit :=
  let attempted := MicroOp.attempts e.table p.pending e.cpu
  match MicroOp.perform e.table p.pending e.cpu with
  | .ok cpu => ⟨.ok (), { e with cpu, phase := none }, attempted.map .attempted⟩
  | .error fault =>
    ⟨.error fault, { e with cpu := p.start, phase := none },
      attempted.map .attempted ++ (attempted.getLast?.map (.rolledBack · (some p.stage))).toList⟩

theorem remainder_phase (e : Engine) (p : Phase) : (e.remainder p).engine.phase = none := by
  unfold remainder
  split <;> rfl

/-- A phase that fails leaves the state in which it began. -/
theorem remainder_of_error {e : Engine} {p : Phase} {fault : Fault}
    (h : (e.remainder p).answer = .error fault) :
    (e.remainder p).engine = { e with cpu := p.start, phase := none } := by
  unfold remainder at h ⊢
  split at h
  · cases h
  · rfl

/-- The equation of `remainder` for a micro-instruction that succeeds and lets the phase go on. -/
theorem remainder_cons {e : Engine} {p : Phase} {op : MicroOp} {rest : List MicroOp} {cpu : Cpu}
    (hpending : p.pending = op :: rest) (hop : op.apply e.table e.cpu = .ok cpu)
    (hpasses : op.passes e.cpu = true) (hrest : rest ≠ []) :
    e.remainder p =
      (remainder { e with cpu, phase := some { p with pending := rest } }
        { p with pending := rest }).prependLog [.attempted op] := by
  have hattempts := MicroOp.attempts_ne_nil e.table hrest cpu
  simp only [remainder, hpending, MicroOp.perform, MicroOp.attempts, hop, hpasses, if_true]
  cases MicroOp.perform e.table rest cpu with
  | ok after => rfl
  | error fault =>
      simp only [List.map_cons, List.cons_append, List.getLast?_cons_of_ne_nil hattempts]
      rfl

/-- **What a step can do.** Either a micro-instruction succeeds after which the phase goes on, or
the phase is over and the step comes to all that was left of it. -/
theorem step_cases {e : Engine} {p : Phase} (hphase : e.phase = some p) :
    (∃ op rest cpu, p.pending = op :: rest ∧ rest ≠ [] ∧ op.apply e.table e.cpu = .ok cpu ∧
      op.passes e.cpu = true ∧ e.step =
        ⟨.ok true, { e with cpu, phase := some { p with pending := rest } }, [.attempted op]⟩) ∨
    e.step = (e.remainder p).map fun _ => false := by
  -- the phase goes on only after a success that passes and leaves something to do
  cases hpending : p.pending with
  | nil =>
      right
      simp [step, hphase, hpending, remainder, MicroOp.attempts, Reply.map, Except.map]
  | cons op rest =>
      cases hop : op.apply e.table e.cpu with
      | error fault =>
          right
          simp [step, hphase, hpending, hop, remainder, MicroOp.perform, MicroOp.attempts,
            Reply.map, Except.map]
      | ok cpu =>
          by_cases hpasses : op.passes e.cpu = true
          · by_cases hrest : rest = []
            · right
              simp [step, hphase, hpending, hop, hpasses, hrest, remainder, MicroOp.perform,
                MicroOp.attempts, Reply.map, Except.map]
            · left
              exact ⟨op, rest, cpu, rfl, hrest, hop, hpasses, by
                simp [step, hphase, hpending, hop, hpasses, hrest]⟩
          · right
            simp [step, hphase, hpending, hop, hpasses, remainder, MicroOp.perform,
              MicroOp.attempts, Reply.map, Except.map]

theorem stepsWithin_eq {e : Engine} {p : Phase} (hphase : e.phase = some p) {bound : Nat}
    (hbound : p.pending.length < bound) : stepsWithin bound e = e.remainder p := by
  -- the bound stays ahead of what is left of the micro-program
  induction bound generalizing e p with
  | zero => exact absurd hbound (Nat.not_lt_zero _)
  | succ bound ih =>
      rw [stepsWithin]
      rcases step_cases hphase with ⟨op, rest, cpu, hpending, hrest, hop, hpasses, hstep⟩ | hstep
      · have hlength : rest.length < bound := by
          rw [hpending, List.length_cons] at hbound
          omega
        rw [remainder_cons hpending hop hpasses hrest, hstep, Reply.andThen_of_ok rfl, if_pos rfl,
          ih (p := { p with pending := rest }) rfl hlength]
        rfl
      · rw [hstep]
        exact Reply.andThen_map_false _ _

theorem finish_eq {e : Engine} {p : Phase} (hphase : e.phase = some p) :
    e.finish = e.remainder p := by
  refine stepsWithin_eq hphase ?_
  simp [pendingCount, hphase]

/-! ### A phase from its beginning to its end -/

/-- A phase begun and stepped to its end. -/
def wholePhase (e : Engine) (stage : Stage) (program : List MicroOp) : Reply Unit :=
  (e.begin stage program).andThen fun _ e => e.finish

theorem wholePhase_eq {e : Engine} (hidle : e.phase = none) (stage : Stage)
    (program : List MicroOp) :
    e.wholePhase stage program =
      (e.remainder ⟨stage, program, e.cpu⟩).prependLog [.began stage] := by
  have hfinish : finish { e with phase := some ⟨stage, program, e.cpu⟩ } =
      e.remainder ⟨stage, program, e.cpu⟩ := finish_eq rfl
  simp only [wholePhase, begin, isIdle, hidle, Option.isNone_none, if_true, Reply.andThen,
    hfinish]
  rfl

/-- A phase whose program succeeds leaves the state of the program. -/
theorem wholePhase_of_ok {e : Engine} (hidle : e.phase = none) {program : List MicroOp} {cpu : Cpu}
    (h : MicroOp.perform e.table program e.cpu = .ok cpu) (stage : Stage) :
    (e.wholePhase stage program).answer = .ok () ∧
      (e.wholePhase stage program).engine = { e with cpu } := by
  simp [wholePhase_eq hidle, remainder, h, hidle]

/-- A phase whose program fails leaves the engine as it was. -/
theorem wholePhase_of_error {e : Engine} (hidle : e.phase = none) {program : List MicroOp}
    {fault : Fault} (h : MicroOp.perform e.table program e.cpu = .error fault) (stage : Stage) :
    (e.wholePhase stage program).answer = .error fault ∧
      (e.wholePhase stage program).engine = e := by
  obtain ⟨table, cpu, phase⟩ := e
  subst hidle
  simp [wholePhase_eq, remainder, h]

theorem fetch_eq (e : Engine) : e.fetch = e.wholePhase .fetching MicroOp.fetch := rfl

theorem decode_eq (e : Engine) : e.decode = e.wholePhase .decoding MicroOp.decode := rfl

theorem execute_eq {e : Engine} (hidle : e.phase = none) {i : Instruction} {op : Operation}
    (hcurrent : e.cpu.current = some i) (hop : Operation.decode? i.id = some op) :
    e.execute = e.wholePhase .executing op.microProgram := by
  simp [execute, beginExecute, wholePhase, begin, isIdle, hidle, hcurrent, hop, Reply.andThen]

end Engine

end TeachingCpu
