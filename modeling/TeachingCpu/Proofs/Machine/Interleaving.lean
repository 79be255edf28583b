import TeachingCpu.InstructionSet.BuiltIn
import TeachingCpu.Proofs.Machine.Cycle
import TeachingCpu.Proofs.Machine.Request
/-!
# TeachingCpu.Proofs.Machine.Interleaving

**A phase ends as if nobody had interfered, or as if it had never begun.**

Between the steps of a phase any other requests may be tried. They are refused, so what is left of
the phase (`Engine.remainder`) is the same before and after them, and the step that ends the phase
comes to what carrying it out at once comes to. If that step fails, it puts back the state in which
the phase began, which no step in between has touched.

Both results are inductions over requests in any order, by `Engine.step_cases` where the request
is a step and by `Engine.respond_of_phase` where it is none.
-/

set_option autoImplicit false

namespace TeachingCpu

namespace Engine

variable {e : Engine} {p : Phase} {rs : List Request} {a : Activity} {fault : Fault}

/-! ### A phase that goes on -/

/-- While a phase goes on, only its micro-instructions get fewer. -/
theorem after_phase (hphase : e.phase = some p)
    (hgoes : ∀ reply ∈ e.replies rs, reply.engine.phase ≠ none) :
    ∃ pending, (e.after rs).phase = some { p with pending } ∧ (e.after rs).table = e.table := by
  induction rs generalizing e p with
  | nil => exact ⟨p.pending, hphase, rfl⟩
  | cons r rs ih =>
      by_cases hr : r = .step
      · rw [hr, replies_step, List.forall_mem_cons] at hgoes
        obtain ⟨hfirst, hlater⟩ := hgoes
        rw [hr, after_step]
        rcases step_cases hphase with ⟨op, rest, cpu, -, -, -, -, hstep⟩ | hstep
        · rw [hstep] at hlater ⊢
          exact ih (p := { p with pending := rest }) rfl hlater
        · rw [hstep] at hfirst
          exact absurd (remainder_phase e p) hfirst
      · have hbusy : e.phase ≠ none := by simp [hphase]
        rw [replies_cons_of_phase hbusy hr, List.forall_mem_cons] at hgoes
        rw [after_cons_of_phase hbusy hr]
        exact ih hphase hgoes.2

/-- A step that fails puts back the state in which the phase began. -/
theorem step_of_error (hphase : e.phase = some p) (hfault : e.step.answer = .error fault) :
    e.step.engine = { e with cpu := p.start, phase := none } := by
  rcases step_cases hphase with ⟨op, rest, cpu, -, -, -, -, hstep⟩ | hstep
  · rw [hstep] at hfault
    cases hfault
  · rw [hstep] at hfault ⊢
    cases hanswer : (e.remainder p).answer with
    | ok _ => simp [Reply.map, hanswer, Except.map] at hfault
    | error _ => exact remainder_of_error hanswer

/-- An activity that fails leaves the engine as it was. -/
theorem complete_of_error (hfault : (e.complete a).answer = .error fault) :
    (e.complete a).engine = e := by
  rcases complete_cases e a with hengine | ⟨program, hidle, hcomplete⟩
  · exact hengine
  · rw [hcomplete] at hfault ⊢
    cases hperform : MicroOp.perform e.table program e.cpu with
    | ok cpu =>
        rw [(wholePhase_of_ok hidle hperform a.stage).1] at hfault
        cases hfault
    | error _ => exact (wholePhase_of_error hidle hperform a.stage).2

/-- A cycle that fails does so in one of its three activities, which leaves no trace. -/
theorem cycle_of_error (hfault : e.cycle.answer = .error fault) :
    (e.fetch.answer = .error fault ∧ e.cycle.engine = e) ∨
      (e.fetch.answer = .ok () ∧ e.fetch.engine.decode.answer = .error fault ∧
        e.cycle.engine = e.fetch.engine) ∨
      (e.fetch.answer = .ok () ∧ e.fetch.engine.decode.answer = .ok () ∧
        e.fetch.engine.decode.engine.execute.answer = .error fault ∧
        e.cycle.engine = e.fetch.engine.decode.engine) := by
  have hundone : ∀ (e : Engine) (a : Activity) (fault : Fault),
      (e.complete a).answer = .error fault → (e.complete a).engine = e :=
    fun _ _ _ => complete_of_error
  cases hfetch : e.fetch.answer with
  | error _ =>
      rw [cycle, Reply.andThen_of_error hfetch] at hfault ⊢
      exact .inl ⟨hfault, hundone e .fetch _ hfetch⟩
  | ok _ =>
      cases hdecode : e.fetch.engine.decode.answer with
      | error _ =>
          rw [cycle, Reply.andThen_of_ok hfetch, Reply.andThen_of_error hdecode] at hfault ⊢
          exact .inr (.inl ⟨rfl, hfault, hundone _ .decode _ hdecode⟩)
      | ok _ =>
          rw [(cycle_eq_execute hfetch hdecode).1] at hfault
          rw [(cycle_eq_execute hfetch hdecode).2]
          exact .inr (.inr ⟨rfl, rfl, hfault, hundone _ .execute _ hfault⟩)

/-- **All or nothing.** If a step of a phase fails, however many steps came before it and whatever
else was tried in between, the engine is as it was when the phase began. So an activity that fails
leaves the engine as it was, and a cycle that fails leaves what its last activity to succeed
left. -/
theorem failed_phase_is_undone (e : Engine) :
    (∀ (a : Activity) (rs : List Request) (fault : Fault), (e.commence a).answer = .ok true →
      let begun := (e.commence a).engine
      (∀ reply ∈ begun.replies rs, reply.engine.phase ≠ none) →
      (begun.after rs).step.answer = .error fault →
      (begun.after rs).step.engine = e ∧ (begun.after rs).step.engine.phase = none) ∧
    (∀ (a : Activity) (fault : Fault), (e.complete a).answer = .error fault →
      (e.complete a).engine = e) ∧
    ∀ fault : Fault, e.cycle.answer = .error fault →
      (e.fetch.answer = .error fault ∧ e.cycle.engine = e) ∨
      (e.fetch.answer = .ok () ∧ e.fetch.engine.decode.answer = .error fault ∧
        e.cycle.engine = e.fetch.engine) ∨
      (e.fetch.answer = .ok () ∧ e.fetch.engine.decode.answer = .ok () ∧
        e.fetch.engine.decode.engine.execute.answer = .error fault ∧
        e.cycle.engine = e.fetch.engine.decode.engine) := by
  refine ⟨fun a rs fault hbegun hgoes hfault => ?_, fun a fault => complete_of_error,
    fun fault => cycle_of_error⟩
  obtain ⟨program, hidle, hprogram⟩ := exists_program_of_commence hbegun
  rw [commence_of_program hidle hprogram] at hgoes hfault ⊢
  -- as long as the phase goes on it carries the state in which it began
  obtain ⟨pending, hphase, htable⟩ := after_phase rfl hgoes
  rw [step_of_error hphase hfault, htable]
  refine ⟨?_, rfl⟩
  obtain ⟨table, cpu, phase⟩ := e
  subst hidle
  rfl

/-- An engine whose current instruction stores through a pointer past memory, as does the
instruction that it would fetch next. -/
def strayStore : Engine where
  table := .builtIn
  cpu := {
    memory := (({} : Memory).set 0x00 0x1A10).set 0x10 0x0100
    registers := { ir := 0x1A10, gpa := 9 }
    current := some ⟨0x1A, "MOVE A,(addr)", "Store GPA at the address held in memory"⟩ }

/-- The sixth micro-instruction finds out, when five have changed MAR, MDR and the memory pointer.
A cycle stores through the same pointer again, and fails in its last activity. -/
theorem failed_phase_is_undone_strayStore :
    let begun := (strayStore.commence .execute).engine
    let last := (begun.after [.step, .step, .reset, .step, .step, .poke 0x10 0x20, .step]).step
    let fault := Fault.memory (.addressOutOfRange 0x0100)
    last.answer = .error fault ∧ last.engine = strayStore ∧
      strayStore.execute.answer = .error fault ∧ strayStore.execute.engine = strayStore ∧
      strayStore.cycle.answer = .error fault ∧
      strayStore.cycle.engine = strayStore.fetch.engine.decode.engine := by
  have hlast : ((strayStore.commence .execute).engine.after
      [.step, .step, .reset, .step, .step, .poke 0x10 0x20, .step]).step.answer =
        .error (.memory (.addressOutOfRange 0x0100)) := by rfl
  have hexecute : (strayStore.complete .execute).answer =
      .error (.memory (.addressOutOfRange 0x0100)) := by rfl
  have hcycle : strayStore.cycle.answer = .error (.memory (.addressOutOfRange 0x0100)) := by rfl
  have hfetch : strayStore.fetch.answer = .ok () := by rfl
  have hdecode : strayStore.fetch.engine.decode.answer = .ok () := by rfl
  obtain ⟨hstep, hactivity, hfails⟩ := failed_phase_is_undone strayStore
  obtain ⟨h, -⟩ | ⟨-, h, -⟩ | ⟨-, -, -, hengine⟩ := hfails _ hcycle
  · rw [hfetch] at h
    cases h
  · rw [hdecode] at h
    cases h
  · exact ⟨hlast, (hstep .execute _ _ rfl (by decide) hlast).1, hexecute,
      hactivity .execute _ hexecute, hcycle, hengine⟩

/-! ### A phase that ends -/

/-- Requests with as many steps among them as there are micro-instructions to come, and at least
one, end the phase. With what was reported before it, the step that ends the phase comes to what
was left of the phase at first. -/
theorem exists_last_step (hphase : e.phase = some p) (hpos : 0 < rs.count .step)
    (hsteps : p.pending.length ≤ rs.count .step) :
    ∃ before later, rs = before ++ .step :: later ∧
      (∀ reply ∈ e.replies before, reply.engine.phase ≠ none) ∧
      (e.after before).step.prependLog ((e.replies before).flatMap (·.log)) =
        (e.remainder p).map fun _ => false := by
  induction rs generalizing e p with
  | nil => exact absurd hpos (Nat.lt_irrefl 0)
  | cons r rs ih =>
      by_cases hr : r = .step
      · subst hr
        rw [List.count_cons_self] at hsteps
        rcases step_cases hphase with ⟨op, rest, cpu, hpending, hrest, hop, hpasses, hstep⟩ | hstep
        · -- the phase goes on: what is left loses the micro-instruction just performed
          have hlength : rest.length ≤ rs.count .step := by
            rw [hpending, List.length_cons] at hsteps
            omega
          have hpos' : 0 < rs.count .step :=
            Nat.lt_of_lt_of_le (List.length_pos_iff.mpr hrest) hlength
          obtain ⟨before, later, rfl, hgoes, hlast⟩ :=
            ih (e := { e with cpu, phase := some { p with pending := rest } })
              (p := { p with pending := rest }) rfl hpos' hlength
          refine ⟨.step :: before, later, rfl, ?_, ?_⟩
          · rw [replies_step, hstep, List.forall_mem_cons]
            exact ⟨by simp [Reply.map], hgoes⟩
          · rw [after_step, replies_step, List.flatMap_cons, ← Reply.prependLog_prependLog,
              remainder_cons hpending hop hpasses hrest, hstep, hlast]
            rfl
        · -- the phase ends with this step
          refine ⟨[], rs, rfl, by simp [replies], ?_⟩
          rw [after, hstep]
          rfl
      · -- anything else is refused, and the phase is where it was
        have hbusy : e.phase ≠ none := by simp [hphase]
        rw [List.count_cons_of_ne hr] at hpos hsteps
        obtain ⟨before, later, rfl, hgoes, hlast⟩ := ih hphase hpos hsteps
        refine ⟨r :: before, later, rfl, ?_, ?_⟩
        · rw [replies_cons_of_phase hbusy hr, List.forall_mem_cons]
          exact ⟨hbusy, hgoes⟩
        · rw [after_cons_of_phase hbusy hr, replies_cons_of_phase hbusy hr]
          exact hlast

/-- **Nothing interferes with a phase under way.** Any request but a step is refused and changes
nothing. So a phase that was begun ends, at the latest with the eighth step, whatever is tried
between the steps; and with the same answer, engine and log as if it had been carried out at
once. -/
theorem phase_is_undisturbed :
    (∀ (e : Engine) (r : Request), e.phase ≠ none → r ≠ .step →
      e.respond r = ⟨.error .busy, e, []⟩) ∧
    ∀ (e : Engine) (a : Activity) (rs : List Request),
      (e.commence a).answer = .ok true → 8 ≤ rs.count .step →
      let begun := (e.commence a).engine
      ∃ before later, rs = before ++ .step :: later ∧
        (∀ reply ∈ begun.replies before, reply.engine.phase ≠ none) ∧
        let last := (begun.after before).step
        last.answer = (e.complete a).answer.map (fun _ => false) ∧
          last.engine = (e.complete a).engine ∧ last.engine.phase = none ∧
          (e.commence a).log ++ (begun.replies before).flatMap (·.log) ++ last.log =
            (e.complete a).log := by
  refine ⟨fun e r hphase hr => respond_of_phase hphase hr, fun e a rs hbegun hsteps => ?_⟩
  obtain ⟨program, hidle, hprogram⟩ := exists_program_of_commence hbegun
  have hlength := Activity.program?_length_le hprogram
  rw [complete_of_program hidle hprogram, wholePhase_eq hidle, commence_of_program hidle hprogram]
  obtain ⟨before, later, hrs, hgoes, hlast⟩ :=
    exists_last_step (e := { e with phase := some ⟨a.stage, program, e.cpu⟩ }) rfl (by omega)
      (Nat.le_trans hlength hsteps)
  -- answer, engine and log are those of one reply, so one equation gives all three
  have hover := (congrArg (·.engine.phase) hlast).trans (remainder_phase _ _)
  have hcomplete := congrArg (Reply.prependLog [.began a.stage]) hlast
  rw [Reply.prependLog_prependLog] at hcomplete
  exact ⟨before, later, hrs, hgoes, congrArg Reply.answer hcomplete,
    congrArg Reply.engine hcomplete, hover, congrArg Reply.log hcomplete⟩

/-- A fetch gets through whatever is tried meanwhile. -/
theorem phase_is_undisturbed_by_everything :
    let rs : List Request := [.load [], .step, .cycle, .step, .poke 0x100 0, .operate .div, .step,
      .setCurrent 0x2E, .step, .step, .step, .step, .step]
    let begun := (strayStore.commence .fetch).engine
    begun.respond (.run 3 .never) = ⟨.error .busy, begun, []⟩ ∧
      ∃ before later, rs = before ++ .step :: later ∧
        (begun.after before).step.engine = strayStore.fetch.engine := by
  intro rs begun
  obtain ⟨hrefused, hends⟩ := phase_is_undisturbed
  obtain ⟨before, later, hrs, -, -, hengine, -⟩ := hends strayStore .fetch rs rfl (by decide)
  exact ⟨hrefused begun (.run 3 .never) (by decide) (by decide), before, later, hrs, hengine⟩

end Engine

end TeachingCpu
