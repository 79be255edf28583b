import TeachingCpu.Machine.Run
import TeachingCpu.Proofs.Machine.Phase
/-!
# TeachingCpu.Proofs.Machine.Request

**Requests**: the operations that may be asked of an engine, as data, so that one can speak of any
operations in any order.

Design points:

* A request always gets a reply, and the next request meets the engine that this one left,
  whatever was answered. `Engine.replies` keeps all replies, `Engine.after` the last engine.
* A phase is begun by an **activity**. Whoever begins one may go on step by step
  (`Engine.commence`) or have it carried out at once (`Engine.complete`).
* While a phase is under way, a step is the only request that is not refused
  (`Engine.respond_of_phase`). So what a phase does is what steps do, and that is said once, by
  `Engine.step_cases`.
-/

set_option autoImplicit false

namespace TeachingCpu

/-! ### Requests and replies -/

/-- An operation that may be asked of an engine. -/
inductive Request
  | load (image : List Word)
  | reset
  | setRegister (register : Register) (word : Word)
  | poke (address word : Word)
  | setCurrent (id : Byte)
  | beginFetch
  | beginDecode
  | beginExecute
  | step
  | fetch
  | decode
  | execute
  | cycle
  | operate (circuit : Circuit)
  | run (limit : Nat) (c : Cancellation)
deriving DecidableEq

/-- What a request is answered, faults aside. -/
inductive Answer
  /-- It is done. -/
  | done
  /-- Whether a phase is under way now. -/
  | underWay (more : Bool)
  /-- Why a run ended. -/
  | ended (outcome : RunOutcome)
deriving DecidableEq

namespace Engine

/-- The reply to a request. -/
def respond (e : Engine) : Request → Reply Answer
  | .load image => (e.load image).map fun _ => .done
  | .reset => e.reset.map fun _ => .done
  | .setRegister register word => (e.setRegister register word).map fun _ => .done
  | .poke address word => (e.poke address word).map fun _ => .done
  | .setCurrent id => (e.setCurrent id).map fun _ => .done
  | .beginFetch => e.beginFetch.map fun _ => .done
  | .beginDecode => e.beginDecode.map fun _ => .done
  | .beginExecute => e.beginExecute.map .underWay
  | .step => e.step.map .underWay
  | .fetch => e.fetch.map fun _ => .done
  | .decode => e.decode.map fun _ => .done
  | .execute => e.execute.map fun _ => .done
  | .cycle => e.cycle.map fun _ => .done
  | .operate circuit => (e.operate circuit).map fun _ => .done
  | .run limit c => (e.run limit c).map .ended

/-- The replies to requests in a row. -/
def replies (e : Engine) : List Request → List (Reply Answer)
  | [] => []
  | r :: rs => e.respond r :: (e.respond r).engine.replies rs

/-- The engine that requests in a row leave. -/
def after (e : Engine) : List Request → Engine
  | [] => e
  | r :: rs => (e.respond r).engine.after rs

end Engine

/-! ### Activities -/

/-- What a phase can be begun for. -/
inductive Activity
  | fetch
  | decode
  | execute
  | operate (circuit : Circuit)
deriving DecidableEq

namespace Activity

/-- The stage of the phase that an activity begins. -/
def stage : Activity → Stage
  | .fetch => .fetching
  | .decode => .decoding
  | .execute => .executing
  | .operate _ => .executing

/-- The micro-program of an activity. To execute takes a current instruction with an operation. -/
def program? (cpu : Cpu) : Activity → Option (List MicroOp)
  | .fetch => some MicroOp.fetch
  | .decode => some MicroOp.decode
  | .execute =>
    (cpu.current.bind fun i => Operation.decode? i.id).map Operation.microProgram
  | .operate circuit => some (MicroOp.operate circuit)

end Activity

/-- The activity of which a stage is a part where instructions are carried out. -/
def Stage.activity : Stage → Activity
  | .fetching => .fetch
  | .decoding => .decode
  | .executing => .execute

@[simp] theorem Stage.stage_activity (stage : Stage) : stage.activity.stage = stage := by
  cases stage <;> rfl

theorem Activity.program?_execute_eq_some_iff {cpu : Cpu} {program : List MicroOp} :
    execute.program? cpu = some program ↔
      ∃ i op, cpu.current = some i ∧ Operation.decode? i.id = some op ∧
        op.microProgram = program := by
  simp [program?, Option.bind_eq_some_iff]

/-- No operation takes more micro-instructions than arithmetic on a word of memory. -/
theorem Operation.microProgram_length_le (op : Operation) : op.microProgram.length ≤ 8 := by
  cases op with
  | compute _ mode _ => cases mode <;> simp [microProgram, MicroOp.join, MicroOp.readOperand]
  | compare mode _ => cases mode <;> simp [microProgram, MicroOp.join, MicroOp.readOperand]
  | load mode _ => cases mode <;> simp [microProgram, MicroOp.readOperand]
  | store indirect _ => cases indirect <;> simp [microProgram]
  | jump target => cases target <;> simp [microProgram, MicroOp.jump, MicroOp.readOperand]
  | branch _ _ target => cases target <;> simp [microProgram, MicroOp.jump, MicroOp.readOperand]
  | halt => simp [microProgram]

theorem Activity.program?_length_le {a : Activity} {cpu : Cpu} {program : List MicroOp}
    (h : a.program? cpu = some program) : program.length ≤ 8 := by
  cases a with
  | execute =>
      obtain ⟨i, op, -, -, rfl⟩ := program?_execute_eq_some_iff.mp h
      exact op.microProgram_length_le
  | _ =>
      cases h
      simp [MicroOp.fetch, MicroOp.decode, MicroOp.operate]

namespace Engine

/-- Begins the phase of an activity; answers whether there is something to do. -/
def commence (e : Engine) : Activity → Reply Bool
  | .fetch => e.beginFetch.map fun _ => true
  | .decode => e.beginDecode.map fun _ => true
  | .execute => e.beginExecute
  | .operate circuit => (e.begin .executing (MicroOp.operate circuit)).map fun _ => true

/-- Carries out an activity from its beginning to its end. -/
def complete (e : Engine) : Activity → Reply Unit
  | .fetch => e.fetch
  | .decode => e.decode
  | .execute => e.execute
  | .operate circuit => e.operate circuit

/-- To carry out an activity is to begin it and, if there is something to do, to step to the end
of its phase. -/
theorem complete_eq (e : Engine) (a : Activity) :
    e.complete a =
      (e.commence a).andThen fun begun e => if begun then e.finish else ⟨.ok (), e, []⟩ := by
  cases a with
  | execute => rfl
  | _ =>
      rw [commence, Reply.map_andThen]
      rfl

/-! ### Refusals -/

variable {e : Engine}

@[simp] theorem refuse_andThen {α β : Type} (fault : Fault) (next : α → Engine → Reply β) :
    (e.refuse fault).andThen next = e.refuse fault := rfl

@[simp] theorem refuse_map {α β : Type} (fault : Fault) (f : α → β) :
    (e.refuse fault).map f = e.refuse fault := rfl

theorem begin_of_phase (hphase : e.phase ≠ none) (stage : Stage) (program : List MicroOp) :
    e.begin stage program = e.refuse .busy := by
  simp [begin, isIdle, hphase]

theorem beginExecute_of_phase (hphase : e.phase ≠ none) : e.beginExecute = e.refuse .busy := by
  simp [beginExecute, isIdle, hphase]

theorem commence_of_phase (hphase : e.phase ≠ none) (a : Activity) :
    e.commence a = e.refuse .busy := by
  cases a with
  | fetch => simp [commence, beginFetch, begin_of_phase hphase]
  | decode => simp [commence, beginDecode, begin_of_phase hphase]
  | execute => exact beginExecute_of_phase hphase
  | operate circuit => simp [commence, begin_of_phase hphase]

theorem complete_of_phase (hphase : e.phase ≠ none) (a : Activity) :
    e.complete a = e.refuse .busy := by
  rw [complete_eq, commence_of_phase hphase, refuse_andThen]

/-- **Nothing but a step gets through to a phase under way.** Every other request is refused before
its arguments are looked at. -/
theorem respond_of_phase (hphase : e.phase ≠ none) {r : Request} (hr : r ≠ .step) :
    e.respond r = e.refuse .busy := by
  have hactivity := complete_of_phase hphase
  cases r with
  | step => exact absurd rfl hr
  | load _ => simp [respond, load, isIdle, hphase]
  | reset => simp [respond, reset, isIdle, hphase]
  | setRegister _ _ => simp [respond, setRegister, isIdle, hphase]
  | poke _ _ => simp [respond, poke, isIdle, hphase]
  | setCurrent _ => simp [respond, setCurrent, isIdle, hphase]
  | beginFetch => simp [respond, beginFetch, begin_of_phase hphase]
  | beginDecode => simp [respond, beginDecode, begin_of_phase hphase]
  | beginExecute => simp [respond, beginExecute_of_phase hphase]
  | fetch => rw [respond, show e.fetch = _ from hactivity .fetch, refuse_map]
  | decode => rw [respond, show e.decode = _ from hactivity .decode, refuse_map]
  | execute => rw [respond, show e.execute = _ from hactivity .execute, refuse_map]
  | operate circuit =>
      rw [respond, show e.operate circuit = _ from hactivity (.operate circuit), refuse_map]
  | cycle => rw [respond, cycle, show e.fetch = _ from hactivity .fetch, refuse_andThen, refuse_map]
  | run _ _ => simp [respond, run, isIdle, hphase]

/-! ### Requests in a row -/

variable {rs : List Request}

@[simp] theorem replies_step (e : Engine) (rs : List Request) :
    e.replies (.step :: rs) = e.step.map .underWay :: e.step.engine.replies rs := rfl

@[simp] theorem after_step (e : Engine) (rs : List Request) :
    e.after (.step :: rs) = e.step.engine.after rs := rfl

theorem replies_cons_of_phase (hphase : e.phase ≠ none) {r : Request} (hr : r ≠ .step) :
    e.replies (r :: rs) = e.refuse .busy :: e.replies rs := by
  rw [replies, respond_of_phase hphase hr]
  rfl

theorem after_cons_of_phase (hphase : e.phase ≠ none) {r : Request} (hr : r ≠ .step) :
    e.after (r :: rs) = e.after rs := by
  rw [after, respond_of_phase hphase hr]
  rfl

/-! ### How an activity begins and goes on -/

variable {a : Activity} {program : List MicroOp}

theorem begin_of_idle (hidle : e.phase = none) (stage : Stage) (program : List MicroOp) :
    e.begin stage program =
      ⟨.ok (), { e with phase := some ⟨stage, program, e.cpu⟩ }, [.began stage]⟩ := by
  simp [begin, isIdle, hidle]

theorem commence_of_program (hidle : e.phase = none) (hprogram : a.program? e.cpu = some program) :
    e.commence a =
      ⟨.ok true, { e with phase := some ⟨a.stage, program, e.cpu⟩ }, [.began a.stage]⟩ := by
  cases a with
  | execute =>
      obtain ⟨i, op, hcurrent, hop, rfl⟩ := Activity.program?_execute_eq_some_iff.mp hprogram
      simp [commence, beginExecute, isIdle, hidle, hcurrent, hop, begin_of_idle hidle,
        Reply.andThen, Activity.stage]
  | _ =>
      cases hprogram
      simp [commence, beginFetch, beginDecode, begin_of_idle hidle, Reply.map, Except.map,
        Activity.stage]

/-- Without a micro-program nothing is begun: there is nothing to execute, or what is to be
executed is no operation. -/
theorem commence_of_no_program (hidle : e.phase = none) (hprogram : a.program? e.cpu = none) :
    (e.cpu.current = none ∧ e.commence a = ⟨.ok false, e, [.nothingDecoded]⟩) ∨
      ∃ i, e.cpu.current = some i ∧ Operation.decode? i.id = none ∧
        e.commence a = e.refuse (.invalidInstruction i.id) := by
  cases a with
  | execute =>
      cases hcurrent : e.cpu.current with
      | none =>
          left
          simp [commence, beginExecute, isIdle, hidle, hcurrent]
      | some i =>
          have hop : Operation.decode? i.id = none := by
            simpa [Activity.program?, hcurrent] using hprogram
          right
          exact ⟨i, rfl, hop, by simp [commence, beginExecute, isIdle, hidle, hcurrent, hop]⟩
  | _ => cases hprogram

/-- Either a phase is begun, in an idle engine and with the micro-program of the activity, or the
engine is left alone. -/
theorem commence_cases (e : Engine) (a : Activity) :
    ((e.commence a).engine = e ∧ (e.commence a).answer ≠ .ok true) ∨
      ∃ program, e.phase = none ∧ a.program? e.cpu = some program := by
  cases hphase : e.phase with
  | some p =>
      left
      rw [commence_of_phase (by simp [hphase])]
      exact ⟨rfl, by simp [refuse]⟩
  | none =>
      cases hprogram : a.program? e.cpu with
      | some program => exact .inr ⟨program, rfl, rfl⟩
      | none =>
          left
          rcases commence_of_no_program hphase hprogram with ⟨-, h⟩ | ⟨i, -, -, h⟩ <;> rw [h]
          · exact ⟨rfl, by simp⟩
          · exact ⟨rfl, by simp [refuse]⟩

theorem exists_program_of_commence (hbegun : (e.commence a).answer = .ok true) :
    ∃ program, e.phase = none ∧ a.program? e.cpu = some program :=
  (commence_cases e a).resolve_left fun h => h.2 hbegun

theorem complete_of_program (hidle : e.phase = none) (hprogram : a.program? e.cpu = some program) :
    e.complete a = e.wholePhase a.stage program := by
  rw [complete_eq, commence_of_program hidle hprogram, wholePhase, begin_of_idle hidle]
  rfl

theorem complete_of_no_program (hidle : e.phase = none) (hprogram : a.program? e.cpu = none) :
    (e.cpu.current = none ∧ e.complete a = ⟨.ok (), e, [.nothingDecoded]⟩) ∨
      ∃ i, e.cpu.current = some i ∧ Operation.decode? i.id = none ∧
        e.complete a = e.refuse (.invalidInstruction i.id) := by
  rcases commence_of_no_program hidle hprogram with ⟨hcurrent, h⟩ | ⟨i, hcurrent, hop, h⟩
  · left
    exact ⟨hcurrent, by rw [complete_eq, h]; rfl⟩
  · right
    exact ⟨i, hcurrent, hop, by rw [complete_eq, h, refuse_andThen]⟩

/-- Either a whole phase is carried out, or the engine is left alone. -/
theorem complete_cases (e : Engine) (a : Activity) :
    (e.complete a).engine = e ∨
      ∃ program, e.phase = none ∧ e.complete a = e.wholePhase a.stage program := by
  rcases commence_cases e a with ⟨hengine, hanswer⟩ | ⟨program, hidle, hprogram⟩
  · left
    rw [complete_eq]
    cases h : (e.commence a).answer with
    | error _ => rw [Reply.andThen_of_error h, hengine]
    | ok begun =>
        have hbegun : begun = false := by
          rw [h] at hanswer
          simpa using hanswer
        rw [Reply.andThen_of_ok h, hbegun, hengine]
        rfl
  · exact .inr ⟨program, hidle, complete_of_program hidle hprogram⟩

end Engine

end TeachingCpu
