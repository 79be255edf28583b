import TeachingCpu.Machine.Sequencer
import TeachingCpu.Proofs.Machine.Invariant
/-!
# TeachingCpu.Proofs.Machine.Sequencer

**The fields of a phase never get out of step.** An engine whose phase is kept in three fields
replies to any requests as one that has the phase in one piece (`Engine.replies_spread`): every
operation writes the fields so that they are again those of a phase, or of none. So the invariant of
engines (`Engine.Coherent`) says of the three fields how they belong together
(`Sequencer.Coherent`).

There is one lemma for each operation, in the order in which they are defined. Only a step looks at
the queue and the snapshot, so only `Engine.step_spread` takes cases on them.
-/

set_option autoImplicit false

namespace TeachingCpu

/-! ### Requests -/

namespace Sequencer

/-- The reply to a request. -/
def respond (s : Sequencer) : Request → Reply Answer Sequencer
  | .load image => (s.load image).map fun _ => .done
  | .reset => s.reset.map fun _ => .done
  | .setRegister register word => (s.setRegister register word).map fun _ => .done
  | .poke address word => (s.poke address word).map fun _ => .done
  | .setCurrent id => (s.setCurrent id).map fun _ => .done
  | .beginFetch => s.beginFetch.map fun _ => .done
  | .beginDecode => s.beginDecode.map fun _ => .done
  | .beginExecute => s.beginExecute.map .underWay
  | .step => s.step.map .underWay
  | .fetch => s.fetch.map fun _ => .done
  | .decode => s.decode.map fun _ => .done
  | .execute => s.execute.map fun _ => .done
  | .cycle => s.cycle.map fun _ => .done
  | .operate circuit => (s.operate circuit).map fun _ => .done
  | .run limit c => (s.run limit c).map .ended

/-- The replies to requests in a row. -/
def replies (s : Sequencer) : List Request → List (Reply Answer Sequencer)
  | [] => []
  | r :: rs => s.respond r :: (s.respond r).engine.replies rs

/-- The engine that requests in a row leave. -/
def after (s : Sequencer) : List Request → Sequencer
  | [] => s
  | r :: rs => (s.respond r).engine.after rs

end Sequencer

/-- The reply with the fields of the engine that it leaves. -/
def Reply.spread {α : Type} (r : Reply α) : Reply α Sequencer := ⟨r.answer, r.engine.spread, r.log⟩

/-- What follows a reply follows it in either form. -/
theorem Reply.spread_andThen {α β : Type} (r : Reply α) {next : α → Engine → Reply β}
    {next' : α → Sequencer → Reply β Sequencer}
    (hnext : ∀ a e, next' a e.spread = (next a e).spread) :
    r.spread.andThen next' = (r.andThen next).spread := by
  obtain ⟨answer, e, log⟩ := r
  cases answer with
  | error fault => rfl
  | ok a => simp only [andThen, spread, hnext]

namespace Engine

variable (e : Engine)

/-- Nothing is lost when the fields are spread. -/
theorem gather_spread : e.spread.gather = e := by
  obtain ⟨table, cpu, phase⟩ := e
  cases phase <;> rfl

/-! ### Operations -/

theorem isIdle_spread : e.spread.isIdle = e.isIdle := by
  cases h : e.phase <;> simp [Sequencer.isIdle, spread, isIdle, h]

theorem reset_spread : e.spread.reset = e.reset.spread := by
  rw [Sequencer.reset, isIdle_spread, reset]
  split
  · next hidle =>
      have hphase : e.phase = none := Option.isNone_iff_eq_none.mp hidle
      simp [Reply.spread, spread, hphase]
  · rfl

theorem load_spread (image : List Word) : e.spread.load image = (e.load image).spread := by
  unfold Sequencer.load load
  rw [isIdle_spread]
  split
  · cases image with
    | nil => rfl
    | cons origin words =>
        dsimp only
        split
        · cases ({} : Memory).load (Word.ofByte origin.low) words <;> rfl
        · rfl
  · rfl

theorem setRegister_spread (register : Register) (word : Word) :
    e.spread.setRegister register word = (e.setRegister register word).spread := by
  rw [Sequencer.setRegister, isIdle_spread, setRegister]
  split <;> rfl

theorem poke_spread (address word : Word) :
    e.spread.poke address word = (e.poke address word).spread := by
  have hmemory : e.spread.cpu.memory = e.cpu.memory := rfl
  rw [Sequencer.poke, isIdle_spread, poke, hmemory]
  split
  · cases e.cpu.memory.write address word <;> rfl
  · rfl

theorem setCurrent_spread (id : Byte) : e.spread.setCurrent id = (e.setCurrent id).spread := by
  have htable : e.spread.table = e.table := rfl
  rw [Sequencer.setCurrent, isIdle_spread, setCurrent, htable]
  split
  · cases e.table.lookup id <;> rfl
  · rfl

theorem begin_spread (stage : Stage) (program : List MicroOp) :
    e.spread.begin stage program = (e.begin stage program).spread := by
  rw [Sequencer.begin, isIdle_spread, begin]
  split <;> rfl

theorem beginExecute_spread : e.spread.beginExecute = e.beginExecute.spread := by
  have hcurrent : e.spread.cpu.current = e.cpu.current := rfl
  rw [Sequencer.beginExecute, isIdle_spread, beginExecute, hcurrent]
  split
  · cases e.cpu.current with
    | none => rfl
    | some instruction =>
        dsimp only
        cases Operation.decode? instruction.id with
        | none => rfl
        | some op =>
            dsimp only
            rw [begin_spread]
            exact Reply.spread_andThen _ fun _ _ => rfl
  · rfl

theorem step_spread : e.spread.step = e.step.spread := by
  obtain ⟨table, cpu, _ | ⟨stage, pending, start⟩⟩ := e
  · rfl
  · cases pending with
    | nil => rfl
    | cons op rest =>
        change Sequencer.step ⟨table, cpu, some stage, op :: rest, some start⟩ = _
        rw [Sequencer.step, step]
        dsimp only
        cases op.apply table cpu with
        | error fault => rfl
        | ok next =>
            dsimp only
            generalize (if op.passes cpu then rest else []) = queue
            cases queue <;> rfl

theorem stepsWithin_spread (bound : Nat) :
    Sequencer.stepsWithin bound e.spread = (stepsWithin bound e).spread := by
  induction bound generalizing e with
  | zero => rfl
  | succ bound ih =>
      rw [Sequencer.stepsWithin, stepsWithin, step_spread]
      refine Reply.spread_andThen _ fun more e => ?_
      cases more with
      | false => rfl
      | true => exact ih e

theorem finish_spread : e.spread.finish = e.finish.spread := by
  have hcount : e.spread.queue.length = e.pendingCount := by
    obtain ⟨table, cpu, _ | p⟩ := e <;> rfl
  rw [Sequencer.finish, hcount, stepsWithin_spread]
  rfl

theorem fetch_spread : e.spread.fetch = e.fetch.spread := by
  rw [Sequencer.fetch, Sequencer.beginFetch, begin_spread]
  exact Reply.spread_andThen _ fun _ e => e.finish_spread

theorem decode_spread : e.spread.decode = e.decode.spread := by
  rw [Sequencer.decode, Sequencer.beginDecode, begin_spread]
  exact Reply.spread_andThen _ fun _ e => e.finish_spread

theorem execute_spread : e.spread.execute = e.execute.spread := by
  rw [Sequencer.execute, beginExecute_spread]
  refine Reply.spread_andThen _ fun begun e => ?_
  cases begun with
  | false => rfl
  | true => exact e.finish_spread

theorem cycle_spread : e.spread.cycle = e.cycle.spread := by
  rw [Sequencer.cycle, fetch_spread]
  refine Reply.spread_andThen _ fun _ e => ?_
  rw [decode_spread]
  exact Reply.spread_andThen _ fun _ e => e.execute_spread

theorem operate_spread (circuit : Circuit) :
    e.spread.operate circuit = (e.operate circuit).spread := by
  rw [Sequencer.operate, begin_spread]
  exact Reply.spread_andThen _ fun _ e => e.finish_spread

theorem runFrom_spread (c : Cancellation) (remaining done : Nat) (log : Array Event) :
    Sequencer.runFrom c remaining done log e.spread = (runFrom c remaining done log e).spread := by
  induction remaining generalizing done log e with
  | zero =>
      rw [Sequencer.runFrom, runFrom]
      change (if e.halted then _ else _) = _
      split
      · rfl
      · split <;> rfl
  | succ remaining ih =>
      rw [Sequencer.runFrom, runFrom]
      change (if e.halted then _ else _) = _
      split
      · rfl
      · split
        · rfl
        · rw [cycle_spread]
          dsimp only [Reply.spread]
          cases e.cycle.answer with
          | error fault => rfl
          | ok _ => exact ih ..

theorem run_spread (limit : Nat) (c : Cancellation) :
    e.spread.run limit c = (e.run limit c).spread := by
  rw [Sequencer.run, isIdle_spread, run]
  split
  · exact e.runFrom_spread c limit 0 #[]
  · rfl

/-! ### Requests in a row -/

theorem respond_spread (r : Request) : e.spread.respond r = (e.respond r).spread := by
  cases r with
  | load image => exact congrArg (Reply.map _) (e.load_spread image)
  | reset => exact congrArg (Reply.map _) e.reset_spread
  | setRegister register word => exact congrArg (Reply.map _) (e.setRegister_spread register word)
  | poke address word => exact congrArg (Reply.map _) (e.poke_spread address word)
  | setCurrent id => exact congrArg (Reply.map _) (e.setCurrent_spread id)
  | beginFetch => exact congrArg (Reply.map _) (e.begin_spread _ _)
  | beginDecode => exact congrArg (Reply.map _) (e.begin_spread _ _)
  | beginExecute => exact congrArg (Reply.map _) e.beginExecute_spread
  | step => exact congrArg (Reply.map _) e.step_spread
  | fetch => exact congrArg (Reply.map _) e.fetch_spread
  | decode => exact congrArg (Reply.map _) e.decode_spread
  | execute => exact congrArg (Reply.map _) e.execute_spread
  | cycle => exact congrArg (Reply.map _) e.cycle_spread
  | operate circuit => exact congrArg (Reply.map _) (e.operate_spread circuit)
  | run limit c => exact congrArg (Reply.map _) (e.run_spread limit c)

/-- The two forms of an engine reply alike to any requests in a row. -/
theorem replies_spread (rs : List Request) :
    e.spread.replies rs = (e.replies rs).map Reply.spread := by
  induction rs generalizing e with
  | nil => rfl
  | cons r rs ih =>
      rw [Sequencer.replies, replies, respond_spread, List.map_cons]
      exact congrArg _ (ih _)

/-- What requests in a row leave of an engine in three fields are the fields of what they leave. -/
theorem after_spread (rs : List Request) : e.spread.after rs = (e.after rs).spread := by
  induction rs generalizing e with
  | nil => rfl
  | cons r rs ih =>
      rw [Sequencer.after, after, respond_spread]
      exact ih _

end Engine

/-! ### The invariant -/

namespace Sequencer

/-- How the fields of an engine belong together between any two requests. -/
structure Coherent (table : InstructionSet) (s : Sequencer) : Prop where
  table_eq : s.table = table
  /-- The current instruction is one of the table's, and the upper half of the status register is
  clear. -/
  sound : s.cpu.Sound table
  /-- An idle engine has nothing to do and nothing to go back to. -/
  idle : s.stage = none → s.queue = [] ∧ s.snapshot = none
  /-- The queue is the rest of the micro-program of the phase, and what is done of it leads from the
  snapshot to the present state. Nothing is left to do only where nothing was to be done at all. -/
  underWay : ∀ stage, s.stage = some stage → ∃ start done,
    s.snapshot = some start ∧ start.Sound table ∧
    stage.activity.program? start = some (done ++ s.queue) ∧
    MicroOp.Leads table done start s.cpu ∧ (s.queue = [] → done = [])

/-- Fields that belong together are those of an engine. -/
theorem Coherent.spread_gather {table : InstructionSet} {s : Sequencer} (h : s.Coherent table) :
    s.gather.spread = s := by
  obtain ⟨table', cpu, stage, queue, snapshot⟩ := s
  cases stage with
  | none =>
      obtain ⟨hqueue, hsnapshot⟩ := h.idle rfl
      cases hqueue
      cases hsnapshot
      rfl
  | some stage =>
      obtain ⟨start, done, hsnapshot, -⟩ := h.underWay stage rfl
      cases hsnapshot
      rfl

/-- The fields of a coherent engine belong together. -/
theorem coherent_spread {table : InstructionSet} {e : Engine} (h : e.Coherent table) :
    e.spread.Coherent table where
  table_eq := h.table_eq
  sound := h.sound
  idle hidle := by
    have hphase : e.phase = none := Option.map_eq_none_iff.mp hidle
    simp [Engine.spread, hphase]
  underWay stage hstage := by
    obtain ⟨p, hphase, rfl⟩ := Option.map_eq_some_iff.mp hstage
    obtain ⟨hstart, done, hunderWay⟩ := h.underWay p hphase
    refine ⟨p.start, done, by simp [Engine.spread, hphase], hstart, ?_⟩
    have hqueue : e.spread.queue = p.pending := by simp [Engine.spread, hphase]
    rw [hqueue]
    exact hunderWay

/-- **The state machine never gets out of step.** Whatever was asked of a new engine, in any order
and with any outcome: when it is idle, its queue is empty and there is no snapshot; when a phase is
under way, there is one, and from it the part of the micro-program that is no longer queued leads to
the present state. -/
theorem after_coherent (table : InstructionSet) (rs : List Request) :
    (({ table } : Sequencer).after rs).Coherent table := by
  have hafter : ({ table } : Sequencer).after rs = (({ table } : Engine).after rs).spread :=
    Engine.after_spread { table } rs
  rw [hafter]
  exact coherent_spread (Engine.Coherent.of_requests table rs)

end Sequencer

end TeachingCpu
