import TeachingCpu.Machine.Cpu
import TeachingCpu.Machine.Event
/-!
# TeachingCpu.Machine.Engine

The **engine**: a processor driven through the phases of its instruction cycle, one
micro-instruction at a time.

Design points:

* A phase under way (`Phase`) carries what is left of its micro-program and the state to go back
  to. An engine without one is idle, so "idle with work left" cannot be written down.
* Every operation is a function from an engine to a `Reply`: the answer or the fault, the engine
  that is left, and the events of this operation alone. A fault does not end anything by itself;
  `Reply.andThen` is what makes a sequence of operations stop at the first one.
* Every operation other than `Engine.step` is refused first of all while a phase is under way,
  before its arguments are looked at. So a phase that was begun ends as if nobody had interfered.
* A phase is **all or nothing**: a micro-instruction that fails puts back the state of before the
  phase.
-/

set_option autoImplicit false

namespace TeachingCpu

/-- A phase under way. -/
structure Phase where
  stage : Stage
  /-- The micro-instructions still to come. -/
  pending : List MicroOp
  /-- The state in which the phase began. -/
  start : Cpu
deriving DecidableEq

/-- A processor with its instruction set and the phase it is in. -/
structure Engine where
  table : InstructionSet
  cpu : Cpu := {}
  /-- The phase under way, if any. -/
  phase : Option Phase := none
deriving DecidableEq

/-- What an operation on an engine, in whatever form, comes to. -/
structure Reply (α : Type) (ε : Type := Engine) where
  /-- The answer, or the fault that ended the operation. -/
  answer : Except Fault α
  /-- The engine that the operation leaves. -/
  engine : ε
  /-- What the operation reported, in order. -/
  log : List Event := []

/-- Goes on with `next` after a reply that is no fault. -/
def Reply.andThen {α β ε : Type} (r : Reply α ε) (next : α → ε → Reply β ε) : Reply β ε :=
  match r.answer with
  | .error fault => ⟨.error fault, r.engine, r.log⟩
  | .ok a =>
    let s := next a r.engine
    ⟨s.answer, s.engine, r.log ++ s.log⟩

namespace Engine

/-- Whether no phase is under way. -/
def isIdle (e : Engine) : Bool := e.phase.isNone

/-- The name of what the engine is doing. -/
def phaseName (e : Engine) : String := Stage.phaseName (e.phase.map (·.stage))

/-- Whether the current instruction ends a run. -/
def halted (e : Engine) : Bool := e.cpu.halted

/-- Declines an operation: nothing changes and nothing is reported. -/
def refuse {α : Type} (e : Engine) (fault : Fault) : Reply α := ⟨.error fault, e, []⟩

/-! ### Setting the state -/

/-- Goes back to the state of a new engine. -/
def reset (e : Engine) : Reply Unit :=
  if e.isIdle then ⟨.ok (), { e with cpu := {} }, []⟩ else e.refuse .busy

/-- Puts a program image into an otherwise new processor. The first word of the image gives the
origin, the others go to memory from there on, and the program counter points at the first. -/
def load (e : Engine) (image : List Word) : Reply Unit :=
  if e.isIdle then
    match image with
    | [] => e.refuse .missingOrigin
    | origin :: words =>
      if origin.high = originOpcode then
        match ({} : Memory).load (Word.ofByte origin.low) words with
        | .error error => e.refuse (.memory error)
        | .ok memory =>
          let cpu : Cpu := { memory, registers := { pc := Word.ofByte origin.low } }
          ⟨.ok (), { e with cpu }, [.loaded words.length origin.low]⟩
      else e.refuse .missingOrigin
  else e.refuse .busy

/-- Writes a register. -/
def setRegister (e : Engine) (register : Register) (word : Word) : Reply Unit :=
  if e.isIdle then ⟨.ok (), { e with cpu := e.cpu.put register word }, []⟩ else e.refuse .busy

/-- Writes a word of memory. -/
def poke (e : Engine) (address word : Word) : Reply Unit :=
  if e.isIdle then
    match e.cpu.memory.write address word with
    | .ok memory => ⟨.ok (), { e with cpu := { e.cpu with memory } }, []⟩
    | .error error => e.refuse (.memory error)
  else e.refuse .busy

/-- Makes an instruction current, as if it had just been decoded. -/
def setCurrent (e : Engine) (id : Byte) : Reply Unit :=
  if e.isIdle then
    match e.table.lookup id with
    | some instruction =>
      ⟨.ok (), { e with cpu := { e.cpu with current := some instruction } }, []⟩
    | none => e.refuse (.invalidInstruction id)
  else e.refuse .busy

/-! ### Phases, step by step -/

/-- Begins a phase with a micro-program. -/
def begin (e : Engine) (stage : Stage) (program : List MicroOp) : Reply Unit :=
  if e.isIdle then
    ⟨.ok (), { e with phase := some ⟨stage, program, e.cpu⟩ }, [.began stage]⟩
  else e.refuse .busy

/-- Begins to fetch. -/
def beginFetch (e : Engine) : Reply Unit := e.begin .fetching MicroOp.fetch

/-- Begins to decode. -/
def beginDecode (e : Engine) : Reply Unit := e.begin .decoding MicroOp.decode

/-- Begins to execute the current instruction; answers whether there is one. -/
def beginExecute (e : Engine) : Reply Bool :=
  if e.isIdle then
    match e.cpu.current with
    | none => ⟨.ok false, e, [.nothingDecoded]⟩
    | some instruction =>
      match Operation.decode? instruction.id with
      | none => e.refuse (.invalidInstruction instruction.id)
      | some op => (e.begin .executing op.microProgram).andThen fun _ e => ⟨.ok true, e, []⟩
  else e.refuse .busy

/-- Performs the next micro-instruction; answers whether the phase is still under way. If it
fails, the state is what it was when the phase began, and the phase is over. -/
def step (e : Engine) : Reply Bool :=
  match e.phase with
  | none => ⟨.ok false, e, []⟩
  | some p =>
    match p.pending with
    | [] => ⟨.ok false, { e with phase := none }, []⟩
    | op :: rest =>
      match op.apply e.table e.cpu with
      | .error fault =>
        ⟨.error fault, { e with cpu := p.start, phase := none },
          [.attempted op, .rolledBack op (some p.stage)]⟩
      | .ok cpu =>
        let pending := if op.passes e.cpu then rest else []
        if pending.isEmpty then ⟨.ok false, { e with cpu, phase := none }, [.attempted op]⟩
        else ⟨.ok true, { e with cpu, phase := some { p with pending } }, [.attempted op]⟩

/-! ### Whole phases -/

/-- Steps until the phase is over, at most `bound` times. -/
def stepsWithin : (bound : Nat) → Engine → Reply Unit
  | 0, e => ⟨.ok (), e, []⟩
  | bound + 1, e => e.step.andThen fun more e =>
    if more then stepsWithin bound e else ⟨.ok (), e, []⟩

/-- The number of micro-instructions still to come. -/
def pendingCount (e : Engine) : Nat :=
  match e.phase with
  | none => 0
  | some p => p.pending.length

/-- Steps until the phase is over. A step leaves fewer micro-instructions to come, so one more
step than there are is enough. -/
def finish (e : Engine) : Reply Unit := stepsWithin (e.pendingCount + 1) e

/-- Reads the next instruction word. -/
def fetch (e : Engine) : Reply Unit := e.beginFetch.andThen fun _ e => e.finish

/-- Makes the instruction of the word read the current one. -/
def decode (e : Engine) : Reply Unit := e.beginDecode.andThen fun _ e => e.finish

/-- Carries out the current instruction, if there is one. -/
def execute (e : Engine) : Reply Unit :=
  e.beginExecute.andThen fun begun e => if begun then e.finish else ⟨.ok (), e, []⟩

/-- Fetches, decodes and executes one instruction. -/
def cycle (e : Engine) : Reply Unit :=
  e.fetch.andThen fun _ e => e.decode.andThen fun _ e => e.execute

/-- Joins both general purpose registers through a circuit, also one that no instruction
selects. -/
def operate (e : Engine) (circuit : Circuit) : Reply Unit :=
  (e.begin .executing (MicroOp.operate circuit)).andThen fun _ e => e.finish

end Engine

end TeachingCpu
