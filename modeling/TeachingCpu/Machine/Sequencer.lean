import TeachingCpu.Machine.Run
/-!
# TeachingCpu.Machine.Sequencer

The **engine with what it keeps of a phase in three fields**: which phase is under way, which
micro-instructions are to come, and which state to put back should one of them fail.

An `Engine` has all three at once or none of them, by its type. Here nothing holds them together but
the operations, each of which writes the fields one by one. The two machines are the same
(`Engine.spread` takes one to the other, and back goes `Sequencer.gather`).
-/

set_option autoImplicit false

namespace TeachingCpu

/-- A processor with its instruction set and the fields that a phase needs. -/
structure Sequencer where
  table : InstructionSet
  cpu : Cpu := {}
  /-- The phase under way, if any. -/
  stage : Option Stage := none
  /-- The micro-instructions still to come. -/
  queue : List MicroOp := []
  /-- The state to restore if the phase under way fails. -/
  snapshot : Option Cpu := none
deriving DecidableEq

namespace Sequencer

/-- Whether no phase is under way. -/
def isIdle (s : Sequencer) : Bool := s.stage.isNone

/-- Whether the current instruction ends a run. -/
def halted (s : Sequencer) : Bool := s.cpu.halted

/-- Declines an operation: nothing changes and nothing is reported. -/
def refuse {α : Type} (s : Sequencer) (fault : Fault) : Reply α Sequencer := ⟨.error fault, s, []⟩

/-! ### Setting the state -/

/-- Goes back to the state of a new engine. -/
def reset (s : Sequencer) : Reply Unit Sequencer :=
  if s.isIdle then
    ⟨.ok (), { s with cpu := {}, queue := [], snapshot := none, stage := none }, []⟩
  else s.refuse .busy

/-- Puts a program image into an otherwise new processor. -/
def load (s : Sequencer) (image : List Word) : Reply Unit Sequencer :=
  if s.isIdle then
    match image with
    | [] => s.refuse .missingOrigin
    | origin :: words =>
      if origin.high = originOpcode then
        match ({} : Memory).load (Word.ofByte origin.low) words with
        | .error error => s.refuse (.memory error)
        | .ok memory =>
          let cpu : Cpu := { memory, registers := { pc := Word.ofByte origin.low } }
          ⟨.ok (), { s with cpu }, [.loaded words.length origin.low]⟩
      else s.refuse .missingOrigin
  else s.refuse .busy

/-- Writes a register. -/
def setRegister (s : Sequencer) (register : Register) (word : Word) : Reply Unit Sequencer :=
  if s.isIdle then ⟨.ok (), { s with cpu := s.cpu.put register word }, []⟩ else s.refuse .busy

/-- Writes a word of memory. -/
def poke (s : Sequencer) (address word : Word) : Reply Unit Sequencer :=
  if s.isIdle then
    match s.cpu.memory.write address word with
    | .ok memory => ⟨.ok (), { s with cpu := { s.cpu with memory } }, []⟩
    | .error error => s.refuse (.memory error)
  else s.refuse .busy

/-- Makes an instruction current, as if it had just been decoded. -/
def setCurrent (s : Sequencer) (id : Byte) : Reply Unit Sequencer :=
  if s.isIdle then
    match s.table.lookup id with
    | some instruction =>
      ⟨.ok (), { s with cpu := { s.cpu with current := some instruction } }, []⟩
    | none => s.refuse (.invalidInstruction id)
  else s.refuse .busy

/-! ### Phases, step by step -/

/-- Begins a phase with a micro-program: what is queued and what is restored are replaced, whatever
they were. -/
def begin (s : Sequencer) (stage : Stage) (program : List MicroOp) : Reply Unit Sequencer :=
  if s.isIdle then
    ⟨.ok (), { s with snapshot := some s.cpu, queue := program, stage := some stage },
      [.began stage]⟩
  else s.refuse .busy

/-- Begins to fetch. -/
def beginFetch (s : Sequencer) : Reply Unit Sequencer := s.begin .fetching MicroOp.fetch

/-- Begins to decode. -/
def beginDecode (s : Sequencer) : Reply Unit Sequencer := s.begin .decoding MicroOp.decode

/-- Begins to execute the current instruction; answers whether there is one. -/
def beginExecute (s : Sequencer) : Reply Bool Sequencer :=
  if s.isIdle then
    match s.cpu.current with
    | none => ⟨.ok false, s, [.nothingDecoded]⟩
    | some instruction =>
      match Operation.decode? instruction.id with
      | none => s.refuse (.invalidInstruction instruction.id)
      | some op => (s.begin .executing op.microProgram).andThen fun _ s => ⟨.ok true, s, []⟩
  else s.refuse .busy

/-- Ends a phase whose queue ran empty. The queue itself is not touched. -/
def close (s : Sequencer) : Sequencer := { s with snapshot := none, stage := none }

/-- Performs the next micro-instruction in the queue, whether or not a phase is under way; answers
whether one still is. If it fails, the snapshot is put back, where there is one. -/
def step (s : Sequencer) : Reply Bool Sequencer :=
  match s.queue with
  | [] => ⟨.ok false, s.close, []⟩
  | op :: rest =>
    match op.apply s.table s.cpu with
    | .error fault =>
      ⟨.error fault,
        { s with cpu := s.snapshot.getD s.cpu, snapshot := none, queue := [], stage := none },
        [.attempted op, .rolledBack op s.stage]⟩
    | .ok cpu =>
      let queue := if op.passes s.cpu then rest else []
      let after : Sequencer := { s with cpu, queue }
      if queue.isEmpty then ⟨.ok false, after.close, [.attempted op]⟩
      else ⟨.ok true, after, [.attempted op]⟩

/-! ### Whole phases -/

/-- Steps until a step answers that no phase is under way, at most `bound` times. -/
def stepsWithin : (bound : Nat) → Sequencer → Reply Unit Sequencer
  | 0, s => ⟨.ok (), s, []⟩
  | bound + 1, s => s.step.andThen fun more s =>
    if more then stepsWithin bound s else ⟨.ok (), s, []⟩

/-- Steps until the phase is over. A step shortens the queue, so one more step than it is long is
enough. -/
def finish (s : Sequencer) : Reply Unit Sequencer := stepsWithin (s.queue.length + 1) s

/-- Reads the next instruction word. -/
def fetch (s : Sequencer) : Reply Unit Sequencer := s.beginFetch.andThen fun _ s => s.finish

/-- Makes the instruction of the word read the current one. -/
def decode (s : Sequencer) : Reply Unit Sequencer := s.beginDecode.andThen fun _ s => s.finish

/-- Carries out the current instruction, if there is one. -/
def execute (s : Sequencer) : Reply Unit Sequencer :=
  s.beginExecute.andThen fun begun s => if begun then s.finish else ⟨.ok (), s, []⟩

/-- Fetches, decodes and executes one instruction. -/
def cycle (s : Sequencer) : Reply Unit Sequencer :=
  s.fetch.andThen fun _ s => s.decode.andThen fun _ s => s.execute

/-- Joins both general purpose registers through a circuit, also one that no instruction
selects. -/
def operate (s : Sequencer) (circuit : Circuit) : Reply Unit Sequencer :=
  (s.begin .executing (MicroOp.operate circuit)).andThen fun _ s => s.finish

/-! ### Runs -/

/-- The rest of a run of which `done` cycles are complete and `remaining` are allowed, when it
has logged `log` so far. -/
def runFrom (c : Cancellation) :
    (remaining done : Nat) → Array Event → Sequencer → Reply RunOutcome Sequencer
  | remaining, done, log, s =>
    if s.halted then ⟨.ok (.halted done), s, log.toList⟩
    else if c.requested log.size then ⟨.ok (.cancelled done), s, log.toList⟩
    else match remaining with
      | 0 => ⟨.ok (.limitReached done), s, log.toList⟩
      | remaining + 1 =>
        let r := s.cycle
        let log := log.appendList r.log
        match r.answer with
        | .error fault => ⟨.error fault, r.engine, log.toList⟩
        | .ok () => runFrom c remaining (done + 1) log r.engine

/-- Cycles until the machine halts, the run is cancelled, or `limit` cycles are done. -/
def run (s : Sequencer) (limit : Nat) (c : Cancellation) : Reply RunOutcome Sequencer :=
  if s.isIdle then runFrom c limit 0 #[] s else s.refuse .busy

end Sequencer

/-! ### The two forms of an engine -/

/-- The fields that an engine has for its phase. -/
def Engine.spread (e : Engine) : Sequencer where
  table := e.table
  cpu := e.cpu
  stage := e.phase.map (·.stage)
  queue := (e.phase.map (·.pending)).getD []
  snapshot := e.phase.map (·.start)

/-- The engine with these fields, as far as they make up a phase. -/
def Sequencer.gather (s : Sequencer) : Engine where
  table := s.table
  cpu := s.cpu
  phase := s.stage.bind fun stage => s.snapshot.map fun start => ⟨stage, s.queue, start⟩

end TeachingCpu
