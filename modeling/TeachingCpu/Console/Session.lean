import TeachingCpu.Console.Command
import TeachingCpu.Console.Display
import TeachingCpu.Console.Help
import TeachingCpu.Machine.Run
/-!
# TeachingCpu.Console.Session

A console **session**: commands carried out one after the other on an engine.

A command takes an engine to an engine and a log (`Turn`), its failure included: an error is the
last entry of the command that fails, and the session goes on. Every line is echoed before what
it reports; a blank piece of input does nothing at all, and `quit` ends the session.
-/

set_option autoImplicit false

namespace TeachingCpu

/-- What a command, or a session, makes of an engine. -/
structure Turn where
  engine : Engine
  /-- What was reported, in order. -/
  log : List Entry := []
deriving DecidableEq

/-- What a reply reports: its events, then the fault, or what `success` adds. -/
def Reply.turn {α : Type} (r : Reply α) (success : α → Engine → List Entry) : Turn :=
  let events := r.log.map Event.entry
  match r.answer with
  | .ok a => ⟨r.engine, events ++ success a r.engine⟩
  | .error fault => ⟨r.engine, events ++ [⟨.error, fault.message⟩]⟩

/-- The rest of a number of cycles of which `remaining` are to come, when `log` was logged so
far; answers whether the machine halted before they were done. -/
def Engine.cyclesFrom : (remaining : Nat) → Array Event → Engine → Reply Bool
  | 0, log, e => ⟨.ok false, e, log.toList⟩
  | remaining + 1, log, e =>
    if e.halted then ⟨.ok true, e, log.toList⟩
    else
      let r := e.cycle
      let log := log.appendList r.log
      match r.answer with
      | .error fault => ⟨.error fault, r.engine, log.toList⟩
      | .ok () => cyclesFrom remaining log r.engine

/-- Performs a number of cycles, fewer if the machine halts. -/
def Engine.cycles (e : Engine) (count : Nat) : Reply Bool := e.cyclesFrom count #[]

/-- The entry that tells how a run ended. -/
def RunOutcome.entry : RunOutcome → Entry
  | .halted cycles => ⟨.info, s!"Halted after {cycles} cycles"⟩
  | .cancelled cycles => ⟨.warning, s!"Cancelled after {cycles} cycles"⟩
  | .limitReached cycles => ⟨.warning, s!"Stopped after reaching the limit of {cycles} cycles"⟩

namespace Session

/-- Entries that show lines of text. -/
def plain (lines : List String) : List Entry := lines.map (⟨.plain, ·⟩)

/-- What a successful fetch reports. -/
def fetched (e : Engine) : Entry :=
  let word := String.ofList e.cpu.registers.mdr.hex
  let address := String.ofList (Numeral.padded 2 e.cpu.registers.mar.toNat)
  ⟨.info, s!"Fetched {word} from 0x{address}"⟩

/-- Words about the current instruction, or others where there is none. -/
def currentInstruction (e : Engine) (lead absent : String) : Entry :=
  match e.cpu.current with
  | some i => ⟨.info, lead ++ i.line⟩
  | none => ⟨.info, absent⟩

/-- What joining both general purpose registers reports. -/
def joined (circuit : Circuit) (e : Engine) : Entry :=
  let result := String.ofList e.cpu.registers.gpa.hex
  ⟨.info, s!"GPA <- GPA {circuit.symbol} GPB = {result}"⟩

/-- Carries out a command; runs stop after `limit` cycles. -/
def perform (limit : Nat) (e : Engine) : Command → Turn
  | .help => ⟨e, plain Command.helpLines⟩
  | .fetch => e.fetch.turn fun _ e => [fetched e]
  | .decode => e.decode.turn fun _ e => [currentInstruction e "Decoded " "Nothing decoded"]
  | .execute => e.execute.turn fun _ _ => []
  | .cycle count => (e.cycles count).turn fun early e =>
    (if early then [⟨.warning, "Program has halted"⟩] else []) ++ [⟨.info, Display.status e⟩]
  | .run => (e.run limit .never).turn fun outcome _ => [outcome.entry]
  | .reset => e.reset.turn fun _ _ => [⟨.info, "Reset"⟩]
  | .registers => ⟨e, plain (Display.registers e)⟩
  | .flags => ⟨e, plain [Display.flags e]⟩
  | .memory address count => ⟨e, plain (Display.memory e address count)⟩
  | .set register value => (e.setRegister register value).turn fun _ _ => []
  | .poke address value => (e.poke (Word.ofByte address) value).turn fun _ _ => []
  | .circuit circuit => (e.operate circuit).turn fun _ e => [joined circuit e]
  | .instruction id => (e.setCurrent id).turn fun _ e =>
    [currentInstruction e "Current instruction is " "No current instruction"]
  | .quit => ⟨e, []⟩

/-- The entry that repeats a line. -/
def echo (line : Text) : Entry := ⟨.plain, "> " ++ String.ofList line⟩

/-- Carries out pieces of input until one says to quit or none is left. -/
def run (limit : Nat) : List Text → Engine → Turn
  | [], e => ⟨e, []⟩
  | piece :: rest, e =>
    let line := Text.trim piece
    if line.isEmpty then run limit rest e
    else match Command.ofLine line with
      | .ok .quit => ⟨e, [echo line]⟩
      | .ok command =>
        let turn := perform limit e command
        let others := run limit rest turn.engine
        ⟨others.engine, echo line :: turn.log ++ others.log⟩
      | .error error =>
        let others := run limit rest e
        ⟨others.engine, echo line :: ⟨.error, error.message⟩ :: others.log⟩

end Session

end TeachingCpu
