import TeachingCpu.CommandLine.Host
import TeachingCpu.CommandLine.Task
import TeachingCpu.Console.Pieces
import TeachingCpu.Console.Session
import TeachingCpu.InstructionSet.BuiltIn
import TeachingCpu.InstructionSet.Document
import TeachingCpu.Log.Terminal
import TeachingCpu.Program
import TeachingCpu.Report
import TeachingCpu.Settings
/-!
# TeachingCpu.CommandLine

The **command line**: carries out a task on a host.

Progress goes to standard output, the log to standard error. A task that fails ends with a report
on standard error and the exit code 1; words that ask for no task end with the exit code 2 before
anything is done.
-/

set_option autoImplicit false

namespace TeachingCpu

namespace CommandLine

variable {m : Type → Type} [Monad m]

/-- Part of a task, which fails with a report. -/
abbrev Work (m : Type → Type) := ExceptT Report m

/-- Writes a line to standard output. -/
def say (host : Host m) (line : String) : Work m Unit := host.output (line ++ "\n")

/-- Writes lines to standard output. -/
def sayAll (host : Host m) (lines : List String) : Work m Unit := lines.forM (say host)

/-- Writes what is going on to standard output, after a word in a column of twelve. -/
def progress (host : Host m) (word message : String) : Work m Unit :=
  say host (String.ofList (Text.padLeft 12 ' ' word.toList) ++ " " ++ message)

/-- Writes that something is done to a file. -/
def target (host : Host m) (word : String) (path : Path) : Work m Unit :=
  progress host word ("target " ++ String.ofList path)

/-- Writes the log to standard error. -/
def showLog (host : Host m) (minimal : Bool) (trace : TraceLevel) (log : List Entry) : Work m Unit :=
  (Entry.lines minimal trace log).forM fun line => host.errors (line ++ "\n")

/-- Gives up for a reason without a code. -/
def giveUp {α : Type} (message : String) : Work m α := throw { message }

/-- The text of bytes. -/
def textOf (bytes : ByteArray) : Except FileError Text :=
  match String.fromUTF8? bytes with
  | some s => .ok s.toList
  | none => .error .notText

/-- The text of a file; a failure is told after `lead`. -/
def readText (host : Host m) (lead : String) (path : Path) : Work m Text := do
  let bytes ← (host.readFile path : m (Except FileError ByteArray))
  match bytes.bind textOf with
  | .ok text => return text
  | .error e => giveUp (lead ++ e.message)

/-- Assembles a file and reports every defect. Minimal output has a line for each; otherwise each
has a report of its own. -/
def assembleFile (host : Host m) (name : Path) (minimal : Bool) : Work m Program := do
  let source ← readText host "" name
  let (program, assembly) := (Program.ofSource (String.ofList name) source).assemble
  if minimal then showLog host true .off assembly.log
  else assembly.diagnostics.forM fun d => host.errors (Report.ofDiagnostic d).drawing
  if assembly.assembled then return program
  else throw (.assemblyFailed assembly.diagnostics.length)

/-- The program in a file, by the extension of its name. -/
def loadFile (host : Host m) (name : Path) (minimal : Bool) : Work m Program := do
  match (Path.extension? name).map String.ofList with
  | some "hex" =>
    target host "Loading" name
    match Program.ofImage (String.ofList name) (← readText host "" name) with
    | .ok program => return program
    | .error e => giveUp e.message
  | some "asm" =>
    target host "Assembling" name
    assembleFile host name minimal
  | some _ => giveUp "File has unknown extension. Exiting..."
  | none => giveUp "File has no extension. Exiting..."

/-- The instruction set in a file, or the built-in one. -/
def instructionSet (host : Host m) (settings : Settings) (path : Option Path) :
    Work m InstructionSet := do
  match path.or settings.isa with
  | none => return .builtIn
  | some path =>
    match InstructionSet.ofDocument (← readText host "Could not read instruction set: " path) with
    | .ok table => return table
    | .error e => giveUp e.message

/-- A machine with the program in a file. -/
def prepare (host : Host m) (settings : Settings) (options : RunOptions) : Work m Engine := do
  let program ← loadFile host options.name options.minimal
  let table ← instructionSet host settings options.isa
  let reply := ({ table } : Engine).load program.data
  showLog host options.minimal settings.trace (reply.log.map Event.entry)
  match reply.answer with
  | .ok () => return reply.engine
  | .error fault => throw (.ofFault fault)

/-- Runs a machine and shows its registers. -/
def runMachine (host : Host m) (settings : Settings) (options : RunOptions) (engine : Engine) :
    Work m Unit := do
  progress host "Running" "loaded words"
  let reply := engine.run (options.limit.getD Engine.unlimited) .never
  showLog host options.minimal settings.trace (reply.log.map Event.entry)
  match reply.answer with
  | .error fault => throw (.ofFault fault)
  | .ok outcome =>
    sayAll host (Display.registers reply.engine)
    say host (Display.flags reply.engine)
    match outcome with
    | .halted cycles => progress host "Completed" s!"halted after {cycles} cycles"
    | .cancelled cycles => progress host "Stopped" s!"cancelled after {cycles} cycles"
    | .limitReached cycles => giveUp s!"Program did not halt within {cycles} cycles"

/-- Drives a machine by commands. -/
def driveMachine (host : Host m) (settings : Settings) (options : RunOptions)
    (commands : Option Text) (engine : Engine) : Work m Unit := do
  progress host "Console" "type `help` for a list of commands"
  let pieces ← match commands with
    | some commands => pure (ArgumentReader.pieces commands)
    | none => PipeReader.pieces <$> (host.readInput : m Text)
  let turn := Session.run (options.limit.getD Engine.unlimited) pieces engine
  showLog host options.minimal settings.trace turn.log
  target host "Completed" options.name

/-- Assembles a file into another. -/
def assembleInto (host : Host m) (name : Path) (dest : Option Path) (minimal : Bool) :
    Work m Unit := do
  target host "Assembling" name
  let program ← assembleFile host name minimal
  let dest := dest.getD (Path.withExtension name "hex".toList)
  match ← (host.writeFile dest program.image : m (Except FileError Unit)) with
  | .error e => giveUp e.message
  | .ok () =>
    progress host "Finished" "emit words"
    target host "Saved" dest

/-- The version of the program. -/
def version : String := "0.1.0"

/-- The lines by which the program introduces itself. -/
def bannerLines : List String :=
  ["", s!"~ mcpu v{version} ~", "",
   "  _ __ ___   ___ _ __  _   _",
   " | '_ ` _ \\ / __| '_ \\| | | |",
   " | | | | | | (__| |_) | |_| |",
   " |_| |_| |_|\\___| .__/ \\__,_|",
   "                |_|          ", "",
   "Welcome to mcpu, an assembler and micro-instruction simulator",
   "for a small 16-bit teaching CPU.",
   "Please use `-h` or `--help` to access the usage instructions and documentation.", ""]

/-- Carries out a task. -/
def perform (host : Host m) (settings : Settings) : Task → Work m Unit
  | .banner => sayAll host bannerLines
  | .run options => do runMachine host settings options (← prepare host settings options)
  | .console options commands => do
    driveMachine host settings options commands (← prepare host settings options)
  | .assemble name dest minimal => assembleInto host name dest minimal
  | .check name minimal => do
    target host "Checking" name
    let _ ← assembleFile host name minimal
    progress host "Success" "no errors found!"
  | .isa path => do
    let table ← instructionSet host settings path
    sayAll host (table.entries.map (·.line))

/-- Explains why there is no task; answers the exit code. -/
def explain (host : Host m) : Task.Refusal → m UInt32
  | .help none => do
    Task.helpLines.forM fun line => host.output (line ++ "\n")
    return 0
  | .help (some spec) => do
    spec.helpLines.forM fun line => host.output (line ++ "\n")
    return 0
  | .version => do
    host.output s!"mcpu {version}\n"
    return 0
  | .misuse => do
    host.errors "error: the arguments do not fit\n\nFor more information, try '--help'.\n"
    return 2

/-- Does what the words of a command line ask for; answers the exit code. -/
def run (host : Host m) (settings : Settings) (words : List Text) : m UInt32 := do
  match Task.ofWords words with
  | .error refusal => explain host refusal
  | .ok task =>
    match ← (perform host settings task).run with
    | .ok () => return 0
    | .error report =>
      host.errors report.drawing
      return 1

end CommandLine

end TeachingCpu
