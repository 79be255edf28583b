import TeachingCpu.CommandLine.Grammar
import TeachingCpu.CommandLine.Path
/-!
# TeachingCpu.CommandLine.Task

**Tasks**: what the program can be asked to do, and how the command line asks for it.

The first word that names a command decides; a path before it is allowed and does not count. A
path alone runs that file, and no words at all ask for nothing in particular.
-/

set_option autoImplicit false

namespace TeachingCpu

/-- A file to put into a machine, and how to run it. -/
structure RunOptions where
  name : Path
  /-- Show entries of the log without decoration. -/
  minimal : Bool := false
  /-- The file of the instruction set. -/
  isa : Option Path := none
  /-- The number of cycles after which a run is stopped. -/
  limit : Option Nat := none
deriving DecidableEq, Repr

/-- What the program is asked to do. -/
inductive Task
  /-- Introduce itself. -/
  | banner
  /-- Run a program until it halts. -/
  | run (options : RunOptions)
  /-- Drive a machine by commands, those of standard input if none are given. -/
  | console (options : RunOptions) (commands : Option Text)
  /-- Assemble a program into a file. -/
  | assemble (name : Path) (dest : Option Path) (minimal : Bool)
  /-- Assemble a program for the sake of its defects. -/
  | check (name : Path) (minimal : Bool)
  /-- List the instruction set. -/
  | isa (path : Option Path)
deriving DecidableEq, Repr

namespace Task

/-- The option for output that machines compare. -/
def minimalOption : OptionSpec where
  name := "minimal"
  letter := some 'm'
  about := "Produce minimal output, suited for blackbox tests"

/-- The option for the instruction set. -/
def isaOption (about : String) : OptionSpec where
  name := "isa"
  value := some .path
  about := about

/-- The option for the number of cycles. -/
def limitOption (about : String) : OptionSpec where
  name := "limit"
  letter := some 'l'
  value := some .count
  about := about

/-- The command that runs a program. -/
def runSpec : CommandSpec where
  name := "run"
  about := "Run text `.asm` or assembled `.hex` file until it halts"
  arguments := [{ name := "name", about := "`.asm` or `.hex` file to run" }]
  options := [minimalOption, isaOption "Instruction set to decode with, as JSON",
    limitOption "Stop after this many instruction cycles"]

/-- The command that drives a machine by commands. -/
def consoleSpec : CommandSpec where
  name := "console"
  about := "Load a file and drive the CPU with console commands"
  arguments := [{ name := "name", about := "`.asm` or `.hex` file to load" }]
  options := [
    { name := "command", letter := some 'c', value := some .text,
      about := "Read console commands from argument" },
    minimalOption, isaOption "Instruction set to decode with, as JSON",
    limitOption "Stop `run` after this many instruction cycles"]

/-- The command that assembles a program into a file. -/
def assembleSpec : CommandSpec where
  name := "assemble"
  about := "Create `.hex` file to run later or view assembled words"
  arguments := [{ name := "name", about := "`.asm` file to assemble" },
    { name := "dest", required := false, about := "Destination to output .hex file" }]
  options := [minimalOption]

/-- The command that looks for defects. -/
def checkSpec : CommandSpec where
  name := "check"
  about := "Check a `.asm` file without running or outputting words"
  arguments := [{ name := "name", about := "File to check" }]
  options := [minimalOption]

/-- The command that lists the instruction set. -/
def isaSpec : CommandSpec where
  name := "isa"
  about := "List every instruction of the instruction set"
  options := [isaOption "Instruction set to list instead of the built-in one"]

/-- Every command. -/
def specs : List CommandSpec := [runSpec, consoleSpec, assembleSpec, checkSpec, isaSpec]

/-- The command with a name. -/
def specNamed? (name : Text) : Option CommandSpec := specs.find? (·.name.toList == name)

/-- The options for running a file that were matched. -/
def runOptions (name : Path) (m : Matches) : RunOptions where
  name := name
  minimal := m.has "minimal"
  isa := m.value? "isa"
  limit := (m.value? "limit").bind ValueKind.count?

/-- The task that matched words ask of a command. -/
def ofMatches (spec : CommandSpec) (m : Matches) : Option Task :=
  let minimal := m.has "minimal"
  match spec.name, m.arguments with
  | "run", [name] => some (.run (runOptions name m))
  | "console", [name] => some (.console (runOptions name m) (m.value? "command"))
  | "assemble", [name] => some (.assemble name none minimal)
  | "assemble", [name, dest] => some (.assemble name (some dest) minimal)
  | "check", [name] => some (.check name minimal)
  | "isa", [] => some (.isa (m.value? "isa"))
  | _, _ => none

/-- Why there is no task: help was asked for, on one command or all of them, or the version, or
the words do not fit. -/
inductive Refusal
  | help (command : Option CommandSpec)
  | version
  | misuse
deriving Repr

/-- The task that words ask of a command. -/
def ofCommand (spec : CommandSpec) (words : List Text) : Except Refusal Task :=
  match spec.matchWords words with
  | .error .help => .error (.help (some spec))
  | .error .version => .error .version
  | .error .misuse => .error .misuse
  | .ok m =>
    match ofMatches spec m with
    | some task => .ok task
    | none => .error .misuse

/-- The help that the words after `help` ask for. -/
def helpOn : List Text → Refusal
  | [] => .help none
  | [name] =>
    if name = "help".toList then .help none
    else match specNamed? name with
      | some spec => .help (some spec)
      | none => .misuse
  | _ => .misuse

/-- The answer to a word that looks like an option before any command. -/
def globalOption (word : Text) : Refusal :=
  if word = "--help".toList then .help none
  else if word = "--version".toList then .version
  else match word with
    | ['-', '-'] => .misuse
    | '-' :: 'h' :: _ => .help none
    | '-' :: 'V' :: _ => .version
    | _ => .misuse

/-- The task of words without a command. -/
def ofPath : Option Path → List Text → Except Refusal Task
  | none, [] => .ok .banner
  | some path, [] => .ok (.run { name := path })
  | none, [path] => if path.isEmpty then .error .misuse else .ok (.run { name := path })
  | _, _ => .error .misuse

/-- The task that words ask for after a path, if one was given. -/
def ofWordsAfter : Option Path → List Text → Except Refusal Task
  | path, [] => ofPath path []
  | path, word :: rest =>
    match specNamed? word with
    | some spec => ofCommand spec rest
    | none =>
      if word = "help".toList then .error (helpOn rest)
      else if word = ['-', '-'] then ofPath path rest
      else if CommandSpec.looksLikeOption word then .error (globalOption word)
      else if path.isSome || word.isEmpty then .error .misuse
      else ofWordsAfter (some word) rest

/-- The task that the words of a command line ask for. -/
def ofWords (words : List Text) : Except Refusal Task := ofWordsAfter none words

/-- The lines that explain how the program is used. -/
def helpLines : List String :=
  ["mcpu assembles and runs programs for a small 16-bit teaching CPU, one micro-instruction at " ++
    "a time", "", "Usage: mcpu [PATH] [COMMAND]", "", "Commands:"] ++
  CommandSpec.columns ((specs.map fun s => (s.name, s.about)) ++
    [("help", "Print this message or the help of the given subcommand(s)")]) ++
  ["", "Arguments:", "  [PATH]  Quickly provide a `.asm` file to run", "", "Options:",
   "  -h, --help     Print help", "  -V, --version  Print version"]

end Task

end TeachingCpu
