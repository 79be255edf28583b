import TeachingCpu.Machine.Alu
import TeachingCpu.Machine.Register
import TeachingCpu.Text.Blank
/-!
# TeachingCpu.Console.Command

The **commands** of the console, and how a line is read as one.

A line is split into words. The first names the command and the others are its arguments, read
from left to right, each by its own reader (`Arguments.required`, `Arguments.optional`). The first
argument that is missing or refused is the error; words that are left over are one only after
every argument was accepted.
-/

set_option autoImplicit false

namespace TeachingCpu

/-- A command of the console. -/
inductive Command
  | help
  | fetch
  | decode
  | execute
  | cycle (count : Nat)
  | run
  | reset
  | registers
  | flags
  | memory (address : Byte) (count : Nat)
  | set (register : Register) (value : Word)
  | poke (address : Byte) (value : Word)
  | circuit (circuit : Circuit)
  | instruction (id : Byte)
  | quit
deriving DecidableEq, Repr

/-- A command without its arguments. -/
inductive CommandName
  | help
  | fetch
  | decode
  | execute
  | cycle
  | run
  | reset
  | registers
  | flags
  | memory
  | set
  | poke
  | circuit
  | instruction
  | quit
deriving DecidableEq, Repr

namespace CommandName

/-- Every command, in the order in which suggestions are looked for. -/
def all : List CommandName :=
  [.help, .fetch, .decode, .execute, .cycle, .run, .reset, .registers, .flags, .memory, .set,
   .poke, .circuit, .instruction, .quit]

/-- The full name of a command. -/
def name : CommandName → String
  | .help => "help"
  | .fetch => "fetch"
  | .decode => "decode"
  | .execute => "execute"
  | .cycle => "cycle"
  | .run => "run"
  | .reset => "reset"
  | .registers => "registers"
  | .flags => "flags"
  | .memory => "memory"
  | .set => "set"
  | .poke => "poke"
  | .circuit => "circuit"
  | .instruction => "instruction"
  | .quit => "quit"

/-- Short forms and synonyms of a command. -/
def aliases : CommandName → List String
  | .help => ["h", "?"]
  | .fetch => ["f"]
  | .decode => ["d"]
  | .execute => ["e", "x"]
  | .cycle => ["c", "step", "s"]
  | .run => ["r", "continue"]
  | .registers => ["regs", "reg"]
  | .flags => ["psr"]
  | .memory => ["mem", "m"]
  | .circuit => ["alu"]
  | .instruction => ["instr", "i"]
  | .quit => ["q", "exit"]
  | .reset | .set | .poke => []

/-- The command that a word names, letter case aside. -/
def ofText? (word : Text) : Option CommandName :=
  all.find? fun c => (c.name :: c.aliases).any fun n => n.toList == word.lower

/-- The number of places at which two texts differ, as far as both go. -/
def differences (s t : Text) : Nat := (s.zip t).countP fun (a, b) => a != b

/-- Whether a name is close to a word in small letters: the word begins it and has two bytes or
more, or is as long in bytes and differs in one character. -/
def isClose (name word : Text) : Bool :=
  (2 ≤ Text.byteLength word && word.isPrefixOf name) ||
  (Text.byteLength name == Text.byteLength word && differences name word == 1)

/-- The command that a word was perhaps meant to name. -/
def suggest (word : Text) : Option CommandName :=
  all.find? fun c => isClose c.name.toList word.lower

end CommandName

/-- Why a line is no command. -/
inductive CommandError
  /-- The first word names none. -/
  | invalidCommand (name : Text) (suggestion : Option CommandName)
  /-- A required argument is absent. -/
  | missingArgument (command : CommandName) (argument : String)
  /-- There are more words than the command takes; they are counted modulo 256. -/
  | tooManyArguments (command : CommandName) (expected actual : Nat)
  /-- A word is no value of its argument. -/
  | invalidValue (command : CommandName) (argument : String) (value : Text)
deriving DecidableEq, Repr

/-- The text of an error in a command. -/
def CommandError.message : CommandError → String
  | .invalidCommand name none => s!"Not a command: `{String.ofList name}`"
  | .invalidCommand name (some c) =>
    s!"Not a command: `{String.ofList name}`. Did you mean `{c.name}`?"
  | .missingArgument c argument => s!"Missing argument `{argument}` for command `{c.name}`"
  | .tooManyArguments c expected actual =>
    let plural := if expected = 1 then "" else "s"
    s!"Command `{c.name}` takes {expected} argument{plural}, but {actual} were given"
  | .invalidValue c argument value =>
    s!"Invalid value `{String.ofList value}` for argument `{argument}` of command `{c.name}`"

/-! ### Values of arguments -/

namespace Argument

/-- The forms in which a hexadecimal number may be announced. -/
def announcements : List String := ["$", "0x", "0X", "x"]

/-- A text without the first announcement that it begins with. -/
def digitsOf (t : Text) : Text :=
  (announcements.findSome? fun a => Text.afterHead? a.toList t).getD t

/-- A word in hexadecimal: up to four bytes after an optional announcement. -/
def word? (t : Text) : Option Word :=
  let digits := digitsOf t
  if Text.byteLength digits ≤ 4 then (Numeral.readSigned? 16 digits).map (BitVec.ofNat 16)
  else none

/-- A byte in hexadecimal. -/
def byte? (t : Text) : Option Byte := (word? t).bind Word.address?

/-- A count in decimal, from 1 to 65535. -/
def count? (t : Text) : Option Nat :=
  (Numeral.readSigned? 10 t).filter fun n => 0 < n ∧ n < 65536

end Argument

/-- The arguments of a command that are still to be read. -/
structure Arguments where
  command : CommandName
  /-- The number of all arguments given. -/
  given : Nat
  words : List Text
deriving DecidableEq, Repr

namespace Arguments

/-- Reads the value of an argument from a word. -/
def value {α : Type} (args : Arguments) (argument : String) (read : Text → Option α)
    (word : Text) : Except CommandError α :=
  match read word with
  | some a => .ok a
  | none => .error (.invalidValue args.command argument word)

/-- Reads an argument that must be given. -/
def required {α : Type} (args : Arguments) (argument : String) (read : Text → Option α) :
    Except CommandError (α × Arguments) :=
  match args.words with
  | [] => .error (.missingArgument args.command argument)
  | word :: words => (args.value argument read word).map fun a => (a, { args with words })

/-- Reads an argument that need not be given. -/
def optional {α : Type} (args : Arguments) (argument : String) (read : Text → Option α)
    (absent : α) : Except CommandError (α × Arguments) :=
  match args.words with
  | [] => .ok (absent, args)
  | word :: words => (args.value argument read word).map fun a => (a, { args with words })

/-- Accepts a command that takes up to `expected` arguments if no words are left over. -/
def finish (args : Arguments) (expected : Nat) (command : Command) :
    Except CommandError Command :=
  if args.words.isEmpty then .ok command
  else .error (.tooManyArguments args.command expected (args.given % 256))

end Arguments

namespace Command

/-- Reads the arguments of a command. -/
def ofArguments (args : Arguments) : Except CommandError Command :=
  match args.command with
  | .help => args.finish 0 .help
  | .fetch => args.finish 0 .fetch
  | .decode => args.finish 0 .decode
  | .execute => args.finish 0 .execute
  | .run => args.finish 0 .run
  | .reset => args.finish 0 .reset
  | .registers => args.finish 0 .registers
  | .flags => args.finish 0 .flags
  | .quit => args.finish 0 .quit
  | .cycle => do
    let (count, args) ← args.optional "count" Argument.count? 1
    args.finish 1 (.cycle count)
  | .memory => do
    let (address, args) ← args.required "address" Argument.byte?
    let (count, args) ← args.optional "count" Argument.count? 1
    args.finish 2 (.memory address count)
  | .set => do
    let (register, args) ← args.required "register" Register.ofName?
    let (value, args) ← args.required "value" Argument.word?
    args.finish 2 (.set register value)
  | .poke => do
    let (address, args) ← args.required "address" Argument.byte?
    let (value, args) ← args.required "value" Argument.word?
    args.finish 2 (.poke address value)
  | .circuit => do
    let (selected, args) ← args.required "circuit" Circuit.ofName?
    args.finish 1 (.circuit selected)
  | .instruction => do
    let (id, args) ← args.required "id" Argument.byte?
    args.finish 1 (.instruction id)

/-- The command in a line. -/
def ofLine (line : Text) : Except CommandError Command :=
  match Text.words line with
  | [] => .error (.invalidCommand [] none)
  | first :: words =>
    match CommandName.ofText? first with
    | some command => ofArguments { command, given := words.length, words }
    | none => .error (.invalidCommand first (CommandName.suggest first))

end Command

end TeachingCpu
