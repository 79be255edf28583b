import TeachingCpu.Text.Numeral
/-!
# TeachingCpu.CommandLine.Grammar

The **grammar** of the command line: what a command takes, and how its words are matched.

Design points:

* A command is data (`CommandSpec`): positional arguments and options. One matcher and one help
  text serve all of them.
* An option is written by its letter or its name. Letters without a value may be run together,
  and a value may be attached (`-l5`, `-l=5`, `--limit=5`) or be the next word, but a word that
  itself looks like an option is never taken for a value.
* Every option may be given once. After `--` all words are positional.
* Asking for help ends the matching at once; of two faults, or of a fault and a call for help,
  the first one counts.
-/

set_option autoImplicit false

namespace TeachingCpu

/-- What the value of an option or argument has to be. -/
inductive ValueKind
  /-- The path of a file, which is not empty. -/
  | path
  /-- Any text. -/
  | text
  /-- A count of at most 64 bits. -/
  | count
deriving DecidableEq, Repr

namespace ValueKind

/-- The number that a count writes. -/
def count? (t : Text) : Option Nat := (Numeral.readSigned? 10 t).filter (· < 0x10000000000000000)

/-- Whether a text is a value of a kind. -/
def accepts : ValueKind → Text → Bool
  | .path, t => !t.isEmpty
  | .text, _ => true
  | .count, t => (count? t).isSome

end ValueKind

/-- An option of a command. -/
structure OptionSpec where
  name : String
  /-- The letter by which the option can be given as well. -/
  letter : Option Char := none
  /-- The kind of its value, if it takes one. -/
  value : Option ValueKind := none
  about : String
deriving Repr

/-- A positional argument of a command, which is the path of a file. -/
structure ArgumentSpec where
  name : String
  required : Bool := true
  about : String
deriving Repr

/-- A command of the program. -/
structure CommandSpec where
  name : String
  about : String
  arguments : List ArgumentSpec := []
  options : List OptionSpec := []
deriving Repr

/-- Why words are not matched. -/
inductive Unmatched
  /-- Help was asked for. -/
  | help
  /-- The version was asked for. -/
  | version
  /-- The words do not fit the grammar. -/
  | misuse
deriving DecidableEq, Repr

/-- The words matched with a command. -/
structure Matches where
  /-- The positional arguments, in order. -/
  arguments : List Text := []
  /-- The options given, with their values; an option without a value has an empty one. -/
  options : List (String × Text) := []
deriving DecidableEq, Repr

namespace Matches

/-- Whether an option was given. -/
def has (m : Matches) (name : String) : Bool := m.options.any (·.1 == name)

/-- The value with which an option was given. -/
def value? (m : Matches) (name : String) : Option Text := m.options.lookup name

end Matches

namespace CommandSpec

/-- The option with a name. -/
def optionNamed? (spec : CommandSpec) (name : Text) : Option OptionSpec :=
  spec.options.find? (·.name.toList == name)

/-- The option with a letter. -/
def optionLettered? (spec : CommandSpec) (letter : Char) : Option OptionSpec :=
  spec.options.find? (·.letter == some letter)

/-- Adds an option with its value. -/
def give (m : Matches) (option : OptionSpec) (value : Text) : Except Unmatched Matches :=
  let fits := match option.value with
    | some kind => kind.accepts value
    | none => value.isEmpty
  if fits && !m.has option.name then .ok { m with options := m.options ++ [(option.name, value)] }
  else .error .misuse

/-- Adds a positional argument. -/
def place (spec : CommandSpec) (m : Matches) (value : Text) : Except Unmatched Matches :=
  if m.arguments.length < spec.arguments.length && ValueKind.path.accepts value then
    .ok { m with arguments := m.arguments ++ [value] }
  else .error .misuse

/-- Adds positional arguments. -/
def placeAll (spec : CommandSpec) : Matches → List Text → Except Unmatched Matches
  | m, [] => .ok m
  | m, value :: rest => do placeAll spec (← spec.place m value) rest

/-- Matches a word of letters. If the last of them is an option whose value is not attached, that
option is answered as well. -/
def letters (spec : CommandSpec) : Matches → Text →
    Except Unmatched (Matches × Option OptionSpec)
  | m, [] => .ok (m, none)
  | m, c :: rest =>
    match spec.optionLettered? c with
    | none => .error (if c = 'h' then .help else .misuse)
    | some option =>
      if option.value.isNone then do letters spec (← give m option []) rest
      else match rest with
        | [] => .ok (m, some option)
        | '=' :: value => do return (← give m option value, none)
        | value => do return (← give m option value, none)

/-- Matches the name of an option with the value attached to it, if there is one. If a value is
missing, the option is answered as well. -/
def named (spec : CommandSpec) (m : Matches) (name : Text) (attached : Option Text) :
    Except Unmatched (Matches × Option OptionSpec) :=
  match spec.optionNamed? name, attached with
  | none, none => .error (if name = "help".toList then .help else .misuse)
  | none, some _ => .error .misuse
  | some option, some value =>
    if option.value.isNone then .error .misuse else do return (← give m option value, none)
  | some option, none =>
    if option.value.isNone then do return (← give m option [], none)
    else .ok (m, some option)

/-- Whether a word looks like an option. -/
def looksLikeOption : Text → Bool
  | '-' :: _ :: _ => true
  | _ => false

/-- The name in a word after two dashes, and the value attached to it. -/
def splitName (t : Text) : Text × Option Text :=
  match t.dropWhile (· ≠ '=') with
  | _ :: value => (t.takeWhile (· ≠ '='), some value)
  | [] => (t, none)

/-- Matches a word that looks like an option. -/
def option (spec : CommandSpec) (m : Matches) : Text →
    Except Unmatched (Matches × Option OptionSpec)
  | '-' :: '-' :: rest =>
    let (name, attached) := splitName rest
    spec.named m name attached
  | word => spec.letters m word.tail

/-- Matches the words after a command, `m` being matched already. -/
def matchFrom (spec : CommandSpec) : Matches → List Text → Except Unmatched Matches
  | m, [] => .ok m
  | m, word :: rest =>
    if word = ['-', '-'] then spec.placeAll m rest
    else if looksLikeOption word then
      match spec.option m word with
      | .error e => .error e
      | .ok (m, none) => matchFrom spec m rest
      | .ok (m, some option) =>
        match rest with
        | [] => .error .misuse
        | value :: rest =>
          if looksLikeOption value then .error .misuse
          else match give m option value with
            | .error e => .error e
            | .ok m => matchFrom spec m rest
    else
      match spec.place m word with
      | .error e => .error e
      | .ok m => matchFrom spec m rest

/-- Matches the words after a command, all required arguments included. -/
def matchWords (spec : CommandSpec) (words : List Text) : Except Unmatched Matches := do
  let m ← spec.matchFrom {} words
  if m.arguments.length < spec.arguments.countP (·.required) then .error .misuse else .ok m

/-! ### Help -/

/-- Two columns, the first as wide as its widest entry, of lines that are indented. -/
def columns (rows : List (String × String)) : List String :=
  let width := (rows.map (·.1.length)).foldl max 0
  rows.map fun (left, right) =>
    s!"  {String.ofList (Text.padRight width left.toList)}  {right}"

/-- How an argument is written in a usage line. -/
def argumentText (a : ArgumentSpec) : String :=
  if a.required then s!"<{a.name.toUpper}>" else s!"[{a.name.toUpper}]"

/-- How an option is written in a list of options. -/
def optionText (o : OptionSpec) : String :=
  let letter := match o.letter with
    | some c => s!"-{c}, "
    | none => "    "
  let value := if o.value.isSome then s!" <{o.name.toUpper}>" else ""
  s!"{letter}--{o.name}{value}"

/-- The option that asks for help. -/
def helpOption : OptionSpec := { name := "help", letter := some 'h', about := "Print help" }

/-- The lines that explain how a command is used. -/
def helpLines (spec : CommandSpec) : List String :=
  let options := if spec.options.isEmpty then "" else " [OPTIONS]"
  let arguments := String.join (spec.arguments.map fun a => " " ++ argumentText a)
  [spec.about, "", s!"Usage: mcpu {spec.name}{options}{arguments}", ""] ++
  (if spec.arguments.isEmpty then [] else
    "Arguments:" :: columns (spec.arguments.map fun a => (argumentText a, a.about)) ++ [""]) ++
  "Options:" :: columns ((spec.options ++ [helpOption]).map fun o => (optionText o, o.about))

end CommandSpec

end TeachingCpu
