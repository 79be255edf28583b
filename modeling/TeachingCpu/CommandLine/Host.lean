import TeachingCpu.CommandLine.FileTree
/-!
# TeachingCpu.CommandLine.Host

The **surroundings** of the program: files and the standard streams.

What the program does to its surroundings is written against a `Host` over any monad. The command
line hands it the real ones; a `World` is a host held in memory, in which a run of the program is
a function.
-/

set_option autoImplicit false

namespace TeachingCpu

/-- What the program can do to its surroundings. -/
structure Host (m : Type → Type) where
  /-- The bytes of a file. -/
  readFile : Path → m (Except FileError ByteArray)
  /-- Makes a text the contents of a file. -/
  writeFile : Path → Text → m (Except FileError Unit)
  /-- Everything on standard input. -/
  readInput : m Text
  /-- Writes to standard output. -/
  output : String → m Unit
  /-- Writes to standard error. -/
  errors : String → m Unit

/-- Surroundings held in memory. -/
structure World where
  files : FileTree := []
  input : Text := []
  output : String := ""
  errors : String := ""

/-- The host that a world is. -/
def World.host : Host (StateM World) where
  readFile path := do return (← get).files.read path
  writeFile path text := do
    match (← get).files.write path (String.ofList text).toUTF8 with
    | .ok files =>
      modify fun w => { w with files }
      return .ok ()
    | .error e => return .error e
  readInput := do return (← get).input
  output text := modify fun w => { w with output := w.output ++ text }
  errors text := modify fun w => { w with errors := w.errors ++ text }

end TeachingCpu
