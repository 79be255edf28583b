import TeachingCpu.CommandLine
/-!
# TeachingCpu.Main

The program as it is started: the command line on the real surroundings.
-/

set_option autoImplicit false

namespace TeachingCpu

/-- The file error that an error of the system is. The system tells some errors apart only by
their numbers, which it gives with either sign. -/
def FileError.ofSystem : IO.Error → FileError
  | .noFileOrDirectory _ _ _ => .notFound
  | .permissionDenied _ _ _ => .permissionDenied
  | .inappropriateType _ code _ =>
    if code = 21 ∨ code = 0 - 21 then .isDirectory else .notDirectory
  | e@(.invalidArgument _ code _) =>
    if code = 36 ∨ code = 0 - 36 then .nameTooLong else .other (toString e)
  | e => .other (toString e)

/-- The real surroundings. -/
def Host.system : Host IO where
  readFile path := do
    try return .ok (← IO.FS.readBinFile (String.ofList path))
    catch e => return .error (.ofSystem e)
  writeFile path text := do
    try
      IO.FS.writeFile (String.ofList path) (String.ofList text)
      return .ok ()
    catch e => return .error (.ofSystem e)
  readInput := do
    let stdin ← IO.getStdin
    return (← stdin.readToEnd).toList
  output text := IO.print text
  errors text := IO.eprint text

end TeachingCpu

open TeachingCpu in
/-- Carries out what the command line asks for. The settings are read from the environment first,
and kept in a cell for whatever asks for them. -/
def main (args : List String) : IO UInt32 := do
  let lookup (name : String) := return (← IO.getEnv name).map String.toList
  let cell := ({} : Settings.Cell).fill
    (.ofVariables (← lookup Settings.traceVariable) (← lookup Settings.isaVariable))
  match cell.bind Settings.Cell.get with
  | .ok settings => CommandLine.run Host.system settings (args.map String.toList)
  | .error error => throw (IO.userError error.message)
