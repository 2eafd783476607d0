import CardSearch.Command.Run
import CardSearch.Bytes

/-!
# The command line

Reads what a command may need, carries it out, writes its log and its answer.
-/

namespace CardSearch.Main

def fault : IO.Error → String
  | .noFileOrDirectory .. => "No such file or directory (os error 2)"
  | .permissionDenied .. => "Permission denied (os error 13)"
  | .inappropriateType _ 21 _ => "Is a directory (os error 21)"
  | .inappropriateType .. => "Not a directory (os error 20)"
  | e => toString e

abbrev ReadFile := String × Except String (List UInt8)

def read (path : String) : IO ReadFile := do
  match ← (IO.FS.readBinFile path).toBaseIO with
  | .ok bytes => return (path, .ok bytes.toList)
  | .error e => return (path, .error (fault e))

def surroundings (files : List ReadFile) (ids : List String) : Surroundings where
  file path := (files.lookup path).getD (.error "not read")
  freshId n := ids.getD n ""

/-- Carries out a command; gives whether it did well. -/
def runCommand (command : Command) : IO Bool := do
  let config ← command.configFile?.toList.mapM read
  let cards ← (command.cardFiles (surroundings config [])).mapM read
  let ids ← (List.range command.idCount).mapM fun _ =>
    return Uuid.ofBytes (← IO.getRandomBytes 16).toList
  let outcome := command.run (surroundings (config ++ cards) ids)
  for entry in LogEntry.filter .info outcome.log do
    if entry.isError then IO.eprint entry.render else IO.print entry.render
  match outcome.answer with
  | .ok answer => IO.println answer.render
  | .error e => IO.eprintln e.message
  return outcome.answer.isOk

end CardSearch.Main

/-- Runs the command of the arguments. What is no command has an exit code of its own. -/
def main (args : List String) : IO UInt32 := do
  match CardSearch.Command.read args with
  | .ok command => return if ← CardSearch.Main.runCommand command then 0 else 1
  | .error .help =>
    IO.println CardSearch.Command.usage
    return 0
  | .error .version =>
    IO.println "cardquery 0.1.0"
    return 0
  | .error reason =>
    IO.eprintln (reason.label ++ "\n" ++ CardSearch.Command.usage)
    return 2
