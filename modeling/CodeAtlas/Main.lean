import CodeAtlas.Agenda.Run
import CodeAtlas.Command
import CodeAtlas.Offline
import CodeAtlas.Settings.Variables

namespace CodeAtlas

/-- The variables of the process, as far as they are known to have a say. -/
def Environment.ofProcess : IO Environment := do
  let found ← known.filterMapM fun name => return (← IO.getEnv name).map fun value => (name, value)
  return ⟨found⟩

/-- What stands at a path of the file system. -/
def FileContent.ofPath (path : String) : IO (Except Fault FileContent) := do
  try
    let content ← IO.FS.readBinFile path
    return .ok (.bytes (content.toList.map UInt8.toNat))
  catch
    | .noFileOrDirectory .. => return .ok .missing
    | .inappropriateType .. => return .ok .directory
    | error => return .error (.foreign .os (some (toString error)))

/-- The files that the arguments name. -/
def Offline.ofArguments (args : List String) : IO Offline := do
  let files ← (Invocation.ofArguments args).config?.toList.mapM fun path =>
    return (path, ← FileContent.ofPath path)
  return ⟨files⟩

/-- How many turns the program may take. -/
def turnLimit : Nat := 100000

/-- Writes down how the program ended. -/
def Ending.write (e : Ending) : IO UInt32 := do
  (← IO.getStdout).putStr e.output
  let errors ← IO.getStderr
  errors.putStr e.errors
  if let some fault := e.escaped then errors.putStrLn fault.message
  return e.exitCode.toUInt32

end CodeAtlas

open CodeAtlas in
def main (args : List String) : IO UInt32 := do
  let env ← Environment.ofProcess
  let files ← Offline.ofArguments args
  let start := Agenda.start default files true
  match (start.run Offline.world turnLimit (Command.run env args)).2 with
  | some (.ok ending) => ending.write
  | some (.error fault) => (Ending.escape fault).write
  | none => (Ending.refusal "The program has no end").write
