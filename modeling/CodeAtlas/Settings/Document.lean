import CodeAtlas.Path
import CodeAtlas.Routine
import CodeAtlas.Text.Utf8
import CodeAtlas.Yaml.Read

namespace CodeAtlas.Settings

/-- The settings that the bytes of a file give. -/
def ofDocument (env : Environment) (path : String) (content : List Nat) : Except Fault Settings := do
  let text := String.ofList (unifyNewlines (decodeUtf8 content))
  let data ← readDocument path text
  ofFile env path data

/-- The settings of a file. A file that is missing counts as an empty one. -/
def load (env : Environment) (path : String) : Routine Settings := do
  match ← Routine.query (.contentAt path) with
  | .missing => ofEnvironment env
  | .directory => Routine.fail (.foreign .os (some ("[Errno 21] Is a directory: " ++ quoted (Path.normal path))))
  | .bytes content => ofDocument env (Path.normal path) content

end CodeAtlas.Settings
