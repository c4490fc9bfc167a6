import CodeAtlas.Command.Arguments
import CodeAtlas.Facade
import CodeAtlas.Json.Write
import CodeAtlas.Settings.Document

namespace CodeAtlas

/-- How the program ends: its exit code, what it has written, and the fault that it left to its
caller, if any. -/
structure Ending where
  exitCode : Nat
  output : String
  errors : String
  escaped : Option Fault
  deriving Inhabited

namespace Ending

def success (output : String) : Ending := ⟨0, output, "", none⟩

/-- Ends with a message on the error output. -/
def refusal (message : String) : Ending := ⟨1, "", "❌ " ++ message ++ "\n", none⟩

def escape (fault : Fault) : Ending := ⟨1, "", "", some fault⟩

end Ending

namespace Command

/-- The settings that a command works with; no file is read where none is named. -/
def settings (env : Environment) (config : Option String) : Routine Settings :=
  match config with
  | none => Settings.ofEnvironment env
  | some "" => Settings.ofEnvironment env
  | some path => Settings.load env path

/-- Does something with a connected graph, which is closed in any case. -/
def withGraph {α : Type} (env : Environment) (s : Settings) (body : Routine α) : Routine α := do
  Facade.note fun f => { f with settings := s }
  Facade.connect env
  Routine.ensuring body Facade.close

/-- Turns an ordinary fault into a message. -/
def reporting (what : String) (p : Routine Ending) : Routine Ending :=
  Routine.rescue p fun fault => return .refusal (what ++ ": " ++ fault.message)

/-- What is said of an ingestion that has been run. -/
def ingestEnding (s : Status) : Ending :=
  let shown := (Value.record s.fields).indented ++ "\n"
  match s.lastError.filter (!·.isEmpty) with
  | some message => ⟨1, shown, "❌ Ingestion failed: " ++ message ++ "\n", none⟩
  | none =>
    .success (shown ++ (if s.finishedAt.isNone then "⚠️  Nothing ingested (empty AST snapshot)\n"
      else "✅ Ingestion completed\n"))

/-- Runs the ingestion once. -/
def ingest (env : Environment) (config : Option String) : Routine Ending :=
  reporting "Ingestion could not start" do
    let s ← settings env config
    let status ← withGraph env s Facade.runIngestion
    return ingestEnding status

/-- Waits for as long as nobody interrupts the program. -/
def idle : Routine Unit := do
  Routine.query .interruption
  Routine.fail .interrupted

/-- Runs the ingestion again and again until the program is interrupted. -/
def scheduleWith (env : Environment) (s : Settings) : Routine Ending :=
  (withGraph env { s with ingestion := { s.ingestion with scheduled := .bool true } } do
    let _ ← Facade.startScheduler
    let _ ← Facade.runIngestion
    idle).andThen fun
      | .ok _ => return .success ""
      | .error .interrupted => return .success "Scheduler stopped\n"
      | .error fault => return .escape fault

def schedule (env : Environment) (config : Option String) : Routine Ending :=
  (settings env config).andThen fun
    | .ok s => scheduleWith env s
    | .error fault => return .escape fault

/-- The fields of a status report. -/
def reportFields (s : Status) (healthy : Bool) (entities : Nat × Nat) : List (String × Value) :=
  s.fields ++ [("graph_healthy", .bool healthy),
    ("entities", .record [("classes", .int entities.1), ("methods", .int entities.2)])]

/-- Reports on the ingestion and the graph. -/
def status (env : Environment) (config : Option String) : Routine Ending :=
  reporting "Error reading status" do
    let s ← settings env config
    let fields ← withGraph env s do
      let status ← Facade.status
      let healthy ← Facade.healthCheck
      let entities ← Facade.refresh
      return reportFields status healthy entities
    return .success ((Value.record fields).indented ++ "\n")

/-- The names of a list, one on a line. -/
def bullets (names : Value) : Except Fault String := do
  return String.join ((← names.elements).map fun name => "  - " ++ name.display ++ "\n")

/-- A selection as text. -/
def selectionText (s : Selection) : Except Fault String := do
  if !s.hasEntities then return "No relevant entities found\n"
  return "Classes:\n" ++ (← bullets s.classes) ++ "Methods:\n" ++ (← bullets s.methods)

/-- Tells which entities a query is about. -/
def analyze (env : Environment) (query : String) (config : Option String) (prefilter asData : Bool) :
    Routine Ending := do
  let found : Except Ending Selection ← Routine.rescue (do
    let s ← settings env config
    let selection ← withGraph env s do
      let _ ← Facade.refresh
      Facade.analyze (.str query) (if prefilter then .null else .bool false)
    return Except.ok selection) fun fault =>
      return Except.error (.refusal ("Error analyzing query: " ++ fault.message))
  match found with
  | .error ending => return ending
  | .ok selection =>
    if asData then return .success ((Value.record selection.fields).indented ++ "\n")
    else match selectionText selection with
      | .ok text => return .success text
      | .error fault => return .escape fault

/-- Carries out what the program is asked to do. -/
def perform (env : Environment) : Action → Routine Ending
  | .ingest config => ingest env config
  | .schedule config => schedule env config
  | .status config => status env config
  | .analyze query config prefilter asData => analyze env query config prefilter asData

def versionText : String := "astkg, version 0.1.0\n"

def usage : String :=
  "Usage: astkg [OPTIONS] COMMAND [ARGS]...\n\nCommands: analyze, ingest, schedule, status\n"

/-- Runs the program with its arguments. -/
def run (env : Environment) (args : List String) : Routine Ending :=
  match Invocation.ofArguments args with
  | .version => return .success versionText
  | .help _ => return .success usage
  | .misuse _ => return ⟨2, "", usage, none⟩
  | .run _ action => perform env action

end Command

/-- Whether the program writes details to its journal, once that is known. -/
def Invocation.verbosity : Invocation → Option Bool
  | .version => none
  | .help verbose => verbose
  | .misuse verbose => verbose
  | .run verbose _ => some verbose

end CodeAtlas
