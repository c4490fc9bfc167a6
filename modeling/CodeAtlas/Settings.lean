import CodeAtlas.Settings.Deployment
import CodeAtlas.Settings.Sections

namespace CodeAtlas

/-- The settings of every part. -/
structure Settings where
  graph : GraphSettings
  vectors : VectorSettings
  funnel : FunnelSettings
  ingestion : IngestionSettings
  completion : CompletionSettings
  embedding : EmbeddingSettings
  deriving Inhabited

/-- The sections that a settings file may have. -/
inductive SectionName where
  | graph
  | vectors
  | funnel
  | ingestion
  | completion
  | embedding
  deriving DecidableEq, Inhabited, Repr

namespace SectionName

def all : List SectionName := [.graph, .vectors, .funnel, .ingestion, .completion, .embedding]

def key : SectionName → String
  | .graph => "falkordb"
  | .vectors => "qdrant"
  | .funnel => "analyzer"
  | .ingestion => "ingestion"
  | .completion => "llm"
  | .embedding => "embedding"

def ofKey? (k : Value) : Option SectionName :=
  match k with
  | .str s => all.find? (·.key == s)
  | _ => none

theorem ofKey?_key (n : SectionName) : ofKey? (.str n.key) = some n := by
  cases n <;> decide

end SectionName

namespace Settings

/-- The settings that the variables give by themselves. -/
def ofEnvironment (env : Environment) : Except Fault Settings := do
  let graph ← graphSection.build env []
  let vectors ← vectorSection.build env []
  let funnel ← funnelSection.build env []
  let ingestion ← ingestionSection.build env []
  let completion ← completionSection.build env []
  let embedding ← embeddingSection.build env []
  return { graph, vectors, funnel, ingestion, completion, embedding }

/-- Replaces values of one section. -/
def replace (s : Settings) (name : SectionName) (given : List (Value × Value)) : Except Fault Settings :=
  match name with
  | .graph => (graphSection.replace s.graph given).map fun x => { s with graph := x }
  | .vectors => (vectorSection.replace s.vectors given).map fun x => { s with vectors := x }
  | .funnel => (funnelSection.replace s.funnel given).map fun x => { s with funnel := x }
  | .ingestion => (ingestionSection.replace s.ingestion given).map fun x => { s with ingestion := x }
  | .completion => (completionSection.replace s.completion given).map fun x => { s with completion := x }
  | .embedding => (embeddingSection.replace s.embedding given).map fun x => { s with embedding := x }

/-- A mismatch in a section is told as a refused key of it. -/
def sectionFault (name : SectionName) : Fault → Fault
  | .mismatch why => .invalid (.sectionKey name.key why.message)
  | fault => fault

/-- Lays the sections of a dictionary over the settings, one after the other. -/
def overlay (s : Settings) : List (Value × Value) → Except Fault Settings
  | [] => .ok s
  | (k, v) :: rest =>
    match SectionName.ofKey? k with
    | none => .error (.invalid (.unknownSection k))
    | some name =>
      match v with
      | .null => s.overlay rest
      | .dict given =>
        match s.replace name given with
        | .ok t => t.overlay rest
        | .error fault => .error (sectionFault name fault)
      | _ => .error (.invalid (.sectionNotMapping name.key))

/-- The settings of the variables with the sections of `data` laid over them. -/
def ofData (env : Environment) (data : Value) : Except Fault Settings := do
  let base ← ofEnvironment env
  match data.orElse (.dict []) with
  | .dict sections => base.overlay sections
  | other => .error (.noMember other.kind "items")

/-- The settings of a file: its top level has to be a mapping, or empty. -/
def ofFile (env : Environment) (path : String) (content : Value) : Except Fault Settings :=
  match content.orElse (.dict []) with
  | .dict sections => ofData env (.dict sections)
  | _ => .error (.invalid (.fileNotMapping path))

/-- Takes over the graph and the collections of a deployment. -/
def enter (s : Settings) (names : DeploymentNames) : Except Fault Settings := do
  let graph ← graphSection.replace s.graph [(.str "graph_name", names.graph)]
  let vectors ← vectorSection.replace s.vectors
    [(.str "class_collection", names.classCollection), (.str "method_collection", names.methodCollection)]
  return { s with graph, vectors }

/-- The settings of the variables with the names of a deployment. -/
def forDeployment (env : Environment) (names : DeploymentNames) : Except Fault Settings := do
  (← ofEnvironment env).enter names

/-- Every section with its fields, in order. -/
def toSections (s : Settings) : List (String × List (String × Value)) := [
  ("falkordb", graphSection.toFields s.graph), ("qdrant", vectorSection.toFields s.vectors),
  ("analyzer", funnelSection.toFields s.funnel), ("ingestion", ingestionSection.toFields s.ingestion),
  ("llm", completionSection.toFields s.completion), ("embedding", embeddingSection.toFields s.embedding)]

end Settings

end CodeAtlas
