import CodeAtlas.Settings
import CodeAtlas.Snapshot

namespace CodeAtlas

/-- The four stages of an ingestion, in their order. -/
inductive Stage where
  | fetch
  | build
  | enrich
  | vectorize
  deriving DecidableEq, Inhabited, Repr

def Stage.name : Stage → String
  | .fetch => "fetch_ast"
  | .build => "build_graph"
  | .enrich => "enrich_methods"
  | .vectorize => "vectorize"

def Stage.all : List Stage := [.fetch, .build, .enrich, .vectorize]

/-- Who completes a text: one of the own services, or a helper outside. -/
inductive CompletionSource where
  | service (number : Nat)
  | outside
  deriving DecidableEq, Inhabited, Repr

/-- Who searches for similar entities: the vector server, reached afresh for every search, or a
helper outside. The address is left to the server's client where `addressed` is false. -/
inductive SearchSource where
  | server (settings : VectorSettings) (addressed : Bool)
  | outside
  deriving Inhabited

/-- How many may work at the same time. -/
inductive Permits where
  | limited (n : Nat)
  | unlimited
  deriving DecidableEq, Inhabited, Repr

/-- A method of the graph that has no description yet. -/
structure PendingMethod where
  id : Value
  name : Value
  signature : Value
  className : Value
  filePath : Value
  returnType : Value
  startLine : Int
  endLine : Int
  deriving Inhabited

/-- What is needed to describe methods. -/
structure Enricher where
  graph : Nat
  completion : CompletionSource
  sourceRoot : Option String
  permits : Permits
  deriving Inhabited

/-- What is needed to run all stages with the own services. -/
structure Pipeline where
  graph : Nat
  index : Nat
  embedding : Nat
  polling : PollingSettings
  graphBatch : Value
  enricher : Enricher
  deriving Inhabited

/-- Who carries out the stages. -/
inductive StageSource where
  | pipeline (p : Pipeline)
  | outside
  deriving Inhabited

/-- What became of a method that was to be described. -/
inductive Outcome where
  | enriched
  | placeholder
  | failed
  deriving DecidableEq, Inhabited, Repr

/-- Work that goes on beside the one who starts it. -/
inductive Job where
  | ingest (coordinator : Nat) (id : String)
  | schedule (coordinator : Nat)
  | describe (enricher : Enricher) (method : PendingMethod)
  | search (source : SearchSource) (vector limit threshold : Value) (kind : Kind)
  deriving Inhabited

/-- Whether a job starts over each time it comes to its end. -/
def Job.repeats : Job → Bool
  | .schedule _ => true
  | _ => false

/-- What a job leaves behind. -/
inductive Yield where
  | nothing
  | outcome (o : Outcome)
  | hits (found : List Match)
  deriving Inhabited

end CodeAtlas
