import CodeAtlas.Analyzer
import CodeAtlas.Ingestion
import CodeAtlas.Registry

namespace CodeAtlas

/-- A number for a part of the graph; only a connected graph has all its parts. -/
def number (n : Option Nat) : Nat := n.getD 0

namespace Facade

/-- Adds a part to the memory and gives its number. -/
def add {α : Type} (parts : Memory → List α) (put : List α → Memory → Memory) (new : α) : Routine Nat := do
  let present ← Routine.view parts
  Routine.change (put (present ++ [new]))
  return present.length

def note (f : Facade → Facade) : Routine Unit := Routine.change (Memory.onFacade f)

/-- The client of the graph server, connected. -/
def connectGraph (settings : GraphSettings) : Routine Nat := do
  let graph ← add (·.graphs) (fun gs m => { m with graphs := gs }) { settings, connected := false }
  note fun f => { f with graph := some graph }
  GraphClient.connect graph
  return graph

/-- The embedding service that all share. -/
def takeEmbedding (env : Environment) (settings : EmbeddingSettings) : Routine Nat := do
  let options ← embeddingOptions.build env [(.str "model_name", settings.modelName),
    (.str "device", settings.device), (.str "batch_size", settings.batchSize)]
  let embedding ← EmbeddingService.sharedService env options
  note fun f => { f with embedding := some embedding }
  return embedding

def newCompletion (settings : CompletionSettings) : Routine Nat := do
  let completion ← add (·.completions) (fun cs m => { m with completions := cs })
    { settings, session := .none, usage := [] }
  note fun f => { f with completion := some completion }
  return completion

def newRegistry (graph : Nat) : Routine Unit := do
  let registry ← add (·.registries) (fun rs m => { m with registries := rs })
    { graph := some graph, classes := [], methods := [], loaded := false }
  note fun f => { f with registry := some registry }

def newIndex (settings : VectorSettings) (batchSize : Value) : Routine Nat := do
  atLeastOne "batch_size" batchSize
  let index ← add (·.indexes) (fun is m => { m with indexes := is }) { settings, batchSize, isOpen := false }
  note fun f => { f with index := some index }
  return index

/-- What the stages need; every value is checked by the part that uses it. -/
def newPipeline (s : IngestionSettings) (graph index embedding completion : Nat) : Except Fault Pipeline := do
  let polling ← pollingSection.build ⟨[]⟩
    [(.str "poll_interval_seconds", s.pollInterval), (.str "max_poll_attempts", s.maxPolls)]
  atLeastOne "batch_size" s.graphBatchSize
  let permits ← Permits.ofValue s.concurrency
  let sourceRoot ← sourceRootOf s.sourceRoot
  return { graph, index, embedding, polling, graphBatch := s.graphBatchSize,
           enricher := { graph, completion := .service completion, sourceRoot, permits } }

def newCoordinator (s : IngestionSettings) (p : Pipeline) : Routine Unit := do
  let coordinator ← add (·.coordinators) (fun cs m => { m with coordinators := cs })
    { stages := .pipeline p, endpoint := s.endpoint, scheduled := s.scheduled, interval := s.interval,
      run := default, task := none, worker := none, scheduler := none }
  note fun f => { f with coordinator := some coordinator }

/-- Connects to the graph server and makes every part. A part made before a fault stays. -/
def connect (env : Environment) : Routine Unit := do
  let f ← Routine.view (·.facade)
  if f.connected then return
  let s := f.settings
  let graph ← connectGraph s.graph
  let embedding ← takeEmbedding env s.embedding
  let completion ← newCompletion s.completion
  newRegistry graph
  let index ← newIndex s.vectors s.ingestion.batchSize
  let pipeline ← newPipeline s.ingestion graph index embedding completion
  newCoordinator s.ingestion pipeline
  note fun f => { f with funnel := some s.funnel, connected := true }

/-- Does something with a part where there is one. -/
def whenPresent (n : Option Nat) (p : Nat → Routine Unit) : Routine Unit :=
  match n with
  | some n => p n
  | none => return

/-- Stops the schedule and lets go of every connection. -/
def close : Routine Unit := do
  let f ← Routine.view (·.facade)
  whenPresent f.coordinator Coordinator.stopScheduler
  whenPresent f.completion CompletionService.close
  whenPresent f.index VectorIndex.close
  whenPresent f.graph GraphClient.close
  note fun f => { f with connected := false }

/-- The facade, which has to be connected. -/
def required : Routine Facade := do
  let f ← Routine.view (·.facade)
  if f.connected then return f else Routine.fail (.failure .notConnected)

def healthCheck : Routine Bool := do
  GraphClient.healthCheck (number (← required).graph)

/-- Starts an ingestion beside the caller. -/
def trigger : Routine TriggerResponse := do
  Coordinator.trigger (number (← required).coordinator)

def status : Routine Status := do
  Coordinator.status (number (← required).coordinator)

def startScheduler : Routine Bool := do
  Coordinator.startScheduler (number (← required).coordinator)

/-- Reads the population anew and counts it. -/
def refresh : Routine (Nat × Nat) := do
  Registry.refresh (number (← required).registry)

/-- Whether a run has completed and nothing has gone wrong since. -/
def isFresh (s : Status) : Bool := s.lastError.isNone && s.finishedAt.isSome

/-- Runs an ingestion here; the population is read anew when the status after it is good. -/
def runIngestion : Routine Status := do
  let coordinator := number (← required).coordinator
  Coordinator.runPipeline coordinator
  let status ← Coordinator.status coordinator
  if isFresh status then let _ ← refresh
  return status

/-- The collaborators of the analyzer. -/
def sources (f : Facade) : Sources where
  classes := Registry.allClasses (number f.registry)
  methods := Registry.allMethods (number f.registry)
  embed := EmbeddingService.encodeQuery (number f.embedding)
  search := .server f.settings.vectors true
  complete := fun prompt => CompletionSource.complete (.service (number f.completion)) prompt none

/-- The settings of the analyzer, with the pre-filter switched where the caller says so. -/
def funnelFor (f : Facade) (usePrefilter : Value) : Except Fault FunnelSettings :=
  let s := f.funnel.getD default
  if usePrefilter.isNull || usePrefilter.same s.prefiltering then .ok s
  else funnelSection.replace s [(.str "prefiltering_enabled", usePrefilter)]

/-- The entities that a query is about. The population is read first if it never was. -/
def analyze (query usePrefilter : Value) : Routine Selection := do
  let f ← required
  if !(← Routine.view fun m => (m.registry (number f.registry)).loaded) then let _ ← refresh
  let s ← funnelFor f usePrefilter
  analyzeEntities s f.sources query

end Facade

end CodeAtlas
