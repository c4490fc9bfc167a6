import CodeAtlas.Entity
import CodeAtlas.Settings.Section

namespace CodeAtlas

/-- How to reach the graph server. -/
structure GraphSettings where
  host : Value
  port : Value
  graphName : Value
  maxConnections : Value
  timeout : Value
  password : Value
  deriving Inhabited

def graphSection : Section GraphSettings where
  owner := "FalkorDBConfig"
  blank := default
  entries := [
    ⟨"host", (·.host), fun v s => { s with host := v }, .text "FALKORDB_HOST" "localhost"⟩,
    ⟨"port", (·.port), fun v s => { s with port := v }, .int "FALKORDB_PORT" 6380⟩,
    ⟨"graph_name", (·.graphName), fun v s => { s with graphName := v },
      .text "FALKORDB_GRAPH_NAME" "astkg_dev"⟩,
    ⟨"max_connections", (·.maxConnections), fun v s => { s with maxConnections := v },
      .int "FALKORDB_MAX_CONNECTIONS" 10⟩,
    ⟨"timeout_ms", (·.timeout), fun v s => { s with timeout := v }, .int "FALKORDB_TIMEOUT_MS" 5000⟩,
    ⟨"password", (·.password), fun v s => { s with password := v }, .optionalText "FALKORDB_PASSWORD"⟩]
  check := fun _ => .ok ()

/-- How to reach the vector server, and the collections in it. -/
structure VectorSettings where
  host : Value
  port : Value
  classCollection : Value
  methodCollection : Value
  vectorSize : Value
  deriving Inhabited

def vectorSection : Section VectorSettings where
  owner := "QdrantConfig"
  blank := default
  entries := [
    ⟨"host", (·.host), fun v s => { s with host := v }, .text "QDRANT_HOST" "localhost"⟩,
    ⟨"port", (·.port), fun v s => { s with port := v }, .int "QDRANT_PORT" 6333⟩,
    ⟨"class_collection", (·.classCollection), fun v s => { s with classCollection := v },
      .text "QDRANT_CLASS_COLLECTION" "classes"⟩,
    ⟨"method_collection", (·.methodCollection), fun v s => { s with methodCollection := v },
      .text "QDRANT_METHOD_COLLECTION" "methods"⟩,
    ⟨"vector_size", (·.vectorSize), fun v s => { s with vectorSize := v }, .int "QDRANT_VECTOR_SIZE" 1024⟩]
  check := fun s => atLeastOne "vector_size" s.vectorSize

/-- The bounds of the search for the entities of a query. -/
structure FunnelSettings where
  prefiltering : Value
  threshold : Value
  maxEntities : Value
  searchLimit : Value
  maxListedClasses : Value
  maxListedMethods : Value
  maxResults : Value
  deriving Inhabited

def FunnelSettings.check (s : FunnelSettings) : Except Fault Unit := do
  withinUnit "similarity_threshold" (.int 0) (.int 1) 1 s.threshold
  atLeastOne "max_entities" s.maxEntities
  atLeastOne "search_limit" s.searchLimit
  atLeastOne "max_formatted_classes" s.maxListedClasses
  atLeastOne "max_formatted_methods" s.maxListedMethods
  atLeastOne "max_results_requested" s.maxResults

def funnelSection : Section FunnelSettings where
  owner := "AnalyzerConfig"
  blank := default
  entries := [
    ⟨"prefiltering_enabled", (·.prefiltering), fun v s => { s with prefiltering := v },
      .flag "ASTKG_PREFILTER_ENABLED" true⟩,
    ⟨"similarity_threshold", (·.threshold), fun v s => { s with threshold := v },
      .float "ASTKG_PREFILTER_THRESHOLD" 0.65⟩,
    ⟨"max_entities", (·.maxEntities), fun v s => { s with maxEntities := v },
      .int "ASTKG_PREFILTER_MAX_ENTITIES" 30⟩,
    ⟨"search_limit", (·.searchLimit), fun v s => { s with searchLimit := v },
      .int "ASTKG_PREFILTER_SEARCH_LIMIT" 50⟩,
    ⟨"max_formatted_classes", (·.maxListedClasses), fun v s => { s with maxListedClasses := v },
      .always (.int 50)⟩,
    ⟨"max_formatted_methods", (·.maxListedMethods), fun v s => { s with maxListedMethods := v },
      .always (.int 100)⟩,
    ⟨"max_results_requested", (·.maxResults), fun v s => { s with maxResults := v }, .always (.int 20)⟩]
  check := FunnelSettings.check

/-- What the ingestion reads, how often it runs, and how much it does at a time. -/
structure IngestionSettings where
  endpoint : Value
  scheduled : Value
  interval : Value
  concurrency : Value
  batchSize : Value
  graphBatchSize : Value
  sourceRoot : Value
  pollInterval : Value
  maxPolls : Value
  deriving Inhabited

def IngestionSettings.check (s : IngestionSettings) : Except Fault Unit := do
  if !s.endpoint.truthy then throw (.invalid .emptyEndpoint)
  if ← Value.compare .atMost s.interval (.int 0) then
    throw (.invalid (.notPositive "schedule_interval_seconds" s.interval))
  atLeastOne "enrich_concurrency" s.concurrency
  atLeastOne "batch_size" s.batchSize
  atLeastOne "graph_batch_size" s.graphBatchSize
  atLeastOne "max_poll_attempts" s.maxPolls

def ingestionSection : Section IngestionSettings where
  owner := "IngestionConfig"
  blank := default
  entries := [
    ⟨"ast_endpoint", (·.endpoint), fun v s => { s with endpoint := v },
      .text "ASTKG_AST_ENDPOINT" "http://localhost:8080/api/v1"⟩,
    ⟨"schedule_enabled", (·.scheduled), fun v s => { s with scheduled := v },
      .flag "ASTKG_SCHEDULE_ENABLED" false⟩,
    ⟨"schedule_interval_seconds", (·.interval), fun v s => { s with interval := v },
      .float "ASTKG_SCHEDULE_INTERVAL" 3600.0⟩,
    ⟨"enrich_concurrency", (·.concurrency), fun v s => { s with concurrency := v },
      .int "ASTKG_ENRICH_CONCURRENCY" 2⟩,
    ⟨"batch_size", (·.batchSize), fun v s => { s with batchSize := v }, .int "ASTKG_BATCH_SIZE" 50⟩,
    ⟨"graph_batch_size", (·.graphBatchSize), fun v s => { s with graphBatchSize := v }, .always (.int 500)⟩,
    ⟨"source_root", (·.sourceRoot), fun v s => { s with sourceRoot := v },
      .optionalText "ASTKG_SOURCE_ROOT"⟩,
    ⟨"poll_interval_seconds", (·.pollInterval), fun v s => { s with pollInterval := v },
      .always (.float 5.0)⟩,
    ⟨"max_poll_attempts", (·.maxPolls), fun v s => { s with maxPolls := v }, .always (.int 60)⟩]
  check := IngestionSettings.check

/-- Which language model answers, and how. -/
structure CompletionSettings where
  apiKey : Value
  model : Value
  temperature : Value
  maxTokens : Value
  timeout : Value
  deriving Inhabited

def CompletionSettings.check (s : CompletionSettings) : Except Fault Unit := do
  withinUnit "temperature" (.float 0.0) (.float 2.0) 2 s.temperature
  atLeastOne "max_tokens" s.maxTokens

def completionSection : Section CompletionSettings where
  owner := "LLMConfig"
  blank := default
  entries := [
    ⟨"api_key", (·.apiKey), fun v s => { s with apiKey := v }, .optionalText "OPENROUTER_API_KEY"⟩,
    ⟨"model", (·.model), fun v s => { s with model := v },
      .text "ASTKG_LLM_MODEL" "google/gemini-2.5-flash"⟩,
    ⟨"temperature", (·.temperature), fun v s => { s with temperature := v }, .always (.float 0.1)⟩,
    ⟨"max_tokens", (·.maxTokens), fun v s => { s with maxTokens := v }, .always (.int 4000)⟩,
    ⟨"timeout_seconds", (·.timeout), fun v s => { s with timeout := v }, .always (.float 30.0)⟩]
  check := CompletionSettings.check

/-- What replaces the defaults of the embedding model; null keeps them. -/
structure EmbeddingSettings where
  modelName : Value
  device : Value
  batchSize : Value
  deriving Inhabited

def embeddingSection : Section EmbeddingSettings where
  owner := "EmbeddingConfig"
  blank := default
  entries := [
    ⟨"model_name", (·.modelName), fun v s => { s with modelName := v }, .always .null⟩,
    ⟨"device", (·.device), fun v s => { s with device := v }, .always .null⟩,
    ⟨"batch_size", (·.batchSize), fun v s => { s with batchSize := v }, .always (.int 32)⟩]
  check := fun _ => .ok ()

/-- How long and how often to ask for the result of an analysis. -/
structure PollingSettings where
  requestTimeout : Value
  pollInterval : Value
  maxPolls : Value
  deriving Inhabited

def PollingSettings.check (s : PollingSettings) : Except Fault Unit := do
  atLeastOne "max_poll_attempts" s.maxPolls
  if ← Value.compare .below s.pollInterval (.int 0) then
    throw (.invalid (.negative "poll_interval_seconds" s.pollInterval))

def pollingSection : Section PollingSettings where
  owner := "ASTSourceConfig"
  blank := default
  entries := [
    ⟨"request_timeout_seconds", (·.requestTimeout), fun v s => { s with requestTimeout := v },
      .always (.float 30.0)⟩,
    ⟨"poll_interval_seconds", (·.pollInterval), fun v s => { s with pollInterval := v },
      .always (.float 5.0)⟩,
    ⟨"max_poll_attempts", (·.maxPolls), fun v s => { s with maxPolls := v }, .always (.int 60)⟩]
  check := PollingSettings.check

/-- The collection that holds the vectors of a kind. -/
def VectorSettings.collectionFor (s : VectorSettings) : Kind → Value
  | .classes => s.classCollection
  | .methods => s.methodCollection

end CodeAtlas
