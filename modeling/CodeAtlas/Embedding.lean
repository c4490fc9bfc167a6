import CodeAtlas.Routine
import CodeAtlas.Settings.Section
import CodeAtlas.Text.Capital
import CodeAtlas.Value.Access

namespace CodeAtlas

/-- What is given for a new embedding service. -/
structure EmbeddingOptions where
  modelName : Value
  device : Value
  batchSize : Value
  normalize : Value
  queryPrefix : Value
  documentPrefix : Value
  deriving Inhabited

def embeddingOptions : Section EmbeddingOptions where
  owner := "EmbeddingService"
  blank := default
  entries := [
    ⟨"model_name", (·.modelName), fun v s => { s with modelName := v }, .always .null⟩,
    ⟨"device", (·.device), fun v s => { s with device := v }, .always .null⟩,
    ⟨"batch_size", (·.batchSize), fun v s => { s with batchSize := v }, .always (.int 32)⟩,
    ⟨"normalize_embeddings", (·.normalize), fun v s => { s with normalize := v }, .always (.bool true)⟩,
    ⟨"query_prefix", (·.queryPrefix), fun v s => { s with queryPrefix := v }, .always (.str "query: ")⟩,
    ⟨"document_prefix", (·.documentPrefix), fun v s => { s with documentPrefix := v }, .always (.str "passage: ")⟩]
  check := fun _ => .ok ()

namespace EmbeddingService

/-- A service as the options and the variables have it. Model and device come from the options first,
batch size and normalization from the variables first. -/
def configure (env : Environment) (accelerated : Bool) (o : EmbeddingOptions) : Except Fault EmbeddingService := do
  let variableOr (name other : String) : String := (env.get? name).getD other
  let modelName := o.modelName.orElse (.str (variableOr "EMBEDDING_MODEL" "intfloat/e5-large-v2"))
  let device := o.device.orElse (.str (variableOr "EMBEDDING_DEVICE" (if accelerated then "cuda" else "cpu")))
  let batchSize ← readInt (variableOr "EMBEDDING_BATCH_SIZE" o.batchSize.display)
  let normalize := smallLetters (variableOr "EMBEDDING_NORMALIZE" o.normalize.display) == "true"
  return { modelName, device, batchSize, normalize, queryPrefix := o.queryPrefix,
           documentPrefix := o.documentPrefix, loaded := false }

/-- Adds a new service to the memory and gives its number. -/
def create (env : Environment) (o : EmbeddingOptions) : Routine Nat := do
  let accelerated ← Routine.query .hasAccelerator
  let service ← configure env accelerated o
  let n ← Routine.view (·.embeddings.length)
  Routine.change fun m => { m with embeddings := m.embeddings ++ [service] }
  return n

/-- The service that all share; the options count only when there is none yet. -/
def sharedService (env : Environment) (o : EmbeddingOptions) : Routine Nat := do
  match ← Routine.view (·.shared) with
  | some n => return n
  | none =>
    let n ← create env o
    Routine.change fun m => { m with shared := some n }
    return n

/-- Loads the model unless it is loaded. -/
def load (n : Nat) : Routine Unit := do
  let service ← Routine.view (·.embedding n)
  if service.loaded then return
  Routine.rescue (Routine.query (.loadModel service.modelName service.device)) fun fault =>
    Routine.fail (.failure (.modelNotLoaded fault.message))
  Routine.change (Memory.onEmbedding n fun s => { s with loaded := true })

/-- What the journal of an encoding needs: a text that can be cut short. -/
def journal (text : Value) : Except Fault Unit := do
  let _ ← text.start (.int 100)

/-- The vector of one text, put behind the prefix. -/
def encodeBehind (textPrefix : EmbeddingService → Value) (n : Nat) (text : Value) : Routine Value := do
  journal text
  load n
  let service ← Routine.view (·.embedding n)
  Routine.query (.encode ((textPrefix service).display ++ text.display) service.normalize)

def encodeQuery : Nat → Value → Routine Value := encodeBehind (·.queryPrefix)

def encodeDocument : Nat → Value → Routine Value := encodeBehind (·.documentPrefix)

/-- The vectors of several texts; no model is needed for no texts. -/
def encodeBatch (n : Nat) (texts : Value) (isQuery : Bool) (progress : Value) : Routine (List Value) := do
  if !texts.truthy then return []
  load n
  let service ← Routine.view (·.embedding n)
  let textPrefix := if isQuery then service.queryPrefix else service.documentPrefix
  let items ← texts.elements
  Routine.query (.encodeBatch (items.map fun t => textPrefix.display ++ t.display) service.batchSize
    service.normalize progress)

/-- The number of components of a vector. -/
def dimension (n : Nat) : Routine Value := do
  load n
  Routine.query .dimension

def text (s : EmbeddingService) : String :=
  "EmbeddingService(model=" ++ s.modelName.display ++ ", device=" ++ s.device.display ++ ", loaded=" ++
    (Value.bool s.loaded).display ++ ")"

end EmbeddingService

end CodeAtlas
