import CodeAtlas.Job

namespace CodeAtlas

/-- A client of the graph server. -/
structure GraphClient where
  settings : GraphSettings
  connected : Bool
  deriving Inhabited

/-- Whether a service ever opened a session, and whether it is still open. -/
inductive Session where
  | none
  | open
  | closed
  deriving DecidableEq, Inhabited, Repr

/-- The service of the language model, with the usage that its last answer reported. -/
structure CompletionService where
  settings : CompletionSettings
  session : Session
  usage : List (String × Value)
  deriving Inhabited

/-- The population that queries search. Classes and methods are always replaced together. -/
structure Registry where
  graph : Option Nat
  classes : List ClassEntity
  methods : List MethodEntity
  loaded : Bool
  deriving Inhabited

/-- The writer of vectors; its client of the vector server is opened when first needed. -/
structure VectorIndex where
  settings : VectorSettings
  batchSize : Value
  isOpen : Bool
  deriving Inhabited

/-- The embedding model, loaded when first needed. -/
structure EmbeddingService where
  modelName : Value
  device : Value
  batchSize : Int
  normalize : Bool
  queryPrefix : Value
  documentPrefix : Value
  loaded : Bool
  deriving Inhabited

/-- Where the ingestion stands. Times are seconds on the clock. -/
structure RunState where
  locked : Bool
  stage : Option Stage
  startedAt : Option Float
  finishedAt : Option Float
  duration : Option Float
  lastId : Option String
  lastError : Option String
  deriving Inhabited

/-- The one who starts ingestions, one at a time. -/
structure Coordinator where
  stages : StageSource
  endpoint : Value
  scheduled : Value
  interval : Value
  run : RunState
  task : Option Nat
  worker : Option Nat
  scheduler : Option Nat
  deriving Inhabited

/-- The parts of a code knowledge graph that exist so far. -/
structure Facade where
  settings : Settings
  graph : Option Nat
  embedding : Option Nat
  completion : Option Nat
  registry : Option Nat
  index : Option Nat
  coordinator : Option Nat
  /-- The settings of the analyzer, once there is one. -/
  funnel : Option FunnelSettings
  connected : Bool
  deriving Inhabited

/-- Everything that the program keeps between its steps. A part that is replaced stays, for runs
that still use it. -/
structure Memory where
  graphs : List GraphClient
  completions : List CompletionService
  registries : List Registry
  indexes : List VectorIndex
  embeddings : List EmbeddingService
  /-- The embedding service that all share. -/
  shared : Option Nat
  coordinators : List Coordinator
  facade : Facade
  deriving Inhabited

/-- The part with a number. -/
def part {α : Type} [Inhabited α] (parts : List α) (n : Nat) : α := parts[n]?.getD default

/-- Only the part that is changed becomes another, and only if it is there. -/
theorem part_modify {α : Type} [Inhabited α] (parts : List α) (n i : Nat) (f : α → α) :
    part (parts.modify n f) i = part parts i ∨ (i = n ∧ part (parts.modify n f) i = f (part parts i)) := by
  simp only [part, List.getElem?_modify]
  cases parts[i]? with
  | none => exact .inl rfl
  | some x =>
    by_cases same : n = i
    · exact .inr ⟨same.symm, by simp [same]⟩
    · exact .inl (by simp [same])

/-- What a change leaves alone stays in every part. -/
theorem part_modify_same {α β : Type} [Inhabited α] {parts : List α} {n i : Nat} {f : α → α} {p : α → β}
    (same : ∀ x, p (f x) = p x) : p (part (parts.modify n f) i) = p (part parts i) := by
  rcases part_modify parts n i f with kept | ⟨_, changed⟩
  · rw [kept]
  · rw [changed, same]

theorem part_snoc {α : Type} [Inhabited α] (parts : List α) (new : α) (n : Nat) :
    part (parts ++ [new]) n = if n = parts.length then new else part parts n := by
  unfold part
  rcases Nat.lt_trichotomy n parts.length with inside | last | beyond
  · rw [List.getElem?_append_left inside, if_neg (Nat.ne_of_lt inside)]
  · rw [if_pos last, List.getElem?_append_right (Nat.le_of_eq last.symm)]
    simp [last]
  · have nobody : (parts ++ [new])[n]? = none := List.getElem?_eq_none (by simp; omega)
    rw [nobody, if_neg (Nat.ne_of_gt beyond), List.getElem?_eq_none (Nat.le_of_lt beyond)]

namespace Memory

def graph (m : Memory) (n : Nat) : GraphClient := part m.graphs n

def completion (m : Memory) (n : Nat) : CompletionService := part m.completions n

def registry (m : Memory) (n : Nat) : Registry := part m.registries n

def index (m : Memory) (n : Nat) : VectorIndex := part m.indexes n

def embedding (m : Memory) (n : Nat) : EmbeddingService := part m.embeddings n

def coordinator (m : Memory) (n : Nat) : Coordinator := part m.coordinators n

def onGraph (n : Nat) (f : GraphClient → GraphClient) (m : Memory) : Memory :=
  { m with graphs := m.graphs.modify n f }

def onCompletion (n : Nat) (f : CompletionService → CompletionService) (m : Memory) : Memory :=
  { m with completions := m.completions.modify n f }

def onRegistry (n : Nat) (f : Registry → Registry) (m : Memory) : Memory :=
  { m with registries := m.registries.modify n f }

def onIndex (n : Nat) (f : VectorIndex → VectorIndex) (m : Memory) : Memory :=
  { m with indexes := m.indexes.modify n f }

def onEmbedding (n : Nat) (f : EmbeddingService → EmbeddingService) (m : Memory) : Memory :=
  { m with embeddings := m.embeddings.modify n f }

def onCoordinator (n : Nat) (f : Coordinator → Coordinator) (m : Memory) : Memory :=
  { m with coordinators := m.coordinators.modify n f }

def onFacade (f : Facade → Facade) (m : Memory) : Memory :=
  { m with facade := f m.facade }

theorem coordinator_onCoordinator {m : Memory} {n : Nat} (f : Coordinator → Coordinator)
    (present : n < m.coordinators.length) :
    (m.onCoordinator n f).coordinator n = f (m.coordinator n) := by
  simp [coordinator, onCoordinator, part, present]

/-- Only a registry that is there reads from a graph. -/
theorem registry_onRegistry {m : Memory} {n g : Nat} (f : Registry → Registry) (linked : (m.registry n).graph = some g) :
    (m.onRegistry n f).registry n = f (m.registry n) := by
  have present : n < m.registries.length := by
    refine Nat.lt_of_not_le fun beyond => ?_
    simp [registry, part, List.getElem?_eq_none beyond] at linked
    cases linked
  simp [registry, onRegistry, part, present]

theorem settings_onIndex (m : Memory) (n i : Nat) {f : VectorIndex → VectorIndex} (same : ∀ x, (f x).settings = x.settings) :
    ((m.onIndex n f).index i).settings = (m.index i).settings := part_modify_same same

end Memory

end CodeAtlas
