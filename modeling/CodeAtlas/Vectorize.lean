import CodeAtlas.Digest.NameId
import CodeAtlas.Embedding
import CodeAtlas.Graph.Client

namespace CodeAtlas

/-- The identifier of the point of an entity; it depends on the kind and the entity alone. -/
def pointId (kind : Kind) (id : Value) : String :=
  nameId ("astkg:" ++ kind.name ++ ":" ++ id.display)

/-- The text by which a method is found. -/
def methodText (record : Value) : Except Fault String := do
  let name ← record.given "name" (.str "")
  let owner ← record.given "class_name" (.str "")
  let description ← record.given "description" (.str "")
  let header := if owner.truthy then owner.display ++ "." ++ name.display else name.display
  return strip (header ++ ": " ++ description.display)

/-- The text by which a class is found: its description, or else its package and its first methods. -/
def classText (record : Value) : Except Fault Value := do
  let name ← record.given "name" (.str "")
  let description ← record.get "description"
  if description.truthy then return .str (name.display ++ ": " ++ description.display)
  let first ← (← record.given "method_names" (.list [])).start (.int 20)
  let methods ← Value.joined ", " (← first.elements)
  let package ← record.given "package_name" (.str "")
  let text := if package.truthy then .str (name.display ++ " in " ++ package.display) else name
  return if methods.isEmpty then text else .str (text.display ++ " with methods " ++ methods)

def entityText (kind : Kind) (record : Value) : Except Fault Value :=
  match kind with
  | .classes => classText record
  | .methods => (methodText record).map .str

/-- What is stored beside the vector of an entity. -/
def payloadOf (kind : Kind) (record : Value) : Except Fault Value := do
  let shared := [("entity_id", ← record.entry "id"), ("name", ← record.entry "name"), ("kind", .str kind.name),
    ("package_name", ← record.get "package_name"), ("description", ← record.get "description")]
  match kind with
  | .classes => return .record (shared ++ [("full_name", ← record.get "full_name")])
  | .methods =>
    return .record (shared ++ [("signature", ← record.get "signature"), ("class_name", ← record.get "class_name")])

def pointOf (kind : Kind) (record vector : Value) : Except Fault Point := do
  return { id := pointId kind (← record.entry "id"), vector, payload := ← payloadOf kind record }

/-- Only a record with an identity and a name becomes a point. -/
def isIndexable (record : Value) : Except Fault Bool := do
  if (← record.get "id").truthy then return (← record.get "name").truthy else return false

namespace VectorIndex

/-- Opens the client of the vector server unless it is open. -/
def openClient (n : Nat) : Routine Unit := do
  let index ← Routine.view (·.index n)
  if index.isOpen then return
  Routine.query (.openVectors index.settings.host index.settings.port)
  Routine.change (Memory.onIndex n fun i => { i with isOpen := true })

def close (n : Nat) : Routine Unit := do
  let index ← Routine.view (·.index n)
  if index.isOpen then
    Routine.query .closeVectors
    Routine.change (Memory.onIndex n fun i => { i with isOpen := false })

/-- Creates a collection unless it exists. -/
def ensureCollection (n : Nat) (collection : Value) : Routine Unit := do
  openClient n
  let existing : List Value ← Routine.query .listCollections
  if existing.any (·.same collection) then return
  let index ← Routine.view (·.index n)
  Routine.query (.createCollection collection index.settings.vectorSize)

/-- Encodes the records of each group and writes their points; counts the points. -/
def writeGroups (n embedding : Nat) (kind : Kind) (collection : Value) : Nat → List (List Value) → Routine Nat
  | written, [] => return written
  | written, group :: rest => do
    let texts ← Routine.ofExcept (group.mapM (entityText kind))
    let vectors ← EmbeddingService.encodeBatch embedding (.list texts) false (.bool false)
    let points ← Routine.ofExcept ((group.zip vectors).mapM fun (record, vector) => pointOf kind record vector)
    openClient n
    Routine.query (.upsert collection points)
    writeGroups n embedding kind collection (written + points.length) rest

/-- Writes the points of records in groups. -/
def writeRecords (n embedding : Nat) (kind : Kind) (collection : Value) (records : List Value) : Routine Nat := do
  let indexable ← Routine.ofExcept (records.filterM isIndexable)
  let index ← Routine.view (·.index n)
  let groups ← groupsBy index.batchSize indexable
  writeGroups n embedding kind collection 0 groups

end VectorIndex

/-- How many points were written, and how long it took. -/
structure VectorCounts where
  methods : Nat
  classes : Nat
  duration : Float
  deriving Inhabited

def VectorCounts.fields (c : VectorCounts) : List (String × Value) := [
  ("methods", .int c.methods), ("classes", .int c.classes), ("duration_seconds", .float c.duration)]

def VectorCounts.summary (c : VectorCounts) : String :=
  "Vectorization: " ++ toString c.methods ++ " methods, " ++ toString c.classes ++ " classes in " ++
    fixedFloat 1 c.duration ++ "s"

/-- Writes the vectors of the described methods, then those of the classes. -/
def vectorize (graph index embedding : Nat) : Routine VectorCounts := do
  let start ← Routine.now
  let settings ← Routine.view fun m => (m.index index).settings
  VectorIndex.ensureCollection index settings.methodCollection
  VectorIndex.ensureCollection index settings.classCollection
  let methodRecords ← GraphClient.run graph .describedMethods
  let methods ← VectorIndex.writeRecords index embedding .methods settings.methodCollection methodRecords
  let classRecords ← GraphClient.run graph .classesToIndex
  let classes ← VectorIndex.writeRecords index embedding .classes settings.classCollection classRecords
  let stop ← Routine.now
  return { methods, classes, duration := stop - start }

end CodeAtlas
