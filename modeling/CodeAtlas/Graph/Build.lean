import CodeAtlas.Graph.Client
import CodeAtlas.Text.Capital

namespace CodeAtlas

/-- Classes under the names that references use, each with its place in the snapshot. The first class
with a name holds it. -/
abbrev ClassIndex := List (Value × SourceClass × Nat)

namespace ClassIndex

/-- Enters a class under a name, unless the name is empty or held already. -/
def enter (index : ClassIndex) (key : Value) (c : SourceClass × Nat) : Except Fault ClassIndex := do
  if !key.truthy then return index
  let key ← key.asKey
  if index.any (·.1.same key) then return index else return index ++ [(key, c)]

/-- Enters classes in order, each under its full name first. -/
def enterAll (index : ClassIndex) : List (SourceClass × Nat) → Except Fault ClassIndex
  | [] => .ok index
  | c :: rest => do
    let index ← index.enter c.1.fullName c
    let index ← index.enter c.1.name c
    index.enterAll rest

def ofClasses (classes : List SourceClass) : Except Fault ClassIndex :=
  enterAll [] classes.zipIdx

def find? (index : ClassIndex) (key : Value) : Option (SourceClass × Nat) :=
  (List.find? (·.1.same key) index).map (·.2)

/-- The class that a reference means: the one of that name, or else the one named by what follows the
last point. -/
def resolve (index : ClassIndex) (reference : Value) : Except Fault (Option (SourceClass × Nat)) := do
  if !reference.truthy then return none
  let key ← reference.asKey
  match index.find? key with
  | some c => return some c
  | none => return index.find? (.str (afterLastPoint (← reference.text "rsplit")))

def resolveClass (index : ClassIndex) (reference : Value) : Except Fault (Option SourceClass) := do
  return (← index.resolve reference).map (·.1)

end ClassIndex

/-- The row of a class node. -/
def classRow (c : SourceClass) : Except Fault Value := do
  let kind ← (c.kind.orElse (.str "CLASS")).text "upper"
  return .record [("id", c.id), ("name", c.name), ("full_name", c.fullName.orElse c.name),
    ("package_name", c.packageName), ("file_path", c.filePath), ("type", .str (capitals kind)),
    ("super_class", c.superclass), ("implements", c.interface), ("is_abstract", .bool c.isAbstract),
    ("is_interface", .bool c.isInterface), ("start_line", .int c.startLine), ("end_line", .int c.endLine)]

/-- The signature of a method, made of its name and its arguments where none is given. -/
def SourceMethod.shownSignature (m : SourceMethod) : Except Fault Value :=
  if m.signature.truthy then .ok m.signature
  else (Value.joined ", " m.arguments).map fun arguments => .str (m.name.display ++ "(" ++ arguments ++ ")")

/-- The row of a method node. Name, package and file of the owner stand in where there is an owner. -/
def methodRow (index : ClassIndex) (m : SourceMethod) : Except Fault Value := do
  let owner ← index.resolveClass m.className
  let signature ← m.shownSignature
  return .record [("id", m.id), ("name", m.name), ("signature", signature),
    ("class_name", (owner.map (·.name)).getD m.className),
    ("package_name", (owner.map (·.packageName)).getD (.str "")),
    ("file_path", m.filePath.orElse ((owner.map (·.filePath)).getD (.str ""))), ("modifier", m.modifier),
    ("is_static", .bool m.isStatic), ("return_type", m.returnType), ("parameter_types", .list m.arguments),
    ("start_line", .int m.startLine), ("end_line", .int m.endLine)]

/-- An endpoint goes by its verb, in capitals, and its path. -/
def endpointId (e : SourceEndpoint) : Except Fault String := do
  return capitals (← e.verb.text "upper") ++ " " ++ e.path.display

def endpointRow (e : SourceEndpoint) : Except Fault Value := do
  return .record [("id", .str (← endpointId e)), ("path", e.path),
    ("method", .str (capitals (← e.verb.text "upper")))]

/-- The row of an edge. -/
def edgeRow (source target : Value) : Value := .record [("src", source), ("dst", target)]

/-- A method belongs to the class that its class name means. -/
def containsRow? (index : ClassIndex) (m : SourceMethod) : Except Fault (Option Value) := do
  return (← index.resolveClass m.className).map fun owner => edgeRow owner.id m.id

/-- The calls of one method to methods of the snapshot, each once. `seen` holds the calls found. -/
def callsFrom (ids : List Value) (caller : Value) :
    List (Value × Value) → List Value → Except Fault (List (Value × Value))
  | seen, [] => .ok seen
  | seen, target :: rest => do
    let target ← target.asKey
    if ids.any (·.same target) && !seen.any (fun call => call.1.same caller && call.2.same target) then
      callsFrom ids caller (seen ++ [(caller, target)]) rest
    else callsFrom ids caller seen rest

/-- The calls between methods of the snapshot, in order and without repetition. -/
def callsOf (ids : List Value) : List (Value × Value) → List SourceMethod → Except Fault (List (Value × Value))
  | seen, [] => .ok seen
  | seen, m :: rest => do callsOf ids (← callsFrom ids m.id seen m.callees) rest

/-- The names by which methods refer to the controller of an endpoint. -/
def controllerNames (index : ClassIndex) (e : SourceEndpoint) : Except Fault (List Value) := do
  let controller ← index.resolveClass e.controller
  let own ← e.controller.asKey
  match controller with
  | none => return [own]
  | some c => return [own, ← c.name.asKey, ← c.fullName.asKey]

/-- The first method with the name of the handler whose class is named so. -/
def findHandler (names : List Value) (handler : Value) : List SourceMethod → Except Fault (Option SourceMethod)
  | [] => .ok none
  | m :: rest => do
    if m.name.same handler then
      let owner ← m.className.asKey
      if names.any (·.same owner) then return some m else findHandler names handler rest
    else findHandler names handler rest

def handledByRow? (index : ClassIndex) (methods : List SourceMethod) (e : SourceEndpoint) :
    Except Fault (Option Value) := do
  let names ← controllerNames index e
  match ← findHandler names e.handler methods with
  | none => return none
  | some m => return some (edgeRow (.str (← endpointId e)) m.id)

/-- A class extends the class that its superclass means, unless that is the class itself. -/
def extendsRow? (index : ClassIndex) (c : SourceClass) : Except Fault (Option Value) := do
  match ← index.resolveClass c.superclass with
  | none => return none
  | some parent => if parent.id.same c.id then return none else return some (edgeRow c.id parent.id)

/-- How many rows a build wrote, and how long it took. -/
structure BuildCounts where
  classes : Nat
  methods : Nat
  endpoints : Nat
  contains : Nat
  calls : Nat
  handledBy : Nat
  inherits : Nat
  duration : Float
  deriving Inhabited

def BuildCounts.fields (c : BuildCounts) : List (String × Value) := [
  ("classes", .int c.classes), ("methods", .int c.methods), ("endpoints", .int c.endpoints),
  ("contains", .int c.contains), ("calls", .int c.calls), ("handled_by", .int c.handledBy),
  ("extends", .int c.inherits), ("duration_seconds", .float c.duration)]

def BuildCounts.summary (c : BuildCounts) : String :=
  "GraphBuild: " ++ toString c.classes ++ " classes, " ++ toString c.methods ++ " methods, " ++
    toString c.endpoints ++ " endpoints | CONTAINS=" ++ toString c.contains ++ " CALLS=" ++ toString c.calls ++
    " HANDLED_BY=" ++ toString c.handledBy ++ " EXTENDS=" ++ toString c.inherits ++ " in " ++
    fixedFloat 1 c.duration ++ "s"

/-- Asks for every index; one that exists already is refused, and that is fine. -/
def createIndexes (graph : Nat) : List GraphIndex → Routine Unit
  | [] => return
  | index :: rest => do
    Routine.rescue (do let _ ← GraphClient.run graph (.createIndex index)) fun _ => return
    createIndexes graph rest

/-- Writes rows in groups; nothing is sent for no rows. -/
def writeRows (graph : Nat) (size : Value) (statement : Statement) (rows : List Value) : Routine Nat :=
  if rows.isEmpty then return 0 else GraphClient.sendBatched graph statement rows size (.str "rows")

/-- Writes a snapshot into the graph: the nodes first, then the edges between them. -/
def buildGraph (graph : Nat) (size : Value) (s : Snapshot) : Routine BuildCounts := do
  let start ← Routine.now
  createIndexes graph GraphIndex.all
  let index ← ClassIndex.ofClasses s.classes
  let classRows ← Routine.ofExcept (s.classes.mapM classRow)
  let methodRows ← Routine.ofExcept (s.methods.mapM (methodRow index))
  let ids ← Routine.ofExcept ((s.methods.map SourceMethod.id).mapM Value.asKey)
  let classes ← writeRows graph size .mergeClasses classRows
  let methods ← writeRows graph size .mergeMethods methodRows
  let endpointRows ← Routine.ofExcept (s.endpoints.mapM endpointRow)
  let endpoints ← writeRows graph size .mergeEndpoints endpointRows
  let containsRows ← Routine.ofExcept (s.methods.mapM (containsRow? index))
  let contains ← writeRows graph size .mergeContains (containsRows.filterMap id)
  let calls ← callsOf ids [] s.methods
  let calls ← writeRows graph size .mergeCalls (calls.map fun (source, target) => edgeRow source target)
  let handledRows ← Routine.ofExcept (s.endpoints.mapM (handledByRow? index s.methods))
  let handledBy ← writeRows graph size .mergeHandledBy (handledRows.filterMap id)
  let extendsRows ← Routine.ofExcept (s.classes.mapM (extendsRow? index))
  let inherits ← writeRows graph size .mergeExtends (extendsRows.filterMap id)
  let stop ← Routine.now
  return { classes, methods, endpoints, contains, calls, handledBy, inherits, duration := stop - start }

end CodeAtlas
