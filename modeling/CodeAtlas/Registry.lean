import CodeAtlas.Graph.Client

namespace CodeAtlas.Registry

/-- Replaces the population. -/
def load (classes : List ClassEntity) (methods : List MethodEntity) (r : Registry) : Registry :=
  { r with classes, methods, loaded := true }

/-- Reads the population from the graph. Nothing changes unless both queries and all records are
good. -/
def refresh (n : Nat) : Routine (Nat × Nat) := do
  let registry ← Routine.view (·.registry n)
  match registry.graph with
  | none => Routine.fail (.failure .noGraph)
  | some graph =>
    let classRecords ← GraphClient.run graph .allClasses
    let methodRecords ← GraphClient.run graph .allMethods
    let classes ← Routine.ofExcept (classRecords.mapM ClassEntity.ofRecord)
    let methods ← Routine.ofExcept (methodRecords.mapM MethodEntity.ofRecord)
    Routine.change (Memory.onRegistry n (load classes methods))
    return (classes.length, methods.length)

def allClasses (n : Nat) : Routine (List ClassEntity) := Routine.view fun m => (m.registry n).classes

def allMethods (n : Nat) : Routine (List MethodEntity) := Routine.view fun m => (m.registry n).methods

end CodeAtlas.Registry
