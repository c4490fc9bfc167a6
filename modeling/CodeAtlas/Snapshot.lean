import CodeAtlas.Value.Access

namespace CodeAtlas

/-- A class as the analysis of a code base describes it. -/
structure SourceClass where
  name : Value
  fullName : Value
  packageName : Value
  filePath : Value
  kind : Value
  superclass : Value
  interface : Value
  isAbstract : Bool
  isInterface : Bool
  annotations : List Value
  startLine : Int
  endLine : Int
  deriving Inhabited

/-- A method as the analysis describes it. -/
structure SourceMethod where
  name : Value
  signature : Value
  className : Value
  filePath : Value
  modifier : Value
  isStatic : Bool
  returnType : Value
  arguments : List Value
  annotations : List Value
  startLine : Int
  endLine : Int
  callees : List Value
  deriving Inhabited

/-- An address that the code base answers, and the method that does it. -/
structure SourceEndpoint where
  path : Value
  verb : Value
  controller : Value
  handler : Value
  deriving Inhabited

/-- The structure of a code base at one moment. -/
structure Snapshot where
  classes : List SourceClass
  methods : List SourceMethod
  endpoints : List SourceEndpoint
  deriving Inhabited

/-- A class goes by its full name, and by its simple name when it has no other. -/
def SourceClass.id (c : SourceClass) : Value := c.fullName.orElse c.name

/-- A method goes by its signature; one without is named after its class and itself. -/
def SourceMethod.id (m : SourceMethod) : Value :=
  m.signature.orElse (.str (m.className.display ++ "." ++ m.name.display))

/-- A snapshot without classes and methods has nothing to take in. -/
def Snapshot.isEmpty (s : Snapshot) : Bool := s.classes.isEmpty && s.methods.isEmpty

/-- The first of the keys that is there with a value, or else the given one. -/
def Value.pick (data other : Value) : List String → Except Fault Value
  | [] => .ok other
  | key :: rest => do
    if ← data.has key then
      let v ← data.entry key
      if v.isNull then data.pick other rest else return v
    else data.pick other rest

/-- In a dictionary the keys are tried in their order. -/
theorem Value.pick_dict (entries : List (Value × Value)) (other : Value) (keys : List String) :
    (Value.dict entries).pick other keys =
      .ok ((keys.findSome? fun key => (lookup key entries).filter (!·.isNull)).getD other) := by
  induction keys with
  | nil => rfl
  | cons key rest ih =>
    cases found : lookup key entries with
    | none => simp [pick, has, found, ih, bind, Except.bind]
    | some v =>
      cases null : v.isNull <;>
        simp [pick, has, entry, found, null, ih, bind, Except.bind, pure, Except.pure, Option.filter]

def SourceClass.ofValue (data : Value) : Except Fault SourceClass := do
  let name ← data.pick (.str "") ["name"]
  let fullName ← data.pick (.str "") ["fullName", "full_name"]
  let packageName ← data.pick (.str "") ["packageName", "package_name"]
  let filePath ← data.pick (.str "") ["filePath", "file_path"]
  let kind ← data.pick (.str "CLASS") ["type"]
  let superclass ← data.pick .null ["extendsClass", "extends_class"]
  let interface ← data.pick .null ["implementsClass", "implements_class"]
  let isAbstract ← data.pick (.bool false) ["isAbstract", "is_abstract"]
  let isInterface ← data.pick (.bool false) ["isInterface", "is_interface"]
  let annotations ← (← data.pick (.list []) ["annotations"]).elements
  let startLine ← (← data.pick (.int 0) ["startLine", "start_line"]).toInt
  let endLine ← (← data.pick (.int 0) ["endLine", "end_line"]).toInt
  return {
    name, fullName, packageName, filePath, kind, superclass, interface
    isAbstract := isAbstract.truthy
    isInterface := isInterface.truthy
    annotations, startLine, endLine }

def SourceMethod.ofValue (data : Value) : Except Fault SourceMethod := do
  let name ← data.pick (.str "") ["name"]
  let signature ← data.pick (.str "") ["fullSignature", "full_signature"]
  let className ← data.pick (.str "") ["className", "class_name"]
  let filePath ← data.pick (.str "") ["filePath", "file_path"]
  let modifier ← data.pick (.str "") ["modifier"]
  let isStatic ← data.pick (.bool false) ["isStatic", "is_static"]
  let returnType ← data.pick (.str "") ["returnType", "return_type"]
  let arguments ← (← data.pick (.list []) ["arguments"]).elements
  let annotations ← (← data.pick (.list []) ["annotations"]).elements
  let startLine ← (← data.pick (.int 0) ["startLine", "start_line"]).toInt
  let endLine ← (← data.pick (.int 0) ["endLine", "end_line"]).toInt
  let callees ← (← data.pick (.list []) ["callsTo", "calls_to"]).elements
  return {
    name, signature, className, filePath, modifier
    isStatic := isStatic.truthy
    returnType, arguments, annotations, startLine, endLine, callees }

def SourceEndpoint.ofValue (data : Value) : Except Fault SourceEndpoint := do
  let path ← data.pick (.str "") ["path"]
  let verb ← data.pick (.str "GET") ["method"]
  let controller ← data.pick (.str "") ["controllerClass", "controller_class"]
  let handler ← data.pick (.str "") ["handlerMethod", "handler_method"]
  return { path, verb, controller, handler }

/-- Reads a snapshot from the answer of the analysis, in either spelling of its keys. Keys that it
does not know are passed over, and a null counts as absent. -/
def Snapshot.ofValue (data : Value) : Except Fault Snapshot := do
  let classes ← (← ((← data.get "classes").orElse (.list [])).elements).mapM SourceClass.ofValue
  let methods ← (← ((← data.get "methods").orElse (.list [])).elements).mapM SourceMethod.ofValue
  let given ← (← data.pick (.list []) ["apiEndpoints", "api_endpoints"]).elements
  let endpoints ← given.mapM SourceEndpoint.ofValue
  return { classes, methods, endpoints }

end CodeAtlas
