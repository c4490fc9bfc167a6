import CodeAtlas.Text.Capital
import CodeAtlas.Value.Access

namespace CodeAtlas

/-- The two kinds of entities that a search tells apart. -/
inductive Kind where
  | classes
  | methods
  deriving DecidableEq, Inhabited, Repr

def Kind.name : Kind → String
  | .classes => "class"
  | .methods => "method"

def Kind.ofValue (v : Value) : Except Fault Kind :=
  match v with
  | .str "class" => .ok .classes
  | .str "method" => .ok .methods
  | _ => .error (.invalid (.notMember v "EntityKind"))

/-- The sorts of declarations that count as classes. -/
inductive ClassSort where
  | plain
  | interface
  | enumeration
  | annotationType
  | record
  deriving DecidableEq, Inhabited, Repr

def ClassSort.all : List ClassSort := [.plain, .interface, .enumeration, .annotationType, .record]

def ClassSort.name : ClassSort → String
  | .plain => "CLASS"
  | .interface => "INTERFACE"
  | .enumeration => "ENUM"
  | .annotationType => "ANNOTATION"
  | .record => "RECORD"

def ClassSort.ofName? (name : String) : Option ClassSort :=
  ClassSort.all.find? (·.name == name)

theorem ClassSort.ofName?_name (s : ClassSort) : ofName? s.name = some s := by
  cases s <;> decide

/-- A class in the population that queries search. -/
structure ClassEntity where
  id : Value
  name : Value
  fullName : Value
  packageName : Value
  filePath : Value
  description : Value
  superclass : Value
  sort : ClassSort
  methodNames : Value
  deriving Inhabited

/-- A method in that population. -/
structure MethodEntity where
  id : Value
  name : Value
  signature : Value
  className : Value
  packageName : Value
  filePath : Value
  description : Value
  returnType : Value
  parameterTypes : Value
  deriving Inhabited

/-- What a search finds: the name of an entity and how close it is. -/
structure Match where
  name : Value
  score : Value
  kind : Kind
  fullName : Value
  packageName : Value
  signature : Value
  className : Value
  deriving Inhabited

/-- A match that carries nothing beside its name, score and kind. -/
def Match.bare (name score : Value) (kind : Kind) : Match :=
  ⟨name, score, kind, .null, .null, .null, .null⟩

/-- A match in one line, its score with three places. -/
def Match.text (m : Match) : Except Fault String := do
  return "<SimilarEntity(" ++ m.kind.name ++ ":" ++ m.name.display ++ ", score=" ++ (← m.score.fixed 3) ++ ")>"

/-- The names that a query is found to be about. -/
structure Selection where
  classes : Value
  methods : Value
  packages : Value
  terms : Value
  deriving Inhabited

namespace Selection

def empty : Selection := ⟨.list [], .list [], .list [], .list []⟩

def hasEntities (s : Selection) : Bool :=
  s.classes.truthy || s.methods.truthy || s.packages.truthy || s.terms.truthy

def fields (s : Selection) : List (String × Value) :=
  [("classes", s.classes), ("methods", s.methods), ("packages", s.packages), ("terms", s.terms)]

/-- Classes, methods, packages and terms as one list. -/
def all (s : Selection) : Except Fault (List Value) := do
  return (← s.classes.elements) ++ (← s.methods.elements) ++ (← s.packages.elements) ++ (← s.terms.elements)

end Selection

/-- The sort that a record names, in letters of any case; whatever is no sort is a plain class. -/
def sortOfRecord (v : Value) : Except Fault ClassSort := do
  let name ← (v.orElse (.str "CLASS")).text "upper"
  return (ClassSort.ofName? (capitals name)).getD .plain

/-- The field of a record, or the given one where it is missing or empty. -/
def Value.given (record : Value) (key : String) (other : Value) : Except Fault Value := do
  return (← record.get key).orElse other

/-- A class of the population from a record of the graph. -/
def ClassEntity.ofRecord (record : Value) : Except Fault ClassEntity := do
  let name ← record.getD "name" (.str "")
  let id ← record.given "id" (← record.given "full_name" name)
  let sort ← sortOfRecord (← record.get "type")
  let methodNames ← (← record.given "method_names" (.list [])).elements
  return {
    id
    name := ← record.given "name" (.str "")
    fullName := ← record.given "full_name" (.str "")
    packageName := ← record.given "package_name" (.str "")
    filePath := ← record.given "file_path" (.str "")
    description := ← record.get "description"
    superclass := ← record.get "super_class"
    sort
    methodNames := .list methodNames }

/-- A method of the population from a record of the graph. -/
def MethodEntity.ofRecord (record : Value) : Except Fault MethodEntity := do
  let name ← record.getD "name" (.str "")
  let id ← record.given "id" (← record.given "signature" name)
  let parameterTypes ← (← record.given "parameter_types" (.list [])).elements
  return {
    id
    name := ← record.given "name" (.str "")
    signature := ← record.given "signature" (.str "")
    className := ← record.given "class_name" (.str "")
    packageName := ← record.given "package_name" (.str "")
    filePath := ← record.given "file_path" (.str "")
    description := ← record.get "description"
    returnType := ← record.given "return_type" (.str "")
    parameterTypes := .list parameterTypes }

end CodeAtlas
