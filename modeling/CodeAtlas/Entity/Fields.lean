import CodeAtlas.Entity

namespace CodeAtlas

/-- Refuses keys outside the given ones, and then the lack of one that is required. -/
def checkKeys (owner : String) (required optional : List String) (given : List (Value × Value)) :
    Except Fault Unit :=
  let known : Value → Bool
    | .str key => required.contains key || optional.contains key
    | _ => false
  match given.find? fun (k, _) => !known k with
  | some (k, _) => .error (.mismatch (.unexpectedKey owner k.display))
  | none =>
    let absent := required.filter fun key => (Value.lookup key given).isNone
    if absent.isEmpty then .ok () else .error (.mismatch (.missingKeys owner absent))

/-- The value of a key, or the given one when it is absent. -/
def valueIn (given : List (Value × Value)) (key : String) (other : Value) : Value :=
  (Value.lookup key given).getD other

def ClassSort.ofValue (v : Value) : Except Fault ClassSort :=
  match v with
  | .str name =>
    match ClassSort.ofName? name with
    | some sort => .ok sort
    | none => .error (.invalid (.notMember v "ClassType"))
  | _ => .error (.invalid (.notMember v "ClassType"))

def ClassEntity.fields (c : ClassEntity) : List (String × Value) := [
  ("id", c.id), ("name", c.name), ("full_name", c.fullName), ("package_name", c.packageName),
  ("file_path", c.filePath), ("description", c.description), ("super_class", c.superclass),
  ("class_type", .str c.sort.name), ("method_names", c.methodNames)]

/-- A class from keys and values; only its id and its name are required. -/
def ClassEntity.ofFields (given : List (Value × Value)) : Except Fault ClassEntity := do
  let sort ← ClassSort.ofValue (valueIn given "class_type" (.str ClassSort.plain.name))
  checkKeys "ClassEntity" ["id", "name"] ["full_name", "package_name", "file_path", "description", "super_class",
    "class_type", "method_names"] given
  let value := valueIn given
  return {
    id := value "id" .null
    name := value "name" .null
    fullName := value "full_name" (.str "")
    packageName := value "package_name" (.str "")
    filePath := value "file_path" (.str "")
    description := value "description" .null
    superclass := value "super_class" .null
    sort
    methodNames := value "method_names" (.list []) }

def MethodEntity.fields (m : MethodEntity) : List (String × Value) := [
  ("id", m.id), ("name", m.name), ("signature", m.signature), ("class_name", m.className),
  ("package_name", m.packageName), ("file_path", m.filePath), ("description", m.description),
  ("return_type", m.returnType), ("parameter_types", m.parameterTypes)]

/-- A method from keys and values; only its id and its name are required. -/
def MethodEntity.ofFields (given : List (Value × Value)) : Except Fault MethodEntity := do
  checkKeys "MethodEntity" ["id", "name"] ["signature", "class_name", "package_name", "file_path", "description",
    "return_type", "parameter_types"] given
  let value := valueIn given
  return {
    id := value "id" .null
    name := value "name" .null
    signature := value "signature" (.str "")
    className := value "class_name" (.str "")
    packageName := value "package_name" (.str "")
    filePath := value "file_path" (.str "")
    description := value "description" .null
    returnType := value "return_type" (.str "")
    parameterTypes := value "parameter_types" (.list []) }

def Match.fields (m : Match) : List (String × Value) := [
  ("name", m.name), ("score", m.score), ("kind", .str m.kind.name), ("full_name", m.fullName),
  ("package_name", m.packageName), ("signature", m.signature), ("class_name", m.className)]

/-- A selection from keys and values; a list that is absent is empty. -/
def Selection.ofFields (given : List (Value × Value)) : Except Fault Selection := do
  checkKeys "ExtractedEntities" [] ["classes", "methods", "packages", "terms"] given
  let list (key : String) : Value := valueIn given key (.list [])
  return { classes := list "classes", methods := list "methods", packages := list "packages",
           terms := list "terms" }

/-- The keys and values of a record, as they stand in a dictionary. -/
def keyed (fields : List (String × Value)) : List (Value × Value) :=
  fields.map fun (key, v) => (.str key, v)

theorem ClassEntity.ofFields_fields (c : ClassEntity) : ofFields (keyed c.fields) = .ok c := by
  obtain ⟨id, name, fullName, packageName, filePath, description, superclass, sort, methodNames⟩ := c
  cases sort <;> rfl

theorem MethodEntity.ofFields_fields (m : MethodEntity) : ofFields (keyed m.fields) = .ok m := rfl

theorem Selection.ofFields_fields (s : Selection) : ofFields (keyed s.fields) = .ok s := rfl

end CodeAtlas
