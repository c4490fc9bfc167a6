import CodeAtlas.Entity.Fields
import CodeAtlas.Settings.Section

namespace CodeAtlas

/-- The two places where data is kept apart. -/
inductive Deployment where
  | test
  | prod
  deriving DecidableEq, Inhabited, Repr

def Deployment.name : Deployment → String
  | .test => "test"
  | .prod => "prod"

def Deployment.ofValue (v : Value) : Except Fault Deployment :=
  match v with
  | .str "test" => .ok .test
  | .str "prod" => .ok .prod
  | _ => .error (.invalid (.notMember v "Environment"))

/-- The graph and the collections of a deployment. -/
structure DeploymentNames where
  name : Value
  graph : Value
  classCollection : Value
  methodCollection : Value
  description : Value
  deriving Inhabited

/-- The two deployments share no graph and no collection. -/
def Deployment.names : Deployment → DeploymentNames
  | .test => ⟨.str "test", .str "astkg_test", .str "astkg_test_classes", .str "astkg_test_methods",
      .str "Scratch graph for local runs and experiments"⟩
  | .prod => ⟨.str "prod", .str "astkg_prod", .str "classes", .str "methods", .str "Graph serving real queries"⟩

/-- The deployment in force: the variable when it names one, or else the one that was chosen. -/
def Deployment.current (env : Environment) (chosen : Deployment) : Deployment :=
  let word := smallLetters ((env.get? "ASTKG_ENV").getD "")
  if word = "prod" then .prod else if word = "test" then .test else chosen

def DeploymentNames.fields (n : DeploymentNames) : List (String × Value) := [
  ("name", n.name), ("falkordb_graph", n.graph), ("class_collection", n.classCollection),
  ("method_collection", n.methodCollection), ("description", n.description)]

/-- The names from a dictionary that gives each of them and nothing else. -/
def DeploymentNames.ofFields (given : List (Value × Value)) : Except Fault DeploymentNames := do
  checkKeys "EnvironmentConfig"
    ["name", "falkordb_graph", "class_collection", "method_collection", "description"] []
    given
  let value (key : String) : Value := valueIn given key .null
  return { name := value "name", graph := value "falkordb_graph", classCollection := value "class_collection",
           methodCollection := value "method_collection", description := value "description" }

theorem DeploymentNames.ofFields_fields (n : DeploymentNames) : ofFields (keyed n.fields) = .ok n := rfl

end CodeAtlas
