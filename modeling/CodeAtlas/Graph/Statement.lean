import CodeAtlas.Value

namespace CodeAtlas

/-- The properties that get an index in the graph. -/
inductive GraphIndex where
  | classId
  | className
  | methodId
  | methodName
  | endpointId
  deriving DecidableEq, Inhabited, Repr

def GraphIndex.all : List GraphIndex := [.classId, .className, .methodId, .methodName, .endpointId]

/-- What is asked of the graph server. All but the last are the statements of this library. -/
inductive Statement where
  | createIndex (index : GraphIndex)
  | mergeClasses
  | mergeMethods
  | mergeEndpoints
  | mergeContains
  | mergeCalls
  | mergeHandledBy
  | mergeExtends
  | undescribedMethods
  | createDescription
  | describedMethods
  | classesToIndex
  | allClasses
  | allMethods
  | probe
  | raw (text : Value)
  deriving Inhabited

def GraphIndex.text : GraphIndex → String
  | .classId => "CREATE INDEX FOR (c:Class) ON (c.id)"
  | .className => "CREATE INDEX FOR (c:Class) ON (c.name)"
  | .methodId => "CREATE INDEX FOR (m:Method) ON (m.id)"
  | .methodName => "CREATE INDEX FOR (m:Method) ON (m.name)"
  | .endpointId => "CREATE INDEX FOR (e:Endpoint) ON (e.id)"

/-- Writes the node of a label for every row and sets the properties from the row. -/
def mergeNodes (letter label : String) (properties : List String) : String :=
  "\nUNWIND $rows AS row\nMERGE (" ++ letter ++ ":" ++ label ++ " \x7bid: row.id\x7d)\nSET " ++
    ",\n    ".intercalate (properties.map fun p => letter ++ "." ++ p ++ " = row." ++ p) ++ "\n"

/-- Writes an edge for every row whose two ends exist. -/
def mergeEdges (source sourceLabel target targetLabel edge : String) : String :=
  "\nUNWIND $rows AS row\nMATCH (" ++ source ++ ":" ++ sourceLabel ++ " \x7bid: row.src\x7d), (" ++
    target ++ ":" ++ targetLabel ++ " \x7bid: row.dst\x7d)\nMERGE (" ++ source ++ ")-[:" ++ edge ++ "]->(" ++
    target ++ ")\n"

/-- Returns the properties of every node of a label under their own names, then the given columns. -/
def returning (letter label condition : String) (properties further : List String) : String :=
  "\nMATCH (" ++ letter ++ ":" ++ label ++ ")" ++ condition ++ "\nRETURN " ++
    ",\n       ".intercalate (properties.map (fun p => letter ++ "." ++ p ++ " AS " ++ p) ++ further) ++ "\n"

def classProperties : List String :=
  ["name", "full_name", "package_name", "file_path", "type", "super_class", "implements", "is_abstract",
    "is_interface", "start_line", "end_line"]

def methodProperties : List String :=
  ["name", "signature", "class_name", "package_name", "file_path", "modifier", "is_static", "return_type",
    "parameter_types", "start_line", "end_line"]

/-- How many methods one enrichment takes up at most. -/
def maxMethodsPerRun : Nat := 1000

/-- The description of a node, null when it has none. -/
def firstDescription (letter : String) : String :=
  "head([(" ++ letter ++ ")-[:HAS_DESCRIPTION]->(d:Description) | d.content]) AS description"

def containedNames : String := "[(c)-[:CONTAINS]->(m:Method) | m.name] AS method_names"

def Statement.text : Statement → Value
  | .createIndex index => .str index.text
  | .mergeClasses => .str (mergeNodes "c" "Class" classProperties)
  | .mergeMethods => .str (mergeNodes "m" "Method" methodProperties)
  | .mergeEndpoints => .str (mergeNodes "e" "Endpoint" ["path", "method"])
  | .mergeContains => .str (mergeEdges "c" "Class" "m" "Method" "CONTAINS")
  | .mergeCalls => .str (mergeEdges "a" "Method" "b" "Method" "CALLS")
  | .mergeHandledBy => .str (mergeEdges "e" "Endpoint" "m" "Method" "HANDLED_BY")
  | .mergeExtends => .str (mergeEdges "a" "Class" "b" "Class" "EXTENDS")
  | .undescribedMethods =>
    .str (returning "m" "Method" "\nWHERE NOT (m)-[:HAS_DESCRIPTION]->(:Description)"
      ["id", "name", "signature", "class_name", "file_path", "return_type", "start_line", "end_line"] [] ++
      "LIMIT " ++ toString maxMethodsPerRun ++ "\n")
  | .createDescription =>
    .str ("\nMATCH (m:Method \x7bid: $method_id\x7d)\nCREATE (d:Description \x7b\n    id: $description_id,\n" ++
      "    content: $content,\n    type: 'llm_generated',\n    source_file: $source_file\n\x7d)\n" ++
      "CREATE (m)-[:HAS_DESCRIPTION]->(d)\nRETURN count(d) AS created\n")
  | .describedMethods =>
    .str (returning "m" "Method" "-[:HAS_DESCRIPTION]->(d:Description)"
      ["id", "name", "signature", "class_name", "package_name"] ["head(collect(d.content)) AS description"])
  | .classesToIndex =>
    .str (returning "c" "Class" "" ["id", "name", "full_name", "package_name"]
      [containedNames, firstDescription "c"])
  | .allClasses =>
    .str (returning "c" "Class" "" ["id", "name", "full_name", "package_name", "file_path", "type", "super_class"]
      [containedNames, firstDescription "c"] ++ "ORDER BY c.name\n")
  | .allMethods =>
    .str (returning "m" "Method" ""
      ["id", "name", "signature", "class_name", "package_name", "file_path", "return_type", "parameter_types"]
      [firstDescription "m"] ++ "ORDER BY m.class_name, m.name\n")
  | .probe => .str "RETURN 1"
  | .raw text => text

/-- A node that an answer holds, with the labels and the identity that it may lack. -/
structure GraphNode where
  properties : Value
  labels : Option Value
  id : Option Value
  deriving Inhabited

inductive Cell where
  | plain (v : Value)
  | node (n : GraphNode)
  deriving Inhabited

/-- A row of an answer; a row that is no list of cells is kept as it came. -/
inductive Row where
  | cells (cs : List Cell)
  | other (v : Value)
  deriving Inhabited

/-- An answer of the graph server: the column headers and the rows. -/
structure Table where
  header : Value
  rows : List Row
  deriving Inhabited

end CodeAtlas
