import CodeAtlas.Yaml.Token

namespace CodeAtlas

/-- What the nodes of a document are: texts, lists and mappings. A place that stands for something
around it holds a loop. -/
inductive Node where
  | scalar (tag text : String) (mark : Mark)
  | sequence (tag : String) (items : List Node) (mark : Mark)
  | mapping (tag : String) (entries : List (Node × Node)) (mark : Mark)
  | loop (mark : Mark)
  deriving Inhabited

namespace Node

def mark : Node → Mark
  | .scalar _ _ m => m
  | .sequence _ _ m => m
  | .mapping _ _ m => m
  | .loop m => m

def tag : Node → String
  | .scalar t _ _ => t
  | .sequence t _ _ => t
  | .mapping t _ _ => t
  | .loop _ => ""

/-- The shape of a node as messages name it. -/
def shape : Node → String
  | .scalar .. => "scalar"
  | .sequence .. => "sequence"
  | .mapping .. => "mapping"
  | .loop _ => "sequence"

end Node

/-- The names of the tags that this library understands. -/
def tagSpace : String := "tag:yaml.org,2002:"

def standardTag (name : String) : String := tagSpace ++ name

end CodeAtlas
