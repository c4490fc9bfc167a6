import CodeAtlas.Graph.Statement
import CodeAtlas.Proofs.Keys

namespace CodeAtlas

/-- A node of a graph. The properties that it lacks are null. -/
structure Graph.Node where
  labels : List String
  properties : String → Value

/-- An edge between the nodes at two places, with its type and its properties. -/
structure Graph.Edge where
  source : Nat
  type : String
  target : Nat
  properties : String → Value

/-- What a graph server keeps. Nodes are known by their places. -/
structure Graph where
  nodes : List Graph.Node
  edges : List Graph.Edge

namespace Graph

/-- Whether a node is one of a label and an identity. -/
def Node.has (label : String) (id : Value) (n : Node) : Bool := n.labels.contains label && (n.properties "id").same id

/-- Sets the given properties from the fields of a row. -/
def Node.set (names : List String) (row : Value) (n : Node) : Node :=
  { n with properties := fun p => if p ∈ names then row.field p else n.properties p }

/-- A node of which only the label and the identity are known. -/
def Node.fresh (label : String) (id : Value) : Node := ⟨[label], fun p => if p = "id" then id else .null⟩

def Edge.joins (source : Nat) (type : String) (target : Nat) (e : Edge) : Bool :=
  e.source == source && e.type == type && e.target == target

/-- The places of the nodes of a label and an identity. -/
def places (g : Graph) (label : String) (id : Value) : List Nat :=
  (g.nodes.zipIdx.filter (·.1.has label id)).map (·.2)

/-- Sets properties of the nodes of a label and an identity, of a new one where there is none. -/
def mergeNode (label : String) (names : List String) (g : Graph) (row : Value) : Graph :=
  if g.nodes.any (Node.has label (row.field "id")) then
    { g with nodes := g.nodes.map fun n => if n.has label (row.field "id") then n.set names row else n }
  else { g with nodes := g.nodes ++ [(Node.fresh label (row.field "id")).set names row] }

/-- Joins two nodes, unless an edge of that type joins them already. -/
def join (type : String) (g : Graph) (ends : Nat × Nat) : Graph :=
  if g.edges.any (Edge.joins ends.1 type ends.2) then g
  else { g with edges := g.edges ++ [⟨ends.1, type, ends.2, fun _ => .null⟩] }

/-- The places that a row says to join: those of its source with those of its target. -/
def ends (sourceLabel targetLabel : String) (g : Graph) (row : Value) : List (Nat × Nat) :=
  (g.places sourceLabel (row.field "src")).flatMap fun i => (g.places targetLabel (row.field "dst")).map (i, ·)

def mergeEdge (sourceLabel type targetLabel : String) (g : Graph) (row : Value) : Graph :=
  (g.ends sourceLabel targetLabel row).foldl (join type) g

/-- What a statement does with each of its rows. -/
inductive Merge where
  | node (label : String) (names : List String)
  | edge (sourceLabel type targetLabel : String)

/-- The text of a statement that does so. -/
def Merge.text (first second : String) : Merge → String
  | .node label names => mergeNodes first label names
  | .edge sourceLabel type targetLabel => mergeEdges first sourceLabel second targetLabel type

end Graph

def Statement.merge? : Statement → Option Graph.Merge
  | .mergeClasses => some (.node "Class" classProperties)
  | .mergeMethods => some (.node "Method" methodProperties)
  | .mergeEndpoints => some (.node "Endpoint" ["path", "method"])
  | .mergeContains => some (.edge "Class" "CONTAINS" "Method")
  | .mergeCalls => some (.edge "Method" "CALLS" "Method")
  | .mergeHandledBy => some (.edge "Endpoint" "HANDLED_BY" "Method")
  | .mergeExtends => some (.edge "Class" "EXTENDS" "Class")
  | _ => none

/-- The statements that merge are those whose texts say so. -/
theorem Statement.text_of_merge {statement : Statement} {merge : Graph.Merge} (merges : statement.merge? = some merge) :
    ∃ first second, statement.text = .str (merge.text first second) := by
  cases statement with
  | mergeClasses => cases merges; exact ⟨"c", "", rfl⟩
  | mergeMethods => cases merges; exact ⟨"m", "", rfl⟩
  | mergeEndpoints => cases merges; exact ⟨"e", "", rfl⟩
  | mergeContains => cases merges; exact ⟨"c", "m", rfl⟩
  | mergeCalls => cases merges; exact ⟨"a", "b", rfl⟩
  | mergeHandledBy => cases merges; exact ⟨"e", "m", rfl⟩
  | mergeExtends => cases merges; exact ⟨"a", "b", rfl⟩
  | _ => cases merges

namespace Graph

/-- A row and what is done with it. -/
structure Write where
  merge : Merge
  row : Value

/-- A write of a node whose identity is a text, and which it leaves alone. -/
def Write.OfNode (w : Write) : Prop :=
  ∃ label names, w.merge = .node label names ∧ "id" ∉ names ∧ (w.row.field "id").IsText

def Write.OfEdge (w : Write) : Prop := ∃ sourceLabel type targetLabel, w.merge = .edge sourceLabel type targetLabel

def write (g : Graph) (w : Write) : Graph :=
  match w.merge with
  | .node label names => g.mergeNode label names w.row
  | .edge sourceLabel type targetLabel => g.mergeEdge sourceLabel type targetLabel w.row

def writeAll (g : Graph) (writes : List Write) : Graph := writes.foldl write g

@[simp] theorem writeAll_nil (g : Graph) : g.writeAll [] = g := rfl

theorem writeAll_append (g : Graph) (first second : List Write) :
    g.writeAll (first ++ second) = (g.writeAll first).writeAll second := List.foldl_append

theorem writeAll_snoc (g : Graph) (writes : List Write) (w : Write) :
    g.writeAll (writes ++ [w]) = (g.writeAll writes).write w := by
  rw [writeAll_append]
  rfl

end Graph

end CodeAtlas
