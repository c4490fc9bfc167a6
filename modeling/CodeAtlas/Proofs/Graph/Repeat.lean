import CodeAtlas.Proofs.Graph.Store
import Mathlib.Data.List.Induction

namespace CodeAtlas.Graph

namespace Write

def means (w : Write) (n : Node) : Bool :=
  match w.merge with
  | .node label _ => n.has label (w.row.field "id")
  | .edge .. => false

def names (w : Write) : List String :=
  match w.merge with
  | .node _ names => names
  | .edge .. => []

/-- The node that a write begins with when it is about none that is there. -/
def fresh (w : Write) : Node :=
  match w.merge with
  | .node label _ => .fresh label (w.row.field "id")
  | .edge .. => ⟨[], fun _ => .null⟩

/-- The value that a write gives to a property of a node. -/
def given (w : Write) (n : Node) (p : String) : Option Value :=
  if w.means n ∧ p ∈ w.names then some (w.row.field p) else none

theorem OfNode.leaves {w : Write} (node : w.OfNode) : "id" ∉ w.names := by
  obtain ⟨label, names, merges, leaves, _⟩ := node
  simpa only [Write.names, merges] using leaves

theorem OfNode.means_fresh {w : Write} (node : w.OfNode) : w.means w.fresh := by
  obtain ⟨label, names, merges, _, text⟩ := node
  simp [means, fresh, merges, Node.has, Node.fresh, (text.same_iff text).mpr rfl]

/-- Writes that are about the same new node are about the same nodes. -/
theorem OfNode.means_of_fresh {w other : Write} (node : w.OfNode) (node' : other.OfNode)
    (about : other.means w.fresh = true) {n : Node} (means : other.means n = true) : w.means n = true := by
  obtain ⟨label, names, merges, _, text⟩ := node
  obtain ⟨label', names', merges', _, text'⟩ := node'
  simp only [Write.means, Write.fresh, merges, merges', Node.has, Node.fresh, Bool.and_eq_true] at about means ⊢
  obtain ⟨labelled, same⟩ := about
  obtain rfl : label' = label := by simpa using labelled
  simp only [if_true] at same
  rw [(text.same_iff text').mp same]
  exact means

end Write

namespace Node

/-- What a write makes of a node that is there. -/
def take (n : Node) (w : Write) : Node := if w.means n then n.set w.names w.row else n

def takeAll (n : Node) (writes : List Write) : Node := writes.foldl take n

theorem takeAll_snoc (n : Node) (writes : List Write) (w : Write) :
    n.takeAll (writes ++ [w]) = (n.takeAll writes).take w := by
  rw [takeAll, List.foldl_append]
  rfl

theorem take_labels (n : Node) (w : Write) : (n.take w).labels = n.labels := by
  unfold take
  split <;> rfl

theorem take_properties (n : Node) (w : Write) (p : String) :
    (n.take w).properties p = (w.given n p).getD (n.properties p) := by
  by_cases about : w.means n = true
  · by_cases listed : p ∈ w.names <;> simp [take, Write.given, about, listed, set]
  · simp [take, Write.given, about]

theorem has_take (n : Node) {w : Write} (leaves : "id" ∉ w.names) (label : String) (id : Value) :
    (n.take w).has label id = n.has label id := by
  have unnamed : w.given n "id" = none := by simp [Write.given, leaves]
  rw [has, has, take_labels, take_properties, unnamed, Option.getD_none]

theorem means_take (n : Node) {w : Write} (leaves : "id" ∉ w.names) (other : Write) :
    other.means (n.take w) = other.means n := by
  unfold Write.means
  split
  · exact n.has_take leaves _ _
  · rfl

theorem given_take (n : Node) {w : Write} (leaves : "id" ∉ w.names) (other : Write) (p : String) :
    other.given (n.take w) p = other.given n p := by
  rw [Write.given, means_take n leaves, Write.given]

end Node

/-- The value that the last write about it gives to a property of a node. -/
def givenBy (writes : List Write) (n : Node) (p : String) : Option Value :=
  writes.reverse.findSome? (·.given n p)

theorem givenBy_append (first second : List Write) (n : Node) (p : String) :
    givenBy (first ++ second) n p = (givenBy second n p).or (givenBy first n p) := by
  rw [givenBy, List.reverse_append, List.findSome?_append]
  rfl

theorem givenBy_snoc (writes : List Write) (w : Write) (n : Node) (p : String) :
    givenBy (writes ++ [w]) n p = (w.given n p).or (givenBy writes n p) := by
  rw [givenBy_append, givenBy, List.reverse_singleton, List.findSome?_singleton]

namespace Node

variable {writes : List Write} {w : Write} {n : Node}

theorem means_takeAll (leave : ∀ w ∈ writes, "id" ∉ w.names) (other : Write) :
    other.means (n.takeAll writes) = other.means n := by
  induction writes using List.reverseRecOn with
  | nil => rfl
  | append_singleton writes w ih =>
    rw [takeAll_snoc, means_take _ (leave w (by simp)), ih fun w' inside => leave w' (by simp [inside])]

theorem takeAll_labels : (n.takeAll writes).labels = n.labels := by
  induction writes using List.reverseRecOn with
  | nil => rfl
  | append_singleton writes w ih => rw [takeAll_snoc, take_labels, ih]

theorem takeAll_properties (leave : ∀ w ∈ writes, "id" ∉ w.names) (p : String) :
    (n.takeAll writes).properties p = (givenBy writes n p).getD (n.properties p) := by
  induction writes using List.reverseRecOn with
  | nil => rfl
  | append_singleton writes w ih =>
    have before : ∀ w ∈ writes, "id" ∉ w.names := fun w' inside => leave w' (by simp [inside])
    rw [takeAll_snoc, take_properties, ih before, Write.given, means_takeAll before, ← Write.given, givenBy_snoc]
    cases w.given n p <;> rfl

/-- A node has settled on writes when it has what they give to it. -/
def Settled (writes : List Write) (n : Node) : Prop := ∀ p v, givenBy writes n p = some v → n.properties p = v

theorem Settled.take (settled : n.Settled writes) (leaves : "id" ∉ w.names) :
    (n.take w).Settled (writes ++ [w]) := by
  have same : ∀ ws p, givenBy ws (n.take w) p = givenBy ws n p := fun ws p => by
    simp only [givenBy, given_take n leaves]
  intro p v given
  rw [same, givenBy_snoc] at given
  rw [take_properties]
  cases here : w.given n p with
  | none => exact settled p v (by simpa [here] using given)
  | some x => simpa [here] using given

/-- The writes it has settled on leave a node as it is. -/
theorem Settled.takeAll_eq (settled : n.Settled writes) (leave : ∀ w ∈ writes, "id" ∉ w.names) :
    n.takeAll writes = n := by
  have properties : (n.takeAll writes).properties = n.properties := by
    funext p
    rw [takeAll_properties leave]
    cases given : givenBy writes n p with
    | none => rfl
    | some v => exact (settled p v given).symm
  cases n
  exact congrArg₂ Node.mk takeAll_labels properties

end Node

section Nodes

variable {g : Graph} {writes : List Write} {w : Write}

theorem write_present (node : w.OfNode) (present : g.nodes.any w.means = true) :
    g.write w = { g with nodes := g.nodes.map (·.take w) } := by
  obtain ⟨label, names, merges, _⟩ := node
  have about : w.means = Node.has label (w.row.field "id") := by
    funext n
    simp only [Write.means, merges]
  rw [about] at present
  simp only [write, merges, mergeNode, present, if_true, Node.take, about, Write.names]

theorem write_absent (node : w.OfNode) (absent : g.nodes.any w.means = false) :
    g.write w = { g with nodes := g.nodes ++ [w.fresh.take w] } := by
  have taken : w.fresh.take w = w.fresh.set w.names w.row := if_pos node.means_fresh
  obtain ⟨label, names, merges, _⟩ := node
  have about : w.means = Node.has label (w.row.field "id") := by
    funext n
    simp only [Write.means, merges]
  rw [about] at absent
  rw [taken]
  simp only [write, merges, mergeNode, absent, Bool.false_eq_true, if_false, Write.names, Write.fresh]

/-- The nodes have settled on the writes, and every write is about one of them. -/
structure Rested (writes : List Write) (nodes : List Node) : Prop where
  settled : ∀ n ∈ nodes, n.Settled writes
  present : ∀ w ∈ writes, nodes.any w.means = true

/-- Nothing was written yet to a node that is not there. -/
theorem Rested.fresh_settled (rested : Rested writes g.nodes) (ofNodes : ∀ w ∈ writes, w.OfNode) (node : w.OfNode)
    (absent : g.nodes.any w.means = false) : w.fresh.Settled writes := by
  intro p v given
  obtain ⟨w', inside, gives⟩ := List.exists_of_findSome?_eq_some given
  have inside := List.mem_reverse.mp inside
  have about : w'.means w.fresh = true := by
    by_contra apart
    simp [Write.given, apart] at gives
  obtain ⟨n, old, means⟩ := List.any_eq_true.mp (rested.present w' inside)
  have taken := node.means_of_fresh (ofNodes w' inside) about means
  rw [List.any_eq_true.mpr ⟨n, old, taken⟩] at absent
  cases absent

theorem Rested.write (rested : Rested writes g.nodes) (ofNodes : ∀ w ∈ writes, w.OfNode)
    (node : w.OfNode) : Rested (writes ++ [w]) (g.write w).nodes := by
  cases found : g.nodes.any w.means with
  | true =>
    rw [write_present node found]
    constructor
    · intro n inside
      obtain ⟨before, old, rfl⟩ := List.mem_map.mp inside
      exact (rested.settled before old).take node.leaves
    · intro w' inside
      have there : g.nodes.any w'.means = true := by
        rcases List.mem_append.mp inside with old | new
        · exact rested.present w' old
        · rwa [List.mem_singleton.mp new]
      simpa only [List.any_map, Function.comp_def, Node.means_take _ node.leaves] using there
  | false =>
    rw [write_absent node found]
    constructor
    · intro n inside
      rcases List.mem_append.mp inside with old | new
      · -- what was there is not what the write is about
        have apart : w.means n = false := by simpa using List.any_eq_false.mp found n old
        have kept := (rested.settled n old).take node.leaves
        rwa [Node.take, apart, if_neg Bool.false_ne_true] at kept
      · obtain rfl := List.mem_singleton.mp new
        exact (rested.fresh_settled ofNodes node found).take node.leaves
    · intro w' inside
      rw [List.any_append, Bool.or_eq_true]
      rcases List.mem_append.mp inside with old | new
      · exact Or.inl (rested.present w' old)
      · obtain rfl := List.mem_singleton.mp new
        exact Or.inr (by simp [Node.means_take _ node.leaves, node.means_fresh])

theorem rested_writeAll (g : Graph) (ofNodes : ∀ w ∈ writes, w.OfNode) : Rested writes (g.writeAll writes).nodes := by
  induction writes using List.reverseRecOn with
  | nil =>
    constructor
    · exact fun n _ p v given => nomatch given
    · exact fun w inside => absurd inside List.not_mem_nil
  | append_singleton writes w ih =>
    rw [writeAll_snoc]
    have before : ∀ w ∈ writes, w.OfNode := fun w' inside => ofNodes w' (by simp [inside])
    exact (ih before).write before (ofNodes w (by simp))

theorem writeAll_present (ofNodes : ∀ w ∈ writes, w.OfNode) (present : ∀ w ∈ writes, g.nodes.any w.means = true) :
    g.writeAll writes = { g with nodes := g.nodes.map (·.takeAll writes) } := by
  induction writes using List.reverseRecOn with
  | nil => simp [Node.takeAll]
  | append_singleton writes w ih =>
    have before : ∀ w ∈ writes, w.OfNode := fun w' inside => ofNodes w' (by simp [inside])
    have there : (g.nodes.map (·.takeAll writes)).any w.means = true := by
      simpa only [List.any_map, Function.comp_def, Node.means_takeAll fun w' inside => (before w' inside).leaves]
        using present w (by simp)
    rw [writeAll_snoc, ih before fun w' inside => present w' (by simp [inside]),
      write_present (ofNodes w (by simp)) there]
    simp only [List.map_map, Function.comp_def, Node.takeAll_snoc]

theorem Rested.writeAll_eq (rested : Rested writes g.nodes) (ofNodes : ∀ w ∈ writes, w.OfNode) :
    g.writeAll writes = g := by
  rw [writeAll_present ofNodes rested.present]
  have same : g.nodes.map (·.takeAll writes) = g.nodes.map id := List.map_congr_left fun n inside =>
    (rested.settled n inside).takeAll_eq fun w inside => (ofNodes w inside).leaves
  rw [same, List.map_id]

end Nodes

section Edges

variable {g : Graph}

theorem join_nodes (type : String) (g : Graph) (pair : Nat × Nat) : (g.join type pair).nodes = g.nodes := by
  unfold join
  split <;> rfl

theorem join_edges (type : String) (g : Graph) (pair : Nat × Nat) : g.edges <+: (g.join type pair).edges := by
  unfold join
  split
  · exact List.prefix_rfl
  · exact List.prefix_append ..

theorem any_of_prefix {α : Type} {l l' : List α} {p : α → Bool} (longer : l <+: l') (holds : l.any p = true) :
    l'.any p = true := by
  obtain ⟨a, inside, true_at⟩ := List.any_eq_true.mp holds
  exact List.any_eq_true.mpr ⟨a, longer.subset inside, true_at⟩

theorem joined_join (type : String) (g : Graph) (pair : Nat × Nat) :
    (g.join type pair).edges.any (Edge.joins pair.1 type pair.2) = true := by
  unfold join
  split
  · assumption
  · simp [Edge.joins]

/-- Joining pairs of nodes adds edges, and leaves everything else. -/
theorem foldl_join (type : String) (g : Graph) (pairs : List (Nat × Nat)) :
    (pairs.foldl (join type) g).nodes = g.nodes ∧ g.edges <+: (pairs.foldl (join type) g).edges ∧
      ∀ pair ∈ pairs, (pairs.foldl (join type) g).edges.any (Edge.joins pair.1 type pair.2) = true := by
  induction pairs generalizing g with
  | nil => exact ⟨rfl, List.prefix_rfl, fun pair inside => absurd inside List.not_mem_nil⟩
  | cons first rest ih =>
    obtain ⟨nodes, longer, joined⟩ := ih (g.join type first)
    refine ⟨nodes.trans (join_nodes type g first), (join_edges type g first).trans longer, fun pair inside => ?_⟩
    rcases List.mem_cons.mp inside with rfl | later
    · exact any_of_prefix longer (joined_join type g pair)
    · exact joined pair later

theorem foldl_join_eq {type : String} {pairs : List (Nat × Nat)}
    (joined : ∀ pair ∈ pairs, g.edges.any (Edge.joins pair.1 type pair.2) = true) :
    pairs.foldl (join type) g = g := by
  induction pairs with
  | nil => rfl
  | cons first rest ih =>
    rw [List.foldl_cons, join, if_pos (joined first (List.mem_cons_self ..))]
    exact ih fun pair later => joined pair (List.mem_cons_of_mem _ later)

/-- Every pair of nodes that a write is to join is joined. -/
def Joined (w : Write) (g : Graph) : Prop :=
  ∀ sourceLabel type targetLabel, w.merge = .edge sourceLabel type targetLabel →
    ∀ pair ∈ g.ends sourceLabel targetLabel w.row, g.edges.any (Edge.joins pair.1 type pair.2) = true

/-- What joins nodes leaves them as they are, and adds edges where there are none. -/
theorem write_edge {w : Write} (edge : w.OfEdge) :
    (g.write w).nodes = g.nodes ∧ g.edges <+: (g.write w).edges ∧ Joined w (g.write w) := by
  obtain ⟨sourceLabel, type, targetLabel, merges⟩ := edge
  obtain ⟨nodes, longer, joined⟩ := foldl_join type g (g.ends sourceLabel targetLabel w.row)
  have wrote : g.write w = (g.ends sourceLabel targetLabel w.row).foldl (join type) g := by
    simp only [write, merges, mergeEdge]
  rw [wrote]
  refine ⟨nodes, longer, fun sourceLabel' type' targetLabel' merges' pair inside => ?_⟩
  rw [merges] at merges'
  cases merges'
  rw [ends, places, places, nodes] at inside
  exact joined pair inside

/-- Edges that are there already are not written again. -/
theorem Joined.write_eq {w : Write} (joined : Joined w g) (edge : w.OfEdge) : g.write w = g := by
  obtain ⟨sourceLabel, type, targetLabel, merges⟩ := edge
  simp only [write, merges, mergeEdge]
  exact foldl_join_eq (joined sourceLabel type targetLabel merges)

theorem Joined.mono {w : Write} {g' : Graph} (joined : Joined w g) (nodes : g'.nodes = g.nodes)
    (longer : g.edges <+: g'.edges) : Joined w g' := by
  intro sourceLabel type targetLabel merges pair inside
  rw [ends, places, places, nodes] at inside
  exact any_of_prefix longer (joined sourceLabel type targetLabel merges pair inside)

theorem writeAll_edges {writes : List Write} (ofEdges : ∀ w ∈ writes, w.OfEdge) :
    (g.writeAll writes).nodes = g.nodes ∧ g.edges <+: (g.writeAll writes).edges ∧
      ∀ w ∈ writes, Joined w (g.writeAll writes) := by
  induction writes using List.reverseRecOn with
  | nil => exact ⟨rfl, List.prefix_rfl, fun w inside => absurd inside List.not_mem_nil⟩
  | append_singleton writes w ih =>
    obtain ⟨nodes, longer, joined⟩ := ih fun w' inside => ofEdges w' (by simp [inside])
    have last := write_edge (g := g.writeAll writes) (ofEdges w (by simp))
    rw [writeAll_snoc]
    refine ⟨last.1.trans nodes, longer.trans last.2.1, fun w' inside => ?_⟩
    rcases List.mem_append.mp inside with old | new
    · exact (joined w' old).mono last.1 last.2.1
    · rw [List.mem_singleton.mp new]
      exact last.2.2

theorem writeAll_joined {writes : List Write} (ofEdges : ∀ w ∈ writes, w.OfEdge)
    (joined : ∀ w ∈ writes, Joined w g) : g.writeAll writes = g := by
  induction writes with
  | nil => rfl
  | cons w rest ih =>
    rw [writeAll, List.foldl_cons, (joined w (by simp)).write_eq (ofEdges w (by simp))]
    exact ih (fun w' inside => ofEdges w' (by simp [inside])) fun w' inside => joined w' (by simp [inside])

end Edges

/-- Nodes written first, then the edges between them, are there for good: writing all of them again
changes nothing. -/
theorem writeAll_again (g : Graph) {nodes edges : List Write} (ofNodes : ∀ w ∈ nodes, w.OfNode)
    (ofEdges : ∀ w ∈ edges, w.OfEdge) :
    (g.writeAll (nodes ++ edges)).writeAll (nodes ++ edges) = g.writeAll (nodes ++ edges) := by
  obtain ⟨same, _, joined⟩ := writeAll_edges (g := g.writeAll nodes) ofEdges
  have rested := rested_writeAll g ofNodes
  rw [← same, ← writeAll_append] at rested
  rw [writeAll_append (g.writeAll _), rested.writeAll_eq ofNodes]
  refine writeAll_joined ofEdges fun w inside => ?_
  rw [writeAll_append]
  exact joined w inside

/-- Writes that begin with some that were made already leave what they would have left without those. -/
theorem writeAll_resumed (g : Graph) {nodes edges made : List Write} (ofNodes : ∀ w ∈ nodes, w.OfNode)
    (ofEdges : ∀ w ∈ edges, w.OfEdge) (begun : made <+: nodes ++ edges) :
    (g.writeAll made).writeAll (nodes ++ edges) = g.writeAll (nodes ++ edges) := by
  obtain ⟨rest, whole⟩ := begun
  -- what was made is itself some nodes first, then some of the edges
  have split : made = nodes.take made.length ++ edges.take (made.length - nodes.length) := by
    rw [← List.take_append, ← whole, List.take_left]
  have ofNodes' : ∀ w ∈ nodes.take made.length, w.OfNode := fun w inside => ofNodes w (List.mem_of_mem_take inside)
  have ofEdges' : ∀ w ∈ edges.take (made.length - nodes.length), w.OfEdge :=
    fun w inside => ofEdges w (List.mem_of_mem_take inside)
  have again := writeAll_again g ofNodes' ofEdges'
  rw [← split] at again
  rw [← whole, writeAll_append, again, writeAll_append]

end CodeAtlas.Graph
