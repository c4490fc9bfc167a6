import CodeAtlas.Proofs.Graph.Spares
import CodeAtlas.Proofs.Keys
import Mathlib.Data.List.Basic

namespace CodeAtlas.Graph

variable {g : Graph} {label type : String} {names : List String} {rows : List Value}

/-- The node that a row makes where there was none. -/
def Node.ofRow (label : String) (names : List String) (row : Value) : Node :=
  (Node.fresh label (row.field "id")).set names row

theorem Node.ofRow_id (leaves : "id" ∉ names) (row : Value) :
    (Node.ofRow label names row).properties "id" = row.field "id" := by
  simp [ofRow, Node.set, fresh, leaves]

theorem Node.has_ofRow (leaves : "id" ∉ names) (row id : Value) :
    (Node.ofRow label names row).has label id = (row.field "id").same id := by
  rw [Node.has, Node.ofRow_id leaves]
  simp [ofRow, Node.set, fresh]

/-- A node goes by one text at most. -/
theorem Node.has_inj {n : Node} {id id' : Value} (text : id.IsText) (text' : id'.IsText) (has : n.has label id = true)
    (has' : n.has label id' = true) : id = id' := by
  simp only [Node.has, Bool.and_eq_true] at has has'
  refine (text.same_iff text').mp ?_
  rw [← Value.same_congr text'.isKey has'.2, Value.same_comm text.isKey]
  exact has.2

/-- No two rows are about the same node. -/
def Apart (rows : List Value) : Prop := rows.Pairwise fun row other => (row.field "id").same (other.field "id") = false

/-- Rows about nodes that are not there make one node each. -/
theorem writeAll_new (g : Graph) (label : String) {names : List String} (leaves : "id" ∉ names) (apart : Apart rows)
    (absent : ∀ row ∈ rows, g.nodes.any (Node.has label (row.field "id")) = false) :
    g.writeAll (rows.map (⟨.node label names, ·⟩)) = { g with nodes := g.nodes ++ rows.map (Node.ofRow label names) } := by
  induction rows generalizing g with
  | nil => simp
  | cons row rest ih =>
    obtain ⟨others, apart⟩ := List.pairwise_cons.mp apart
    have first : g.write ⟨.node label names, row⟩ = { g with nodes := g.nodes ++ [Node.ofRow label names row] } := by
      simp only [write, mergeNode, absent row (List.mem_cons_self ..), Bool.false_eq_true, if_false]
      rfl
    have absent' : ∀ other ∈ rest, (g.nodes ++ [Node.ofRow label names row]).any
        (Node.has label (other.field "id")) = false := by
      intro other inside
      rw [List.any_append, absent other (List.mem_cons_of_mem _ inside)]
      simp [Node.has_ofRow leaves, others other inside]
    rw [List.map_cons, writeAll, List.foldl_cons, first]
    refine (ih _ apart absent').trans ?_
    simp

/-- Rows about nodes of a label leave all nodes of other labels, and edges, as they are. -/
theorem writeAll_beside (names : List String) (rows : List Value) {base others : List Node}
    (nodes : g.nodes = base ++ others) (free : ∀ n ∈ base, n.labels.contains label = false)
    (labelled : ∀ n ∈ others, n.labels = [label]) :
    ∃ others', g.writeAll (rows.map (⟨.node label names, ·⟩)) = { g with nodes := base ++ others' } ∧
      ∀ n ∈ others', n.labels = [label] := by
  induction rows generalizing g others with
  | nil => exact ⟨others, by rw [← nodes]; rfl, labelled⟩
  | cons row rest ih =>
    have step : ∃ others', g.write ⟨.node label names, row⟩ = { g with nodes := base ++ others' } ∧
        ∀ n ∈ others', n.labels = [label] := by
      simp only [write, mergeNode]
      split
      next =>
        let update (n : Node) : Node := if n.has label (row.field "id") then n.set names row else n
        refine ⟨others.map update, ?_, fun n inside => ?_⟩
        · have kept : base.map update = base.map id := List.map_congr_left fun n inside => by
            have other : n.has label (row.field "id") = false := by simp only [Node.has, free n inside, Bool.false_and]
            simp only [update, other, Bool.false_eq_true, if_false, id]
          simp only [nodes, List.map_append]
          exact congrArg (fun kept => Graph.mk (kept ++ _) _) (kept.trans (List.map_id _))
        · obtain ⟨old, member, rfl⟩ := List.mem_map.mp inside
          have same : (update old).labels = old.labels := by
            simp only [update]
            split <;> rfl
          rw [same, labelled old member]
      next =>
        refine ⟨others ++ [Node.ofRow label names row], by rw [nodes, List.append_assoc]; rfl, fun n inside => ?_⟩
        rcases List.mem_append.mp inside with old | new
        · exact labelled n old
        · rw [List.mem_singleton.mp new]
          rfl
    obtain ⟨others', wrote, labelled'⟩ := step
    rw [List.map_cons, writeAll, List.foldl_cons, wrote]
    exact ih (g := { g with nodes := base ++ others' }) rfl labelled'

theorem ends_congr {g' : Graph} (nodes : g'.nodes = g.nodes) (sourceLabel targetLabel : String) (row : Value) :
    g'.ends sourceLabel targetLabel row = g.ends sourceLabel targetLabel row := by
  simp only [ends, places, nodes]

theorem writeAll_joins (sourceLabel targetLabel : String) :
    g.writeAll (rows.map (⟨.edge sourceLabel type targetLabel, ·⟩)) =
      (rows.flatMap (g.ends sourceLabel targetLabel)).foldl (join type) g := by
  induction rows generalizing g with
  | nil => rfl
  | cons row rest ih =>
    rw [List.map_cons, writeAll, List.foldl_cons, List.flatMap_cons, List.foldl_append]
    have nodes := (foldl_join type g (g.ends sourceLabel targetLabel row)).1
    refine (ih (g := g.write ⟨.edge sourceLabel type targetLabel, row⟩)).trans ?_
    simp only [write, mergeEdge]
    exact congrArg (fun pairs => List.foldl (join type) _ pairs)
      (List.flatMap_congr fun other _ => ends_congr nodes sourceLabel targetLabel other)

/-- An edge of which only the type is known. -/
def Edge.bare (type : String) (ends : Nat × Nat) : Edge := ⟨ends.1, type, ends.2, fun _ => .null⟩

theorem foldl_join_new {pairs : List (Nat × Nat)} (distinct : pairs.Nodup)
    (fresh : ∀ pair ∈ pairs, g.edges.any (Edge.joins pair.1 type pair.2) = false) :
    (pairs.foldl (join type) g).edges = g.edges ++ pairs.map (Edge.bare type) := by
  induction pairs generalizing g with
  | nil => simp
  | cons pair rest ih =>
    obtain ⟨new, distinct⟩ := List.nodup_cons.mp distinct
    have first : g.join type pair = { g with edges := g.edges ++ [Edge.bare type pair] } := by
      simp only [join, fresh pair (List.mem_cons_self ..), Bool.false_eq_true, if_false]
      rfl
    have fresh' : ∀ other ∈ rest, (g.edges ++ [Edge.bare type pair]).any (Edge.joins other.1 type other.2) = false := by
      intro other inside
      rw [List.any_append, fresh other (List.mem_cons_of_mem _ inside)]
      have differs : pair ≠ other := fun same => new (same ▸ inside)
      simpa [Edge.joins, Edge.bare, Prod.ext_iff] using differs
    rw [List.foldl_cons, first, ih distinct fresh']
    simp

theorem foldl_join_beside {type' : String} (other : type ≠ type') (pairs : List (Nat × Nat)) :
    (pairs.foldl (join type) g).edges.filter (·.type == type') = g.edges.filter (·.type == type') := by
  induction pairs generalizing g with
  | nil => rfl
  | cons pair rest ih =>
    rw [List.foldl_cons, ih]
    unfold join
    split
    · rfl
    · simp [other]

/-- Rows about edges of a type leave all nodes, and the edges of other types, as they are. -/
theorem writeAll_joins_beside (sourceLabel targetLabel : String) (rows : List Value) (g : Graph) :
    (g.writeAll (rows.map (⟨.edge sourceLabel type targetLabel, ·⟩))).nodes = g.nodes ∧
      ∀ type', type ≠ type' → (g.writeAll (rows.map (⟨.edge sourceLabel type targetLabel, ·⟩))).edges.filter
        (·.type == type') = g.edges.filter (·.type == type') := by
  rw [writeAll_joins]
  exact ⟨(foldl_join type g _).1, fun type' other => foldl_join_beside other _⟩

/-- The nodes of a label stand together, one for each row. -/
structure Section (g : Graph) (label : String) (names : List String) (rows : List Value) (before after : List Node) :
    Prop where
  leaves : "id" ∉ names
  nodes : g.nodes = before ++ rows.map (Node.ofRow label names) ++ after
  outside : ∀ n ∈ before ++ after, n.labels.contains label = false

namespace Section

variable {before after : List Node}

theorem labelled (part : Section g label names rows before after) :
    g.nodes.zipIdx.filter (·.1.labels.contains label) = (rows.map (Node.ofRow label names)).zipIdx before.length := by
  have none : ∀ l : List Node, (∀ n ∈ l, n.labels.contains label = false) → ∀ start,
      (l.zipIdx start).filter (·.1.labels.contains label) = [] := fun l free start => by
    refine List.filter_eq_nil_iff.mpr fun at_place inside => ?_
    rw [free at_place.1 (List.fst_mem_of_mem_zipIdx inside)]
    exact Bool.false_ne_true
  have all : ∀ at_place ∈ (rows.map (Node.ofRow label names)).zipIdx before.length,
      at_place.1.labels.contains label = true := fun at_place inside => by
    obtain ⟨row, _, made⟩ := List.mem_map.mp (List.fst_mem_of_mem_zipIdx inside)
    rw [← made]
    simp [Node.ofRow, Node.set, Node.fresh]
  rw [part.nodes, List.zipIdx_append, List.zipIdx_append, List.filter_append, List.filter_append,
    none before fun n inside => part.outside n (List.mem_append_left _ inside),
    none after fun n inside => part.outside n (List.mem_append_right _ inside), Nat.zero_add,
    List.filter_eq_self.mpr all, List.append_nil, List.nil_append]

theorem node_at (part : Section g label names rows before after) {k : Nat} {row : Value} (stands : rows[k]? = some row) :
    g.nodes[before.length + k]? = some (Node.ofRow label names row) := by
  obtain ⟨within, _⟩ := List.getElem?_eq_some_iff.mp stands
  rw [part.nodes, List.append_assoc, List.getElem?_append_right (Nat.le_add_right ..), Nat.add_sub_cancel_left,
    List.getElem?_append_left (by simpa using within), List.getElem?_map, stands]
  rfl

/-- Among the nodes of rows apart from each other one has the identity of a row. -/
theorem sole {names : List String} (leaves : "id" ∉ names) {rows : List Value} (apart : Apart rows) {k : Nat}
    {row : Value} (stands : rows[k]? = some row) (text : (row.field "id").IsText) (start : Nat) :
    ((rows.map (Node.ofRow label names)).zipIdx start).filter (·.1.has label (row.field "id")) =
      [(Node.ofRow label names row, start + k)] := by
  induction rows generalizing k start with
  | nil => cases stands
  | cons first rest ih =>
    obtain ⟨others, apart⟩ := List.pairwise_cons.mp apart
    rw [List.map_cons, List.zipIdx_cons, List.filter_cons, Node.has_ofRow leaves]
    cases k with
    | zero =>
      cases stands
      have differ : ∀ at_place ∈ (rest.map (Node.ofRow label names)).zipIdx (start + 1),
          at_place.1.has label (row.field "id") = false := fun at_place inside => by
        obtain ⟨other, member, made⟩ := List.mem_map.mp (List.fst_mem_of_mem_zipIdx inside)
        rw [← made, Node.has_ofRow leaves, ← Value.same_comm text.isKey]
        exact others other member
      rw [(text.same_iff text).mpr rfl, List.filter_eq_nil_iff.mpr fun at_place inside => by simp [differ at_place inside]]
      rfl
    | succ k =>
      rw [others row (List.mem_of_getElem? stands), ih apart stands]
      simp [Nat.add_assoc, Nat.add_comm 1]

/-- The node of a row is the only one of its identity. -/
theorem places_eq (part : Section g label names rows before after) (apart : Apart rows) {k : Nat} {row : Value}
    (stands : rows[k]? = some row) (text : (row.field "id").IsText) :
    g.places label (row.field "id") = [before.length + k] := by
  have within : g.nodes.zipIdx.filter (·.1.has label (row.field "id")) =
      (g.nodes.zipIdx.filter (·.1.labels.contains label)).filter (·.1.has label (row.field "id")) := by
    rw [List.filter_filter]
    exact List.filter_congr fun at_place _ => by simp +contextual [Node.has]
  rw [places, within, part.labelled, sole part.leaves apart stands text]
  rfl

end Section

end CodeAtlas.Graph
