import CodeAtlas.Proofs.Graph.Written

namespace CodeAtlas

open CodeAtlas.Graph

/-- Among some writes is one of a node with a label and an identity. -/
def NodeAmong (writes : List Write) (label : String) (id : Value) : Prop :=
  ∃ names row, ⟨.node label names, row⟩ ∈ writes ∧ row.field "id" = id

/-- What a run of a build writes about edges is backed by what it wrote about nodes before. -/
structure Snapshot.EdgesBacked (n : Nat) (s : Snapshot) (log : List Event) (result : Except Fault BuildCounts) : Prop where
  nodes : ∀ {before after source type target row}, writesIn log = before ++ ⟨.edge source type target, row⟩ :: after →
    NodeAmong before source (row.field "src") ∧ NodeAmong before target (row.field "dst")
  /-- Whatever graph there was, both ends are found in it by then. -/
  found : ∀ {before after source type target row}, writesIn log = before ++ ⟨.edge source type target, row⟩ :: after →
    ∀ g : Graph, (g.writeAll before).ends source target row ≠ []
  /-- What is written first was not refused. -/
  answered : ∀ {before event after}, log = before ++ event :: after → writesIn after ≠ [] → ¬ event.Refused
  noLoop : ∀ row ∈ edgeRowsOf "EXTENDS" (writesIn log), row.field "src" ≠ row.field "dst"
  /-- The methods that belong to a class give one row each, the others none. -/
  contained : ∃ index owned, ClassIndex.ofClasses s.classes = .ok index ∧ owned.Sublist s.methods ∧
    List.Forall₂ (fun m row => containsRow? index m = .ok (some row)) owned (edgeRowsOf "CONTAINS" (writesIn log))
  callsOnce : (edgeRowsOf "CALLS" (writesIn log)).Nodup
  calls : ∀ row ∈ edgeRowsOf "CALLS" (writesIn log), ∃ m ∈ s.methods, ∃ m' ∈ s.methods, m'.id ∈ m.callees ∧
    row = edgeRow m.id m'.id
  allCalls : ∀ counts, result = .ok counts → ∀ m ∈ s.methods, ∀ m' ∈ s.methods, m'.id ∈ m.callees →
    edgeRow m.id m'.id ∈ edgeRowsOf "CALLS" (writesIn log)
  /-- A build that nothing disturbs ends well. -/
  ends : (∀ event ∈ log, event.Calm n) → ∃ counts, result = .ok counts

section Rows

variable {type : String}

theorem edgeRowsOf_append (first second : List Write) :
    edgeRowsOf type (first ++ second) = edgeRowsOf type first ++ edgeRowsOf type second := List.filterMap_append

theorem edgeRowsOf_nodes {writes : List Write} (nodes : ∀ w ∈ writes, w.OfNode) : edgeRowsOf type writes = [] := by
  refine List.filterMap_eq_nil_iff.mpr fun w inside => ?_
  obtain ⟨label, names, merges, _⟩ := nodes w inside
  rw [merges]

theorem edgeRowsOf_map (source type' target : String) (rows : List Value) :
    edgeRowsOf type (rows.map (⟨.edge source type' target, ·⟩)) = if type' = type then rows else [] := by
  rw [edgeRowsOf, List.filterMap_map]
  split
  next same => simp [same]
  next other => simp [other]

end Rows

/-- The rows that are kept were made of some of the list, in its order. -/
theorem forall₂_of_mapM {α : Type} {f : α → Except Fault (Option Value)} {l : List α} {made : List (Option Value)}
    (done : l.mapM f = .ok made) {rows : List Value} (first : rows <+: made.filterMap id) :
    ∃ kept, kept.Sublist l ∧ List.Forall₂ (fun a row => f a = .ok (some row)) kept rows := by
  induction l generalizing made rows with
  | nil =>
    cases done
    obtain rfl := List.prefix_nil.mp first
    exact ⟨[], .slnil, .nil⟩
  | cons a rest ih =>
    obtain ⟨row, others, own, tail, rfl⟩ := mapM_cons_ok done
    cases row with
    | none =>
      obtain ⟨kept, sublist, all⟩ := ih tail first
      exact ⟨kept, sublist.cons a, all⟩
    | some row =>
      cases rows with
      | nil => exact ⟨[], List.nil_sublist _, .nil⟩
      | cons row' rows =>
        obtain ⟨rfl, begun⟩ := List.cons_prefix_cons.mp first
        obtain ⟨kept, sublist, all⟩ := ih tail begun
        exact ⟨a :: kept, sublist.cons_cons a, .cons own all⟩

theorem Graph.Write.OfNode.not_ofEdge {w : Write} (node : w.OfNode) : ¬ w.OfEdge := by
  obtain ⟨label, names, merges, _⟩ := node
  rintro ⟨source, type, target, merges'⟩
  cases merges.symm.trans merges'

/-- Where nodes are written first, all of them are written before any edge. -/
theorem edge_after_nodes {nodes edges before after : List Write} {w : Write} (ofNodes : ∀ w ∈ nodes, w.OfNode)
    (edge : w.OfEdge) (begun : before ++ w :: after <+: nodes ++ edges) :
    ∃ earlier, before = nodes ++ earlier ∧ earlier ++ [w] <+: edges := by
  obtain ⟨rest, whole⟩ := begun
  rw [List.append_assoc, List.cons_append] at whole
  rcases List.append_cons_eq_append_iff.mp whole with ⟨more, rfl, _⟩ | ⟨earlier, rfl, rfl⟩
  · exact absurd edge (ofNodes w (by simp)).not_ofEdge
  · exact ⟨earlier, rfl, after ++ rest, by simp⟩

theorem NodeAmong.mono {writes writes' : List Write} {label : String} {id : Value} (among : NodeAmong writes label id)
    (subset : writes ⊆ writes') : NodeAmong writes' label id := by
  obtain ⟨names, row, inside, same⟩ := among
  exact ⟨names, row, subset inside, same⟩

/-- What was written as a node is found. -/
theorem NodeAmong.places_ne_nil {writes : List Write} {label : String} {id : Value} (among : NodeAmong writes label id)
    (ofNodes : ∀ w ∈ writes, w.OfNode) (g : Graph) : (g.writeAll writes).places label id ≠ [] := by
  obtain ⟨names, row, inside, rfl⟩ := among
  obtain ⟨node, member, means⟩ := List.any_eq_true.mp ((rested_writeAll g ofNodes).present _ inside)
  obtain ⟨place, stands⟩ := List.mem_iff_getElem?.mp member
  refine List.ne_nil_of_mem (a := place) (List.mem_map.mpr ⟨(node, place), ?_, rfl⟩)
  exact List.mem_filter.mpr ⟨List.mem_zipIdx_iff_getElem?.mpr stands, means⟩

variable {s : Snapshot} {r : BuildRows}

/-- Every node that a snapshot speaks of is written. -/
theorem Snapshot.Knows.nodeAmong {label : String} {id : Value} (knows : s.Knows label id) (of : r.Of s)
    (textual : s.Textual) : NodeAmong (writesOf r.nodePhases) label id := by
  rw [writesOf_nodePhases]
  cases knows with
  | ofClass inside =>
    obtain ⟨row, member, made⟩ := made_of_mapM of.classes inside
    obtain ⟨row', made', named⟩ := classRow_ok (textual.classes _ inside)
    cases made.symm.trans made'
    exact ⟨_, row, List.mem_append_left _ (List.mem_map_of_mem member), named⟩
  | ofMethod inside =>
    obtain ⟨row, member, made⟩ := made_of_mapM of.methods inside
    obtain ⟨row', made', named⟩ := methodRow_ok r.index (textual.methods _ inside)
    cases made.symm.trans made'
    exact ⟨_, row, List.mem_append_right _ (List.mem_append_left _ (List.mem_map_of_mem member)), named⟩
  | ofEndpoint inside identified =>
    obtain ⟨row, member, made⟩ := made_of_mapM of.endpoints inside
    obtain ⟨row', made', id, identified', named⟩ := endpointRow_ok (textual.endpoints _ inside)
    cases made.symm.trans made'
    cases identified.symm.trans identified'
    exact ⟨_, row, List.mem_append_right _ (List.mem_append_right _ (List.mem_map_of_mem member)), named⟩

/-- The rows of each type of edge that a build makes. -/
theorem BuildRows.edgeRowsOf_writes (ofNodes : ∀ w ∈ writesOf r.nodePhases, w.OfNode) :
    edgeRowsOf "CONTAINS" r.writes = r.contains.filterMap id ∧ edgeRowsOf "CALLS" r.writes = r.callRows ∧
      edgeRowsOf "HANDLED_BY" r.writes = r.handledBy.filterMap id ∧
      edgeRowsOf "EXTENDS" r.writes = r.inherits.filterMap id := by
  simp only [BuildRows.writes, edgeRowsOf_append, edgeRowsOf_nodes ofNodes, writesOf_edgePhases, edgeRowsOf_map]
  simp

theorem edgeRow_inj {source target source' target' : Value} (same : edgeRow source target = edgeRow source' target') :
    source = source' ∧ target = target' := ⟨congrArg (·.field "src") same, congrArg (·.field "dst") same⟩

theorem BuildRows.Of.callRows (of : r.Of s) (textual : s.Textual) : r.callRows.Nodup ∧
    ∀ row, row ∈ r.callRows ↔ ∃ m ∈ s.methods, ∃ m' ∈ s.methods, m'.id ∈ m.callees ∧ row = edgeRow m.id m'.id := by
  obtain ⟨calls, ids, done, once, mem_iff⟩ := textual.calls_ok
  have same := of.calls
  rw [Except.ok.inj (of.ids.symm.trans ids)] at same
  obtain rfl := Except.ok.inj (same.symm.trans done)
  refine ⟨once.map fun call other same => Prod.ext (edgeRow_inj same).1 (edgeRow_inj same).2, fun row => ?_⟩
  constructor
  · intro inside
    obtain ⟨call, member, rfl⟩ := List.mem_map.mp inside
    obtain ⟨m, known, m', known', called, rfl⟩ := (mem_iff call).mp member
    exact ⟨m, known, m', known', called, rfl⟩
  · rintro ⟨m, known, m', known', called, rfl⟩
    exact List.mem_map.mpr ⟨_, (mem_iff _).mpr ⟨m, known, m', known', called, rfl⟩, rfl⟩

/-- In each run of a build the edges that it writes are backed by the nodes that it wrote. -/
theorem buildGraph_edgesBacked {n : Nat} {size : Value} (isSize : size.IsSize) (textual : s.Textual) {log : List Event}
    {result : Except Fault BuildCounts} (runs : (buildGraph n size s).Runs log result) : s.EdgesBacked n log result := by
  obtain ⟨r, of, sound⟩ := textual.rows_ok
  obtain ⟨nodes, edges⟩ := sound.writes textual
  have ofNodes := fun w inside => (nodes w inside).2
  have emits := buildGraph_emits (n := n) of isSize
  have begun := emits.begins runs
  obtain ⟨contains, calls, _, _⟩ := BuildRows.edgeRowsOf_writes ofNodes
  obtain ⟨callsOnce, mem_calls⟩ := of.callRows textual
  have rows : ∀ type, edgeRowsOf type (writesIn log) <+: edgeRowsOf type r.writes := fun type => begun.filterMap _
  have backed : ∀ {before after source type target row},
      writesIn log = before ++ ⟨.edge source type target, row⟩ :: after →
      ∃ earlier, before = writesOf r.nodePhases ++ earlier ∧ (∀ w ∈ earlier, w.OfEdge) ∧
        NodeAmong (writesOf r.nodePhases) source (row.field "src") ∧
        NodeAmong (writesOf r.nodePhases) target (row.field "dst") := by
    intro before after source type target row same
    obtain ⟨earlier, rfl, inside⟩ := edge_after_nodes ofNodes ⟨_, _, _, rfl⟩ (same ▸ begun)
    obtain ⟨knows, knows'⟩ := (edges _ (inside.subset (List.mem_append_right _ (List.mem_singleton_self _)))).1
    exact ⟨earlier, rfl, fun w early => (edges w (inside.subset (List.mem_append_left _ early))).2,
      knows.nodeAmong of textual, knows'.nodeAmong of textual⟩
  constructor
  case nodes =>
    intro before after source type target row same
    obtain ⟨earlier, rfl, _, among, among'⟩ := backed same
    exact ⟨among.mono (List.subset_append_left ..), among'.mono (List.subset_append_left ..)⟩
  case found =>
    intro before after source type target row same g
    obtain ⟨earlier, rfl, ofEdges, among, among'⟩ := backed same
    rw [writeAll_append, ends_congr (writeAll_edges ofEdges).1]
    obtain ⟨i, source⟩ := List.exists_mem_of_ne_nil _ (among.places_ne_nil ofNodes g)
    obtain ⟨j, target⟩ := List.exists_mem_of_ne_nil _ (among'.places_ne_nil ofNodes g)
    exact List.ne_nil_of_mem (List.mem_flatMap.mpr ⟨i, source, List.mem_map_of_mem target⟩)
  case answered => exact fun same written refused => written (emits.stops (same ▸ runs) refused).1
  case noLoop =>
    intro row inside
    obtain ⟨index, _, c, known, parent, _, other, rfl⟩ := Snapshot.extends_of_runs runs inside
    intro same
    have text := (textual.classes c known).id
    rw [show parent.id = c.id from same.symm, (text.same_iff text).mpr rfl] at other
    cases other
  case contained =>
    obtain ⟨owned, sublist, all⟩ := forall₂_of_mapM of.contains (contains ▸ rows "CONTAINS")
    exact ⟨r.index, owned, of.index, sublist, all⟩
  case callsOnce => exact callsOnce.sublist (calls ▸ rows "CALLS").sublist
  case calls => exact fun row inside => (mem_calls row).mp ((calls ▸ rows "CALLS").subset inside)
  case allCalls =>
    rintro counts rfl m known m' known' called
    rw [emits.whole runs, calls]
    exact (mem_calls _).mpr ⟨m, known, m', known', called, rfl⟩
  case ends => exact emits.ends runs

/-- Some run of a build ends well. -/
theorem buildGraph_runs (n : Nat) {size : Value} (isSize : size.IsSize) (textual : s.Textual) :
    ∃ log counts, (buildGraph n size s).Runs log (.ok counts) := by
  obtain ⟨r, of, _⟩ := textual.rows_ok
  obtain ⟨log, counts, runs, _⟩ := (buildGraph_emits (n := n) of isSize).goes
  exact ⟨log, counts, runs⟩

/-- A row that is made of a part of a list is among those that are kept. -/
theorem mem_kept_of_mapM {α : Type} {f : α → Except Fault (Option Value)} {l : List α} {made : List (Option Value)}
    (done : l.mapM f = .ok made) {a : α} (inside : a ∈ l) {row : Value} (own : f a = .ok (some row)) :
    row ∈ made.filterMap id := by
  obtain ⟨row', member, own'⟩ := made_of_mapM done inside
  cases own.symm.trans own'
  exact List.mem_filterMap.mpr ⟨some row, member, rfl⟩

/-- A build that ends well wrote every edge that its snapshot gives. -/
theorem buildGraph_complete {n : Nat} {size : Value} (isSize : size.IsSize) (textual : s.Textual) {log : List Event}
    {counts : BuildCounts} (runs : (buildGraph n size s).Runs log (.ok counts)) {index : ClassIndex}
    (indexed : ClassIndex.ofClasses s.classes = .ok index) :
    (∀ e ∈ s.endpoints, ∀ row, handledByRow? index s.methods e = .ok (some row) →
      row ∈ edgeRowsOf "HANDLED_BY" (writesIn log)) ∧
    ∀ c ∈ s.classes, ∀ row, extendsRow? index c = .ok (some row) → row ∈ edgeRowsOf "EXTENDS" (writesIn log) := by
  obtain ⟨r, of, sound⟩ := textual.rows_ok
  obtain ⟨_, _, handled, inherits⟩ := BuildRows.edgeRowsOf_writes fun w inside => ((sound.writes textual).1 w inside).2
  obtain rfl := Except.ok.inj (of.index.symm.trans indexed)
  rw [(buildGraph_emits of isSize).whole runs, handled, inherits]
  exact ⟨fun e known row => mem_kept_of_mapM of.handledBy known, fun c known row => mem_kept_of_mapM of.inherits known⟩

/-- A snapshot of an order, which is an entity and adds up its total when it is paid. -/
def storefront : Snapshot where
  classes := [⟨.str "Order", .str "com.shop.Order", .str "com.shop", .str "Order.java", .str "CLASS",
      .str "com.shop.Entity", .null, false, false, [], 1, 20⟩,
    ⟨.str "Entity", .str "com.shop.Entity", .str "com.shop", .str "Entity.java", .str "CLASS", .null, .null, true, false,
      [], 1, 9⟩]
  methods := [⟨.str "pay", .str "com.shop.Order.pay()", .str "com.shop.Order", .str "", .str "public", false,
      .str "void", [], [], 3, 5, [.str "com.shop.Order.total()", .str "java.lang.Math.abs(int)"]⟩,
    ⟨.str "total", .str "com.shop.Order.total()", .str "com.shop.Order", .str "", .str "public", false, .str "int", [],
      [], 7, 9, []⟩]
  endpoints := [⟨.str "/orders/pay", .str "post", .str "com.shop.Order", .str "pay"⟩]

theorem storefront_textual : storefront.Textual where
  classes := List.forall_mem_cons.mpr ⟨⟨⟨_, rfl⟩, ⟨_, rfl⟩, ⟨_, rfl⟩, .inl ⟨_, rfl⟩⟩,
    List.forall_mem_singleton.mpr ⟨⟨_, rfl⟩, ⟨_, rfl⟩, ⟨_, rfl⟩, .inr rfl⟩⟩
  methods := List.forall_mem_cons.mpr ⟨⟨⟨_, rfl⟩, ⟨_, rfl⟩, List.forall_mem_nil _,
      List.forall_mem_cons.mpr ⟨⟨_, rfl⟩, List.forall_mem_singleton.mpr ⟨_, rfl⟩⟩⟩,
    List.forall_mem_singleton.mpr ⟨⟨_, rfl⟩, ⟨_, rfl⟩, List.forall_mem_nil _, List.forall_mem_nil _⟩⟩
  endpoints := List.forall_mem_singleton.mpr ⟨⟨_, rfl⟩, ⟨_, rfl⟩⟩

/-- The build of it writes the call that leads to a method of it. -/
theorem storefront_edgesBacked : (Value.int 500).IsSize ∧ storefront.Textual ∧ ∃ log counts,
    (buildGraph 0 (.int 500) storefront).Runs log (.ok counts) ∧ storefront.EdgesBacked 0 log (.ok counts) ∧
      edgeRow (.str "com.shop.Order.pay()") (.str "com.shop.Order.total()") ∈ edgeRowsOf "CALLS" (writesIn log) := by
  obtain ⟨log, counts, runs⟩ := buildGraph_runs 0 (Value.isSize_int (show (1 : Int) ≤ 500 by decide)) storefront_textual
  have backed := buildGraph_edgesBacked (Value.isSize_int (by decide)) storefront_textual runs
  refine ⟨Value.isSize_int (by decide), storefront_textual, log, counts, runs, backed, ?_⟩
  exact backed.allCalls counts rfl _ (List.mem_cons_self ..) _ (List.mem_cons_of_mem _ (List.mem_singleton_self _))
    (List.mem_cons_self ..)

end CodeAtlas
