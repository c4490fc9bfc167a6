import CodeAtlas.Enrichment
import CodeAtlas.Proofs.Graph.Contents
import CodeAtlas.Proofs.Graph.Leaves
import CodeAtlas.Proofs.Keys
import Mathlib.Data.List.Perm.Subperm

namespace CodeAtlas

/-- A value by which something can be told from everything else. -/
def Value.Identifies (v : Value) : Prop := v.truthy = true ∧ v.isKey = true

namespace Graph

/-- The node at one place has a description, which is the node at another. -/
def Describes (g : Graph) (place target : Nat) : Prop :=
  ∃ e ∈ g.edges, e.source = place ∧ e.type = "HAS_DESCRIPTION" ∧ e.target = target ∧
    ∃ node, g.nodes[target]? = some node ∧ "Description" ∈ node.labels

/-- There is a method at a place, with an identity. -/
def IsMethod (g : Graph) (place : Nat) (id : Value) : Prop :=
  ∃ node, g.nodes[place]? = some node ∧ "Method" ∈ node.labels ∧ node.properties "id" = id

/-- The edges of a graph join its nodes; its methods have identities of their own, and one description each at
most. -/
structure Tidy (g : Graph) : Prop where
  within : ∀ e ∈ g.edges, e.source < g.nodes.length ∧ e.target < g.nodes.length
  ids : ∀ place id, g.IsMethod place id → id.Identifies
  distinct : ∀ i j a b, g.IsMethod i a → g.IsMethod j b → i ≠ j → a.same b = false
  single : ∀ place id a b, g.IsMethod place id → g.Describes place a → g.Describes place b → a = b

/-- No method that goes by an identity has a description. -/
def Lacks (g : Graph) (id : Value) : Prop :=
  ∀ place own target, g.IsMethod place own → own.same id = true → ¬g.Describes place target

variable {g g' : Graph} {place : Nat} {id : Value}

theorem mem_places_iff {label : String} :
    place ∈ g.places label id ↔ ∃ node, g.nodes[place]? = some node ∧ node.has label id = true := by
  simp only [places, List.mem_map, List.mem_filter, List.mem_zipIdx_iff_getElem?, Prod.exists]
  constructor
  · rintro ⟨node, _, ⟨found, has⟩, rfl⟩
    exact ⟨node, found, has⟩
  · rintro ⟨node, found, has⟩
    exact ⟨node, place, ⟨found, has⟩, rfl⟩

/-- A method is found by its identity. -/
theorem mem_places_method : place ∈ g.places "Method" id ↔ ∃ own, g.IsMethod place own ∧ own.same id = true := by
  rw [mem_places_iff]
  constructor
  · rintro ⟨node, found, has⟩
    simp only [Node.has, Bool.and_eq_true, List.contains_iff_mem] at has
    exact ⟨_, ⟨node, found, has.1, rfl⟩, has.2⟩
  · rintro ⟨_, ⟨node, found, isMethod, rfl⟩, same⟩
    exact ⟨node, found, by simp [Node.has, isMethod, same]⟩

section Nodes

/-- The nodes are as they were, in what they are and how they are identified. -/
theorem Tidy.of_alike (tidy : g.Tidy) (edges : g'.edges = g.edges) (length : g'.nodes.length = g.nodes.length)
    (alike : ∀ (i : Nat) (node' : Node), g'.nodes[i]? = some node' → ∃ node : Node, g.nodes[i]? = some node ∧
      node'.labels = node.labels ∧ node'.properties "id" = node.properties "id") : g'.Tidy := by
  have methods : ∀ {i a}, g'.IsMethod i a → g.IsMethod i a := by
    rintro i a ⟨node', found', isMethod, rfl⟩
    obtain ⟨node, found, labels, id⟩ := alike i node' found'
    exact ⟨node, found, labels ▸ isMethod, id.symm⟩
  have descriptions : ∀ {i t}, g'.Describes i t → g.Describes i t := by
    rintro i t ⟨e, inside, source, type, target, node', found', isDescription⟩
    obtain ⟨node, found, labels, _⟩ := alike t node' found'
    exact ⟨e, edges ▸ inside, source, type, target, node, found, labels ▸ isDescription⟩
  refine ⟨fun e inside => ?_, fun i a is => tidy.ids i a (methods is), fun i j a b first second => ?_,
    fun i a s t is first second => ?_⟩
  · rw [length]
    exact tidy.within e (edges ▸ inside)
  · exact tidy.distinct i j a b (methods first) (methods second)
  · exact tidy.single i a s t (methods is) (descriptions first) (descriptions second)

theorem node_snoc {nodes : List Node} {new node : Node} (found : (nodes ++ [new])[place]? = some node) :
    nodes[place]? = some node ∨ place = nodes.length ∧ node = new := by
  rw [List.getElem?_append] at found
  split at found
  · exact .inl found
  next beyond =>
    obtain ⟨last, rfl⟩ := List.getElem?_eq_some_iff.mp found
    simp only [List.length_singleton] at last
    exact .inr ⟨by omega, by simp⟩

theorem isMethod_snoc {new : Node} {edges : List Edge} (is : IsMethod ⟨g.nodes ++ [new], edges⟩ place id) :
    g.IsMethod place id ∨ place = g.nodes.length ∧ "Method" ∈ new.labels ∧ new.properties "id" = id := by
  obtain ⟨node, found, isMethod, same⟩ := is
  rcases node_snoc found with old | ⟨rfl, rfl⟩
  · exact .inl ⟨node, old, isMethod, same⟩
  · exact .inr ⟨rfl, isMethod, same⟩

/-- A node that is added has no description, and is none of another. -/
theorem describes_snoc {new : Node} {target : Nat} (tidy : g.Tidy)
    (describes : Describes ⟨g.nodes ++ [new], g.edges⟩ place target) : g.Describes place target := by
  obtain ⟨e, inside, source, type, rfl, node, found, isDescription⟩ := describes
  rw [List.getElem?_append_left (tidy.within e inside).2] at found
  exact ⟨e, inside, source, type, rfl, node, found, isDescription⟩

theorem Describes.there {target : Nat} (tidy : g.Tidy) (describes : g.Describes place target) : place < g.nodes.length := by
  obtain ⟨e, inside, rfl, _⟩ := describes
  exact (tidy.within e inside).1

/-- A node is added; if it is a method, it is no method that is there. -/
theorem Tidy.snoc {new : Node} (tidy : g.Tidy) (isNew : "Method" ∈ new.labels → (new.properties "id").Identifies ∧
      ∀ i a, g.IsMethod i a → a.same (new.properties "id") = false) : Tidy ⟨g.nodes ++ [new], g.edges⟩ where
  within := by
    intro e inside
    have old := tidy.within e inside
    simp only [List.length_append, List.length_singleton]
    omega
  ids := by
    intro i a is
    rcases isMethod_snoc is with old | ⟨_, isMethod, rfl⟩
    · exact tidy.ids i a old
    · exact (isNew isMethod).1
  distinct := by
    intro i j a b first second apart
    rcases isMethod_snoc first with old | ⟨rfl, isMethod, rfl⟩
    · rcases isMethod_snoc second with old' | ⟨rfl, isMethod, rfl⟩
      · exact tidy.distinct i j a b old old' apart
      · exact (isNew isMethod).2 i a old
    · rcases isMethod_snoc second with old' | ⟨rfl, _⟩
      · rw [Value.same_comm (isNew isMethod).1.2]
        exact (isNew isMethod).2 j b old'
      · exact absurd rfl apart
  single := by
    intro i a s t is first second
    have first' := describes_snoc tidy first
    have second' := describes_snoc tidy second
    rcases isMethod_snoc is with old | ⟨rfl, _⟩
    · exact tidy.single i a s t old first' second'
    · exact absurd (first'.there tidy) (Nat.lt_irrefl _)

end Nodes

section Edges

theorem describes_join {e : Edge} {target : Nat} (describes : Describes ⟨g.nodes, g.edges ++ [e]⟩ place target) :
    g.Describes place target ∨ e.source = place ∧ e.type = "HAS_DESCRIPTION" ∧ e.target = target := by
  obtain ⟨e', inside, source, type, leads, there⟩ := describes
  rcases List.mem_append.mp inside with old | new
  · exact .inl ⟨e', old, source, type, leads, there⟩
  · cases List.mem_singleton.mp new
    exact .inr ⟨source, type, leads⟩

/-- An edge is added, which says that something has a description only where nothing does yet. -/
theorem Tidy.connect {e : Edge} (tidy : g.Tidy) (within : e.source < g.nodes.length ∧ e.target < g.nodes.length)
    (first : e.type = "HAS_DESCRIPTION" → ∀ t, ¬g.Describes e.source t) : Tidy ⟨g.nodes, g.edges ++ [e]⟩ where
  within := List.forall_mem_append.mpr ⟨tidy.within, List.forall_mem_singleton.mpr within⟩
  ids := tidy.ids
  distinct := tidy.distinct
  single := by
    intro i a s t is one other
    rcases describes_join one with old | ⟨rfl, type, rfl⟩
    · rcases describes_join other with old' | ⟨rfl, type, rfl⟩
      · exact tidy.single i a s t is old old'
      · exact absurd old (first type s)
    · rcases describes_join other with old' | ⟨_, _, rfl⟩
      · exact absurd old' (first type t)
      · rfl

end Edges

/-- A write that is no description, and that gives each method an identity. -/
def Write.Neat (w : Write) : Prop :=
  match w.merge with
  | .node label names => "id" ∉ names ∧ (label = "Method" → (w.row.field "id").Identifies)
  | .edge _ type _ => type ≠ "HAS_DESCRIPTION"

theorem Tidy.mergeNode (tidy : g.Tidy) {label : String} {names : List String} {row : Value} (leaves : "id" ∉ names)
    (identifies : label = "Method" → (row.field "id").Identifies) : (g.mergeNode label names row).Tidy := by
  have sets : ∀ node : Node, (node.set names row).properties "id" = node.properties "id" := fun node => if_neg leaves
  unfold Graph.mergeNode
  split
  · refine tidy.of_alike rfl (List.length_map ..) fun i node' found' => ?_
    obtain ⟨node, found, rfl⟩ := Option.map_eq_some_iff.mp (List.getElem?_map .. ▸ found')
    refine ⟨node, found, ?_⟩
    split
    · exact ⟨rfl, sets node⟩
    · exact ⟨rfl, rfl⟩
  next nobody =>
    refine tidy.snoc fun isMethod => ?_
    obtain rfl : label = "Method" := (List.mem_singleton.mp isMethod).symm
    have own : ((Node.fresh "Method" (row.field "id")).set names row).properties "id" = row.field "id" := sets _
    rw [own]
    refine ⟨identifies rfl, ?_⟩
    rintro i _ ⟨node, found, isMethod, rfl⟩
    refine Bool.eq_false_iff.mpr fun same => nobody ?_
    exact List.any_eq_true.mpr ⟨node, List.mem_of_getElem? found, by simp [Node.has, isMethod, same]⟩

theorem Tidy.join (tidy : g.Tidy) {type : String} {ends : Nat × Nat} (other : type ≠ "HAS_DESCRIPTION")
    (within : ends.1 < g.nodes.length ∧ ends.2 < g.nodes.length) : (g.join type ends).Tidy := by
  unfold Graph.join
  split
  · exact tidy
  · exact tidy.connect within fun same => absurd same other

theorem nodes_join (g : Graph) (type : String) (ends : Nat × Nat) : (g.join type ends).nodes = g.nodes := by
  unfold join
  split <;> rfl

theorem Tidy.mergeEdge (tidy : g.Tidy) (sourceLabel : String) {type : String} (targetLabel : String) (row : Value)
    (other : type ≠ "HAS_DESCRIPTION") : (g.mergeEdge sourceLabel type targetLabel row).Tidy := by
  have there : ∀ {label id place}, place ∈ g.places label id → place < g.nodes.length := by
    intro label id place inside
    obtain ⟨node, found, _⟩ := mem_places_iff.mp inside
    exact (List.getElem?_eq_some_iff.mp found).1
  have within : ∀ ends ∈ g.ends sourceLabel targetLabel row, ends.1 < g.nodes.length ∧ ends.2 < g.nodes.length := by
    intro ends inside
    obtain ⟨i, source, inside⟩ := List.mem_flatMap.mp inside
    obtain ⟨j, target, rfl⟩ := List.mem_map.mp inside
    exact ⟨there source, there target⟩
  unfold Graph.mergeEdge
  generalize g.ends sourceLabel targetLabel row = pairs at within
  induction pairs generalizing g with
  | nil => exact tidy
  | cons ends rest ih =>
    have joined := tidy.join other (within ends (List.mem_cons_self ..))
    refine ih joined (fun {label id place} inside => ?_) fun ends inside => ?_
    · obtain ⟨node, found, _⟩ := mem_places_iff.mp inside
      exact (List.getElem?_eq_some_iff.mp found).1
    · rw [nodes_join]
      exact within ends (List.mem_cons_of_mem _ inside)

theorem Tidy.writeAll (tidy : g.Tidy) {writes : List Write} (neat : ∀ w ∈ writes, w.Neat) : (g.writeAll writes).Tidy := by
  induction writes generalizing g with
  | nil => exact tidy
  | cons w rest ih =>
    have first := neat w (List.mem_cons_self ..)
    refine ih ?_ fun w inside => neat w (List.mem_cons_of_mem _ inside)
    obtain ⟨merge, row⟩ := w
    cases merge with
    | node label names => exact tidy.mergeNode first.1 first.2
    | edge sourceLabel type targetLabel => exact tidy.mergeEdge sourceLabel targetLabel row first

section Describe

/-- The node of a description. -/
def Node.described (parameters : Value) : Node where
  labels := ["Description"]
  properties := fun
    | "id" => parameters.field "description_id"
    | "content" => parameters.field "content"
    | "type" => .str "llm_generated"
    | "source_file" => parameters.field "source_file"
    | _ => .null

/-- The node at a place gets a description. -/
def addDescription (parameters : Value) (g : Graph) (place : Nat) : Graph where
  nodes := g.nodes ++ [Node.described parameters]
  edges := g.edges ++ [⟨place, "HAS_DESCRIPTION", g.nodes.length, fun _ => .null⟩]

/-- What the statement that writes descriptions does: each method of the identity gets a new one. -/
def describe (g : Graph) (parameters : Value) : Graph :=
  (g.places "Method" (parameters.field "method_id")).foldl (addDescription parameters) g

/-- Methods are told apart by their identities. -/
theorem Tidy.place_unique (tidy : g.Tidy) {i j : Nat} {a b : Value} (first : g.IsMethod i a) (second : g.IsMethod j b)
    (same : a.same id = true) (same' : b.same id = true) : i = j := by
  refine Decidable.byContradiction fun apart => ?_
  have key := (tidy.ids j b second).2
  have back : id.same b = true := by rwa [← Value.same_comm key]
  have equal := Value.same_trans (Value.isKey_of_same key same') same back
  rw [tidy.distinct i j a b first second apart] at equal
  cases equal

theorem isMethod_addDescription {parameters : Value} {at_place : Nat}
    (is : (g.addDescription parameters at_place).IsMethod place id) : g.IsMethod place id := by
  rcases isMethod_snoc is with old | ⟨_, isMethod, _⟩
  · exact old
  · simp [Node.described] at isMethod

theorem describes_addDescription (tidy : g.Tidy) {parameters : Value} {at_place target : Nat}
    (describes : (g.addDescription parameters at_place).Describes place target) :
    g.Describes place target ∨ at_place = place := by
  rcases describes_join (g := ⟨g.nodes ++ [_], g.edges⟩) describes with old | ⟨same, _⟩
  · exact .inl (describes_snoc tidy old)
  · exact .inr same

theorem Tidy.addDescription (tidy : g.Tidy) (parameters : Value) (there : place < g.nodes.length)
    (first : ∀ t, ¬g.Describes place t) : (g.addDescription parameters place).Tidy := by
  have added : Tidy ⟨g.nodes ++ [Node.described parameters], g.edges⟩ :=
    tidy.snoc fun isMethod => by simp [Node.described] at isMethod
  refine added.connect ?_ fun _ t describes => first t (describes_snoc tidy describes)
  simp only [List.length_append, List.length_singleton]
  omega

/-- At most one method goes by an identity, so that nothing is described twice. -/
theorem Tidy.describe_cases (tidy : g.Tidy) (parameters : Value) : g.describe parameters = g ∨
    ∃ place own, g.IsMethod place own ∧ own.same (parameters.field "method_id") = true ∧
      g.describe parameters = g.addDescription parameters place := by
  have each : ∀ place ∈ g.places "Method" (parameters.field "method_id"), ∃ own, g.IsMethod place own ∧
      own.same (parameters.field "method_id") = true := fun _ => mem_places_method.mp
  have once : (g.places "Method" (parameters.field "method_id")).Nodup := by
    refine List.Nodup.sublist (List.Sublist.map _ List.filter_sublist) ?_
    rw [List.zipIdx_map_snd]
    exact List.nodup_range'
  unfold describe
  generalize g.places "Method" (parameters.field "method_id") = found at each once
  cases found with
  | nil => exact .inl rfl
  | cons place rest =>
    obtain ⟨own, is, same⟩ := each place (List.mem_cons_self ..)
    cases rest with
    | nil => exact .inr ⟨place, own, is, same, rfl⟩
    | cons other rest =>
      obtain ⟨own', is', same'⟩ := each other (by simp)
      obtain rfl := tidy.place_unique is is' same same'
      simp at once

theorem Tidy.describe (tidy : g.Tidy) {parameters : Value} (lacks : g.Lacks (parameters.field "method_id")) :
    (g.describe parameters).Tidy := by
  rcases tidy.describe_cases parameters with same | ⟨place, own, is, same, described⟩
  · rw [same]
    exact tidy
  · have there : place < g.nodes.length := is.elim fun _ node => (List.getElem?_eq_some_iff.mp node.1).1
    rw [described]
    exact tidy.addDescription parameters there fun t => lacks place own t is same

/-- What is written beside one method leaves the others without a description. -/
theorem Lacks.describe (lacks : g.Lacks id) (tidy : g.Tidy) {parameters : Value}
    (other : (parameters.field "method_id").same id = false) : (g.describe parameters).Lacks id := by
  rcases tidy.describe_cases parameters with same | ⟨place, own, is, same, described⟩
  · rw [same]
    exact lacks
  · rw [described]
    intro i a t is' same' describes
    have old := isMethod_addDescription is'
    rcases describes_addDescription tidy describes with before | rfl
    · exact lacks i a t old same' before
    · obtain ⟨node, found, _, rfl⟩ := is
      obtain ⟨node', found', isMethod, rfl⟩ := old
      cases Option.some.inj (found.symm.trans found')
      have key := (tidy.ids place _ ⟨node, found, isMethod, rfl⟩).2
      have back : (parameters.field "method_id").same (node.properties "id") = true := by
        rwa [Value.same_comm (Value.isKey_of_same key same)]
      rw [Value.same_trans key back same'] at other
      cases other

end Describe

section Listing

/-- The methods without a description, with their places. -/
def undescribed (g : Graph) : List (Node × Nat) :=
  g.nodes.zipIdx.filter fun at_place => at_place.1.labels.contains "Method" &&
    (g.neighbours at_place.2 "HAS_DESCRIPTION" "Description").isEmpty

/-- What is told of each method that has no description. -/
def pendingProperties : List String :=
  ["id", "name", "signature", "class_name", "file_path", "return_type", "start_line", "end_line"]

/-- An answer lists methods without a description, each once and as many as are taken up at a time. -/
structure Lists (g : Graph) (t : Table) : Prop where
  header : ∃ columns, t.header = .list columns ∧
    List.Forall₂ (fun name column => ∃ kind, column = .list [kind, .str name]) pendingProperties columns
  rows : ∃ listed : List (Node × Nat), listed.Subperm g.undescribed ∧
    listed.length = min maxMethodsPerRun g.undescribed.length ∧
    List.Forall₂ (fun at_place row => row = .cells ((pendingProperties.map at_place.1.properties).map .plain))
      listed t.rows

/-- The statement asks for that. -/
theorem text_of_listing : Statement.undescribedMethods.text =
    .str (returning "m" "Method" "\nWHERE NOT (m)-[:HAS_DESCRIPTION]->(:Description)" pendingProperties [] ++
      "LIMIT " ++ toString maxMethodsPerRun ++ "\n") := rfl

theorem not_describes_of_neighbours (none : (g.neighbours place "HAS_DESCRIPTION" "Description").isEmpty = true)
    (target : Nat) : ¬g.Describes place target := by
  rintro ⟨e, inside, rfl, type, rfl, node, found, isDescription⟩
  have there : node ∈ g.neighbours e.source "HAS_DESCRIPTION" "Description" := by
    refine List.mem_filterMap.mpr ⟨e, List.mem_filter.mpr ⟨inside, by simp [type]⟩, ?_⟩
    simp [found, isDescription]
  rw [List.isEmpty_iff.mp none] at there
  cases there

/-- The record of a node, as a listing tells of it. -/
def Node.record (node : Node) : Value :=
  .dict ((pendingProperties.zip (pendingProperties.map node.properties)).map fun (name, v) => (.str name, v))

/-- A method is taken up under the identity of its record. -/
theorem id_ofRecord {record : Value} {m : PendingMethod} (given : ∀ other, record.given "id" other = .ok id)
    (read : PendingMethod.ofRecord record = .ok m) : m.id = id := by
  simp only [PendingMethod.ofRecord, given, bind, Except.bind, pure, Except.pure] at read
  repeat' split at read
  all_goals cases read
  rfl

theorem id_ofRecord_node {node : Node} {m : PendingMethod} (truthy : (node.properties "id").truthy = true)
    (read : PendingMethod.ofRecord node.record = .ok m) : m.id = node.properties "id" := by
  refine id_ofRecord (fun other => ?_) read
  show Except.ok ((node.properties "id").orElse other) = _
  rw [Value.orElse, if_pos truthy]

/-- What is read from a listing is one record for each method listed. -/
theorem Lists.records {t : Table} {records : List Value} (lists : g.Lists t) (read : t.records = .ok records) :
    ∃ listed : List (Node × Nat), listed.Subperm g.undescribed ∧ records = listed.map fun at_place => at_place.1.record := by
  obtain ⟨columns, header, heads⟩ := lists.header
  obtain ⟨listed, some_, _, rows⟩ := lists.rows
  have distinct : pendingProperties.Nodup := by decide
  obtain ⟨made, done, each⟩ := mapM_forall₂ (f := fun row => recordFrom row 0 columns []) rows
    (Q := fun at_place record => record = at_place.1.record) fun at_place row told => by
      have whole : (pendingProperties.map at_place.1.properties).length = pendingProperties.length := by simp
      have read : recordFrom row 0 columns [] = .ok at_place.1.record := by
        rw [told]
        exact recordFrom_ok heads distinct whole [] (by rintro _ ⟨⟩)
      exact ⟨_, read, rfl⟩
  refine ⟨listed, some_, ?_⟩
  have same : t.records = .ok made := by
    simp only [Table.records, header, Value.elements]
    exact done
  have told : List.Forall₂ (· = ·) made (listed.map fun at_place => at_place.1.record) :=
    (List.forall₂_map_right_iff.mpr (each.flip.imp fun _ _ => id)).imp fun _ _ => id
  rw [List.forall₂_eq_eq_eq] at told
  exact (Except.ok.inj (read.symm.trans same)).trans told

theorem mem_undescribed {at_place : Node × Nat} (inside : at_place ∈ g.undescribed) :
    g.nodes[at_place.2]? = some at_place.1 ∧ g.IsMethod at_place.2 (at_place.1.properties "id") ∧
      ∀ target, ¬g.Describes at_place.2 target := by
  obtain ⟨member, isPending⟩ := List.mem_filter.mp inside
  simp only [Bool.and_eq_true, List.contains_iff_mem] at isPending
  have found := List.mem_zipIdx_iff_getElem?.mp member
  exact ⟨found, ⟨_, found, isPending.1, rfl⟩, not_describes_of_neighbours isPending.2⟩

/-- The methods that are taken up have no description, and no two of them go by the same identity. -/
theorem Tidy.listed {t : Table} {records : List Value} {methods : List PendingMethod} (tidy : g.Tidy)
    (lists : g.Lists t) (read : t.records = .ok records) (made : records.mapM PendingMethod.ofRecord = .ok methods) :
    (∀ m ∈ methods, g.Lacks m.id) ∧
      methods.Pairwise fun a b => a.id.same b.id = false ∧ b.id.same a.id = false := by
  obtain ⟨listed, some_, rfl⟩ := lists.records read
  have pending : ∀ at_place ∈ listed, at_place ∈ g.undescribed := fun at_place inside => List.Subperm.subset some_ inside
  have isMethod : ∀ at_place ∈ listed, g.IsMethod at_place.2 (at_place.1.properties "id") :=
    fun at_place inside => (mem_undescribed (pending at_place inside)).2.1
  have ids : methods.map PendingMethod.id = listed.map fun at_place => at_place.1.properties "id" := by
    have taken := map_of_mapM made (p := PendingMethod.id) (q := fun record => record.field "id") fun record inside m read => by
      obtain ⟨at_place, member, rfl⟩ := List.mem_map.mp inside
      exact id_ofRecord_node (tidy.ids _ _ (isMethod at_place member)).1 read
    rw [taken, List.map_map]
    rfl
  constructor
  · intro m inside place own target is same describes
    obtain ⟨at_place, member, id⟩ := List.mem_map.mp (ids ▸ List.mem_map_of_mem inside)
    obtain ⟨_, listed, none⟩ := mem_undescribed (pending at_place member)
    by_cases here : place = at_place.2
    · exact none target (here ▸ describes)
    · rw [← id, tidy.distinct _ _ _ _ is listed here] at same
      cases same
  · have once : listed.Nodup := by
      have places : (g.nodes.zipIdx.map Prod.snd).Nodup := by
        rw [List.zipIdx_map_snd]
        exact List.nodup_range'
      obtain ⟨chosen, perm, sublist⟩ := some_
      exact perm.nodup_iff.mp ((places.of_map.filter _).sublist sublist)
    have apart : ∀ a ∈ listed, ∀ b ∈ listed, a ≠ b → a.2 ≠ b.2 := by
      intro a first b second other here
      have found := (mem_undescribed (pending a first)).1
      rw [here, (mem_undescribed (pending b second)).1] at found
      exact other (Prod.ext (Option.some.inj found).symm here)
    rw [← List.pairwise_map (f := PendingMethod.id) (R := fun a b => a.same b = false ∧ b.same a = false), ids, List.pairwise_map]
    refine once.pairwise_of_forall_ne fun a first b second other => ?_
    have places := apart a first b second other
    exact ⟨tidy.distinct _ _ _ _ (isMethod a first) (isMethod b second) places,
      tidy.distinct _ _ _ _ (isMethod b second) (isMethod a first) (Ne.symm places)⟩

end Listing

end Graph

section Written

theorem SourceMethod.id_truthy (m : SourceMethod) : m.id.truthy = true := by
  unfold SourceMethod.id Value.orElse
  split
  next given => exact given
  next => simp [Value.truthy]

theorem methodRow_id {index : ClassIndex} {m : SourceMethod} {row : Value} (made : methodRow index m = .ok row) :
    row.field "id" = m.id := by
  simp only [methodRow, bind, Except.bind, pure, Except.pure] at made
  repeat' split at made
  all_goals cases made
  rfl

/-- Methods come to be written only with identities. -/
theorem methodRows_identify {index : ClassIndex} {methods : List SourceMethod} {rows ids : List Value}
    (made : methods.mapM (methodRow index) = .ok rows) (keys : (methods.map SourceMethod.id).mapM Value.asKey = .ok ids) :
    ∀ row ∈ rows, (row.field "id").Identifies := by
  have same : rows.map (·.field "id") = methods.map SourceMethod.id :=
    map_of_mapM made fun m _ row => methodRow_id
  intro row inside
  have id := List.mem_map_of_mem (f := (·.field "id")) inside
  rw [same] at id
  obtain ⟨m, _, own⟩ := List.mem_map.mp id
  obtain ⟨k, at_k⟩ := List.mem_iff_getElem?.mp id
  obtain ⟨key, _, isKey⟩ := (getElem?_of_mapM keys).2 at_k
  exact ⟨own ▸ m.id_truthy, (Value.asKey_eq_ok.mp isKey).1⟩

end Written

end CodeAtlas
