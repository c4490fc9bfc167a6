import CodeAtlas.Proofs.Graph.Answer
import CodeAtlas.Proofs.Graph.Sections
import Mathlib.Data.List.Nodup
import Mathlib.Data.List.ProdSigma

namespace CodeAtlas

open CodeAtlas.Graph

/-- The class that a method belongs to: the one that its class name means. -/
def ClassIndex.owner? (index : ClassIndex) (m : SourceMethod) : Option SourceClass :=
  match index.resolveClass m.className with
  | .ok owner => owner
  | .error _ => none

/-- The fields of a snapshot are texts, save those that may be left out. -/
structure Snapshot.Spelled (s : Snapshot) : Prop extends s.Textual where
  classPackage : ∀ c ∈ s.classes, c.packageName.IsText
  classFile : ∀ c ∈ s.classes, c.filePath.IsText
  methodName : ∀ m ∈ s.methods, m.name.IsText
  methodFile : ∀ m ∈ s.methods, m.filePath.IsText
  methodReturn : ∀ m ∈ s.methods, m.returnType.IsText

/-- No two classes and no two methods of a snapshot have the same identity. -/
structure Snapshot.Distinct (s : Snapshot) : Prop where
  classes : (s.classes.map SourceClass.id).Nodup
  methods : (s.methods.map SourceMethod.id).Nodup

theorem mapM_cons_ok {α β : Type} {f : α → Except Fault β} {a : α} {l : List α} {made : List β}
    (done : (a :: l).mapM f = .ok made) : ∃ b rest, f a = .ok b ∧ l.mapM f = .ok rest ∧ made = b :: rest := by
  cases head : f a with
  | error fault => simp [List.mapM_cons, head, bind, Except.bind] at done
  | ok b =>
    cases tail : l.mapM f with
    | error fault => simp [List.mapM_cons, head, tail, bind, Except.bind] at done
    | ok rest =>
      simp only [List.mapM_cons, head, tail, bind, Except.bind, pure, Except.pure] at done
      cases done
      exact ⟨b, rest, rfl, rfl, rfl⟩

theorem getElem?_of_mapM {α β : Type} {f : α → Except Fault β} {l : List α} {made : List β} (done : l.mapM f = .ok made) :
    made.length = l.length ∧ ∀ {k : Nat} {a : α}, l[k]? = some a → ∃ b, made[k]? = some b ∧ f a = .ok b := by
  induction l generalizing made with
  | nil =>
    cases done
    exact ⟨rfl, nofun⟩
  | cons first rest ih =>
    obtain ⟨b, others, head, tail, rfl⟩ := mapM_cons_ok done
    obtain ⟨whole, each⟩ := ih tail
    refine ⟨congrArg Nat.succ whole, fun {k a} stands => ?_⟩
    cases k with
    | zero =>
      cases stands
      exact ⟨b, rfl, head⟩
    | succ k => exact each stands

theorem made_of_mapM {α β : Type} {f : α → Except Fault β} {l : List α} {made : List β} (done : l.mapM f = .ok made)
    {a : α} (inside : a ∈ l) : ∃ b ∈ made, f a = .ok b := by
  obtain ⟨k, at_k⟩ := List.mem_iff_getElem?.mp inside
  obtain ⟨b, at_k', made_of⟩ := (getElem?_of_mapM done).2 at_k
  exact ⟨b, List.mem_of_getElem? at_k', made_of⟩

theorem mem_of_mapM {α β : Type} {f : α → Except Fault β} {l : List α} {made : List β} (done : l.mapM f = .ok made)
    {b : β} (inside : b ∈ made) : ∃ a ∈ l, f a = .ok b := by
  obtain ⟨whole, each⟩ := getElem?_of_mapM done
  obtain ⟨k, at_k⟩ := List.mem_iff_getElem?.mp inside
  have short : k < l.length := whole ▸ (List.getElem?_eq_some_iff.mp at_k).1
  obtain ⟨b', at_k', made_of⟩ := each (List.getElem?_eq_getElem short)
  cases at_k.symm.trans at_k'
  exact ⟨_, List.getElem_mem short, made_of⟩

/-- What is kept of a list passed the test, or was kept before. -/
theorem mem_of_filterAuxM {α : Type} {f : α → Except Fault Bool} {l before kept : List α}
    (done : l.filterAuxM f before = .ok kept) :
    ∀ a ∈ kept, a ∈ before ∨ a ∈ l ∧ f a = .ok true := by
  induction l generalizing before with
  | nil =>
    cases done
    exact fun a => .inl
  | cons first rest ih =>
    rw [List.filterAuxM] at done
    cases passes : f first with
    | error fault => simp [passes, bind, Except.bind] at done
    | ok passed =>
      simp only [passes, bind, Except.bind] at done
      intro a inside
      rcases ih done a inside with old | ⟨later, holds⟩
      · cases passed with
        | false => exact .inl old
        | true =>
          rcases List.mem_cons.mp old with rfl | old
          · exact .inr ⟨List.mem_cons_self .., passes⟩
          · exact .inl old
      · exact .inr ⟨List.mem_cons_of_mem _ later, holds⟩

theorem mem_of_filterM {α : Type} {f : α → Except Fault Bool} {l kept : List α}
    (done : l.filterM f = .ok kept) :
    ∀ a ∈ kept, a ∈ l ∧ f a = .ok true := by
  rw [List.filterM] at done
  cases found : l.filterAuxM f [] with
  | error fault => simp [found, bind, Except.bind] at done
  | ok turned =>
    simp only [found, bind, Except.bind, pure, Except.pure] at done
    cases done
    intro a inside
    exact (mem_of_filterAuxM found a (List.mem_reverse.mp inside)).resolve_left List.not_mem_nil

theorem map_of_mapM {α β γ : Type} {f : α → Except Fault β} {l : List α} {made : List β} (done : l.mapM f = .ok made)
    {p : β → γ} {q : α → γ} (same : ∀ a ∈ l, ∀ b, f a = .ok b → p b = q a) : made.map p = l.map q := by
  obtain ⟨whole, each⟩ := getElem?_of_mapM done
  refine List.ext_getElem? fun k => ?_
  rw [List.getElem?_map, List.getElem?_map]
  cases stands : l[k]? with
  | none => rw [List.getElem?_eq_none (whole ▸ List.getElem?_eq_none_iff.mp stands)]; rfl
  | some a =>
    obtain ⟨b, at_k, made_of⟩ := each stands
    rw [at_k]
    exact congrArg some (same a (List.mem_of_getElem? stands) b made_of)

variable {s : Snapshot} {r : BuildRows}

/-- The row of a class, field by field. -/
theorem classRow_eq {c : SourceClass} (textual : c.Textual) : ∃ kind, c.kind.orElse (.str "CLASS") = .str kind ∧
    classRow c = .ok (.record [("id", c.id), ("name", c.name), ("full_name", c.fullName.orElse c.name),
      ("package_name", c.packageName), ("file_path", c.filePath), ("type", .str (capitals kind)),
      ("super_class", c.superclass), ("implements", c.interface), ("is_abstract", .bool c.isAbstract),
      ("is_interface", .bool c.isInterface), ("start_line", .int c.startLine), ("end_line", .int c.endLine)]) := by
  obtain ⟨kind, same⟩ := textual.kind.orElse ⟨"CLASS", rfl⟩
  exact ⟨kind, same, by simp only [classRow, same]; rfl⟩

theorem methodRow_eq (index : ClassIndex) {m : SourceMethod} (textual : m.Textual) :
    ∃ signature, m.shownSignature = .ok signature ∧ methodRow index m = .ok (.record [("id", m.id), ("name", m.name),
      ("signature", signature), ("class_name", ((index.owner? m).map (·.name)).getD m.className),
      ("package_name", ((index.owner? m).map (·.packageName)).getD (.str "")),
      ("file_path", m.filePath.orElse (((index.owner? m).map (·.filePath)).getD (.str ""))), ("modifier", m.modifier),
      ("is_static", .bool m.isStatic), ("return_type", m.returnType), ("parameter_types", .list m.arguments),
      ("start_line", .int m.startLine), ("end_line", .int m.endLine)]) := by
  obtain ⟨owner, found, _⟩ := index.resolveClass_ok (Or.inl textual.className)
  obtain ⟨signature, shown⟩ := textual.shownSignature
  exact ⟨signature, shown, by simp only [methodRow, ClassIndex.owner?, found, shown]; rfl⟩

theorem containsRow?_eq (index : ClassIndex) {m : SourceMethod} (textual : m.Textual) :
    containsRow? index m = .ok ((index.owner? m).map fun owner => edgeRow owner.id m.id) := by
  obtain ⟨owner, found, _⟩ := index.resolveClass_ok (Or.inl textual.className)
  simp only [containsRow?, ClassIndex.owner?, found]
  rfl

theorem apart_of_nodup {rows ids : List Value} (same : rows.map (·.field "id") = ids) (distinct : ids.Nodup)
    (texts : ∀ id ∈ ids, id.IsText) : Apart rows := by
  subst same
  refine (List.pairwise_map.mp distinct).imp_of_mem fun {row other} inside inside' differ => ?_
  have text := texts _ (List.mem_map_of_mem inside)
  have text' := texts _ (List.mem_map_of_mem inside')
  exact Bool.eq_false_iff.mpr fun equal => differ ((text.same_iff text').mp equal)

namespace BuildRows.Of

theorem class_ids (of : r.Of s) (textual : s.Textual) : r.classes.map (·.field "id") = s.classes.map SourceClass.id := by
  refine map_of_mapM of.classes fun c inside row made => ?_
  obtain ⟨row', made', same⟩ := classRow_ok (textual.classes c inside)
  cases made.symm.trans made'
  exact same

theorem method_ids (of : r.Of s) (textual : s.Textual) : r.methods.map (·.field "id") = s.methods.map SourceMethod.id := by
  refine map_of_mapM of.methods fun m inside row made => ?_
  obtain ⟨row', made', same⟩ := methodRow_ok r.index (textual.methods m inside)
  cases made.symm.trans made'
  exact same

theorem classes_apart (of : r.Of s) (textual : s.Textual) (distinct : s.Distinct) : Apart r.classes := by
  refine apart_of_nodup (of.class_ids textual) distinct.classes fun id inside => ?_
  obtain ⟨c, known, rfl⟩ := List.mem_map.mp inside
  exact (textual.classes c known).id

theorem methods_apart (of : r.Of s) (textual : s.Textual) (distinct : s.Distinct) : Apart r.methods := by
  refine apart_of_nodup (of.method_ids textual) distinct.methods fun id inside => ?_
  obtain ⟨m, known, rfl⟩ := List.mem_map.mp inside
  exact (textual.methods m known).id

theorem owner_mem (of : r.Of s) (textual : s.Textual) {m : SourceMethod} (inside : m ∈ s.methods) {owner : SourceClass}
    (owned : r.index.owner? m = some owner) : owner ∈ s.classes := by
  obtain ⟨index, indexed, within⟩ := ClassIndex.ofClasses_ok textual.classes
  cases of.index.symm.trans indexed
  obtain ⟨meant, found, known⟩ := r.index.resolveClass_ok (Or.inl (textual.methods m inside).className)
  simp only [ClassIndex.owner?, found] at owned
  obtain ⟨entry, member, rfl⟩ := known owner owned
  exact within entry member

end BuildRows.Of

/-- The pairs of places that a method and its owner have. -/
def ownership (index : ClassIndex) (g : Graph) (m : SourceMethod) : List (Nat × Nat) :=
  match index.owner? m with
  | some owner => g.ends "Class" "Method" (edgeRow owner.id m.id)
  | none => []

theorem BuildRows.Of.contains_ends (of : r.Of s) (textual : s.Textual) (g : Graph) :
    (r.contains.filterMap id).flatMap (g.ends "Class" "Method") = s.methods.flatMap (ownership r.index g) := by
  have each : r.contains.map (fun row => (row.map (g.ends "Class" "Method")).getD []) =
      s.methods.map (ownership r.index g) := by
    refine map_of_mapM of.contains fun m inside row made => ?_
    cases made.symm.trans (containsRow?_eq r.index (textual.methods m inside))
    unfold ownership
    cases r.index.owner? m <;> rfl
  have present : ∀ rows : List (Option Value), (rows.filterMap id).flatMap (g.ends "Class" "Method") =
      (rows.map fun row => (row.map (g.ends "Class" "Method")).getD []).flatten := by
    intro rows
    induction rows with
    | nil => rfl
    | cons row rest ih =>
      rw [List.map_cons, List.flatten_cons, ← ih]
      cases row <;> rfl
  rw [present, each, List.flatMap_def]

theorem places_nodup (g : Graph) (label : String) (id : Value) : (g.places label id).Nodup := by
  have all : (g.nodes.zipIdx.map Prod.snd).Nodup := by
    rw [List.zipIdx_map_snd]
    exact List.nodup_range'
  exact all.sublist (List.filter_sublist.map _)

theorem ends_nodup (g : Graph) (sourceLabel targetLabel : String) (row : Value) :
    (g.ends sourceLabel targetLabel row).Nodup :=
  List.Nodup.product (places_nodup g ..) (places_nodup g ..)

theorem mem_ownership {index : ClassIndex} {g : Graph} {m : SourceMethod} {pair : Nat × Nat}
    (inside : pair ∈ ownership index g m) : ∃ owner, index.owner? m = some owner ∧
      pair.1 ∈ g.places "Class" owner.id ∧ pair.2 ∈ g.places "Method" m.id := by
  unfold ownership at inside
  split at inside
  next owner owned =>
    obtain ⟨i, source, rest⟩ := List.mem_flatMap.mp inside
    obtain ⟨j, target, rfl⟩ := List.mem_map.mp rest
    exact ⟨owner, owned, source, target⟩
  next => cases inside

/-- No pair of places is that of two methods. -/
theorem ownership_nodup (textual : s.Textual) (distinct : s.Distinct) (index : ClassIndex) (g : Graph) :
    (s.methods.flatMap (ownership index g)).Nodup := by
  refine List.nodup_flatMap.mpr ⟨fun m _ => ?_, ?_⟩
  · unfold ownership
    split
    · exact ends_nodup g ..
    · exact List.nodup_nil
  · refine (List.pairwise_map.mp distinct.methods).imp_of_mem fun {m other} inside inside' differ pair first second => ?_
    obtain ⟨_, _, _, place⟩ := mem_ownership first
    obtain ⟨_, _, _, place'⟩ := mem_ownership second
    obtain ⟨node, stands, has⟩ := mem_places place
    obtain ⟨node', stands', has'⟩ := mem_places place'
    cases stands.symm.trans stands'
    exact differ (Node.has_inj (textual.methods m inside).id (textual.methods other inside').id has has')

/-- What a complete build leaves of a snapshot where there was nothing. -/
structure Built (r : BuildRows) (g : Graph) : Prop where
  classes : ∃ after, g.Section "Class" classProperties r.classes [] after
  methods : ∃ after,
    g.Section "Method" methodProperties r.methods (r.classes.map (Node.ofRow "Class" classProperties)) after
  contains : g.edges.filter (·.type == "CONTAINS") =
    ((r.contains.filterMap id).flatMap (g.ends "Class" "Method")).map (Edge.bare "CONTAINS")
  undescribed : g.edges.filter (·.type == "HAS_DESCRIPTION") = []

def BuildRows.classNodes (r : BuildRows) : List Node := r.classes.map (Node.ofRow "Class" classProperties)

def BuildRows.methodNodes (r : BuildRows) : List Node := r.methods.map (Node.ofRow "Method" methodProperties)

theorem BuildRows.labels_of_class {n : Node} (inside : n ∈ r.classNodes) : n.labels = ["Class"] := by
  obtain ⟨row, _, rfl⟩ := List.mem_map.mp inside
  rfl

theorem BuildRows.labels_of_method {n : Node} (inside : n ∈ r.methodNodes) : n.labels = ["Method"] := by
  obtain ⟨row, _, rfl⟩ := List.mem_map.mp inside
  rfl

theorem writesOf_nodePhases (r : BuildRows) : writesOf r.nodePhases = r.classes.map (⟨.node "Class" classProperties, ·⟩) ++
    (r.methods.map (⟨.node "Method" methodProperties, ·⟩) ++
      r.endpoints.map (⟨.node "Endpoint" ["path", "method"], ·⟩)) := by
  simp only [writesOf, BuildRows.nodePhases, List.flatMap_cons, List.flatMap_nil, List.append_nil]
  rfl

theorem writesOf_edgePhases (r : BuildRows) : writesOf r.edgePhases =
    (r.contains.filterMap id).map (⟨.edge "Class" "CONTAINS" "Method", ·⟩) ++
      (r.callRows.map (⟨.edge "Method" "CALLS" "Method", ·⟩) ++
        ((r.handledBy.filterMap id).map (⟨.edge "Endpoint" "HANDLED_BY" "Method", ·⟩) ++
          (r.inherits.filterMap id).map (⟨.edge "Class" "EXTENDS" "Class", ·⟩))) := by
  simp only [writesOf, BuildRows.edgePhases, List.flatMap_cons, List.flatMap_nil, List.append_nil]
  rfl

/-- The nodes that are written where there was nothing, phase by phase. -/
theorem writeAll_nodePhases (of : r.Of s) (textual : s.Textual) (distinct : s.Distinct) :
    ∃ others : List Node, (⟨[], []⟩ : Graph).writeAll (writesOf r.nodePhases) =
      ⟨r.classNodes ++ r.methodNodes ++ others, []⟩ ∧ ∀ n ∈ others, n.labels = ["Endpoint"] := by
  have classes := writeAll_new ⟨[], []⟩ "Class" (show "id" ∉ classProperties by decide)
    (of.classes_apart textual distinct) fun _ _ => rfl
  have noMethod : ∀ row ∈ r.methods, r.classNodes.any (Node.has "Method" (row.field "id")) = false := by
    intro row _
    refine List.any_eq_false.mpr fun n inside => ?_
    simp [Node.has, BuildRows.labels_of_class inside]
  have methods := writeAll_new ⟨r.classNodes, []⟩ "Method" (show "id" ∉ methodProperties by decide)
    (of.methods_apart textual distinct) noMethod
  have noEndpoint : ∀ n ∈ r.classNodes ++ r.methodNodes, n.labels.contains "Endpoint" = false := by
    intro n inside
    rcases List.mem_append.mp inside with isClass | isMethod
    · rw [BuildRows.labels_of_class isClass]; rfl
    · rw [BuildRows.labels_of_method isMethod]; rfl
  obtain ⟨others, endpoints, labelled⟩ := writeAll_beside (g := ⟨r.classNodes ++ r.methodNodes, []⟩)
    ["path", "method"] r.endpoints (List.append_nil _).symm noEndpoint (by simp)
  refine ⟨others, ?_, labelled⟩
  rw [writesOf_nodePhases, writeAll_append, writeAll_append, classes]
  change ((⟨r.classNodes, []⟩ : Graph).writeAll _).writeAll _ = _
  rw [methods]
  exact endpoints

/-- The edges that are written then: the phases after the first one add none of its type. -/
theorem writeAll_edgePhases (g : Graph) (r : BuildRows) : (g.writeAll (writesOf r.edgePhases)).nodes = g.nodes ∧
    (g.writeAll (writesOf r.edgePhases)).edges.filter (·.type == "CONTAINS") =
      (((r.contains.filterMap id).flatMap (g.ends "Class" "Method")).foldl (join "CONTAINS") g).edges.filter
        (·.type == "CONTAINS") ∧
    (g.writeAll (writesOf r.edgePhases)).edges.filter (·.type == "HAS_DESCRIPTION") =
      g.edges.filter (·.type == "HAS_DESCRIPTION") := by
  rw [writesOf_edgePhases, writeAll_append, writeAll_append, writeAll_append]
  obtain ⟨nodes, contains⟩ := writeAll_joins_beside "Class" "Method" (r.contains.filterMap id) g
  obtain ⟨nodes₁, calls⟩ := writeAll_joins_beside "Method" "Method" r.callRows _
  obtain ⟨nodes₂, handled⟩ := writeAll_joins_beside "Endpoint" "Method" (r.handledBy.filterMap id) _
  obtain ⟨nodes₃, inherits⟩ := writeAll_joins_beside "Class" "Class" (r.inherits.filterMap id) _
  refine ⟨nodes₃.trans (nodes₂.trans (nodes₁.trans nodes)), ?_, ?_⟩
  · rw [inherits _ (by decide), handled _ (by decide), calls _ (by decide), writeAll_joins]
  · rw [inherits _ (by decide), handled _ (by decide), calls _ (by decide), contains _ (by decide)]

theorem writeAll_built (of : r.Of s) (textual : s.Textual) (distinct : s.Distinct) :
    Built r ((⟨[], []⟩ : Graph).writeAll r.writes) := by
  obtain ⟨others, written, labelled⟩ := writeAll_nodePhases of textual distinct
  rw [BuildRows.writes, writeAll_append, written]
  obtain ⟨nodes, contains, undescribed⟩ := writeAll_edgePhases ⟨r.classNodes ++ r.methodNodes ++ others, []⟩ r
  have notClass : ∀ n ∈ [] ++ (r.methodNodes ++ others), n.labels.contains "Class" = false := by
    intro n inside
    rw [List.nil_append] at inside
    rcases List.mem_append.mp inside with isMethod | other
    · rw [BuildRows.labels_of_method isMethod]; rfl
    · rw [labelled n other]; rfl
  have notMethod : ∀ n ∈ r.classNodes ++ others, n.labels.contains "Method" = false := by
    intro n inside
    rcases List.mem_append.mp inside with isClass | other
    · rw [BuildRows.labels_of_class isClass]; rfl
    · rw [labelled n other]; rfl
  refine ⟨⟨r.methodNodes ++ others, by decide, ?_, notClass⟩, ⟨others, by decide, nodes, notMethod⟩, ?_, ?_⟩
  · rw [nodes, List.append_assoc]
    rfl
  · have distinctPairs := ownership_nodup textual distinct r.index ⟨r.classNodes ++ r.methodNodes ++ others, []⟩
    rw [← of.contains_ends textual] at distinctPairs
    have ends := funext (ends_congr nodes "Class" "Method")
    rw [contains, foldl_join_new distinctPairs fun _ _ => rfl, List.nil_append, ends]
    refine List.filter_eq_self.mpr fun edge inside => ?_
    obtain ⟨pair, _, rfl⟩ := List.mem_map.mp inside
    rfl
  · exact undescribed

theorem neighbours_of_edges {g : Graph} {type : String} {pairs : List (Nat × Nat)}
    (edges : g.edges.filter (·.type == type) = pairs.map (Edge.bare type)) (place : Nat) (label : String) :
    g.neighbours place type label =
      (pairs.filter (·.1 == place)).filterMap fun pair => g.nodes[pair.2]?.filter (·.labels.contains label) := by
  rw [neighbours, ← List.filter_filter, edges, List.filter_map, List.filterMap_map]
  rfl

/-- Whether a method belongs to a class, by the identity of the class. -/
def ClassIndex.owns (index : ClassIndex) (c : SourceClass) (m : SourceMethod) : Bool :=
  (index.owner? m).any (·.id.same c.id)

theorem BuildRows.Of.owns_iff (of : r.Of s) (textual : s.Textual) (distinct : s.Distinct) {c : SourceClass}
    (known : c ∈ s.classes) {m : SourceMethod} (inside : m ∈ s.methods) :
    r.index.owns c m ↔ r.index.owner? m = some c := by
  have own := (textual.classes c known).id
  cases owned : r.index.owner? m with
  | none => simp [ClassIndex.owns, owned]
  | some owner =>
    have belongs := of.owner_mem textual inside owned
    have id := (textual.classes owner belongs).id
    simp only [ClassIndex.owns, owned, Option.any_some, id.same_iff own, Option.some.injEq]
    exact ⟨List.inj_on_of_nodup_map distinct.classes belongs known, congrArg SourceClass.id⟩

theorem List.map_filter_eq_flatMap {α β : Type} (f : α → β) (p : α → Bool) (l : List α) :
    (l.filter p).map f = l.flatMap fun a => if p a then [f a] else [] := by
  induction l with
  | nil => rfl
  | cons a rest ih =>
    rw [List.filter_cons, List.flatMap_cons, ← ih]
    split <;> rfl

namespace Built

variable {g : Graph}

/-- Where a class of the snapshot stands. -/
theorem class_at (built : Built r g) (of : r.Of s) (textual : s.Textual) (distinct : s.Distinct) {i : Nat}
    {c : SourceClass} (stands : s.classes[i]? = some c) :
    ∃ row, classRow c = .ok row ∧ g.nodes[i]? = some (Node.ofRow "Class" classProperties row) ∧
      g.places "Class" c.id = [i] := by
  obtain ⟨row, at_i, made⟩ := (getElem?_of_mapM of.classes).2 stands
  have own := textual.classes c (List.mem_of_getElem? stands)
  obtain ⟨row', made', id⟩ := classRow_ok own
  cases made.symm.trans made'
  obtain ⟨after, part⟩ := built.classes
  have node := part.node_at at_i
  have places := part.places_eq (of.classes_apart textual distinct) at_i (id ▸ own.id)
  rw [List.length_nil, Nat.zero_add] at node places
  exact ⟨row, made, node, id ▸ places⟩

theorem method_at (built : Built r g) (of : r.Of s) (textual : s.Textual) (distinct : s.Distinct) {k : Nat}
    {m : SourceMethod} (stands : s.methods[k]? = some m) :
    ∃ row, methodRow r.index m = .ok row ∧
      g.nodes[r.classNodes.length + k]? = some (Node.ofRow "Method" methodProperties row) ∧
      g.places "Method" m.id = [r.classNodes.length + k] := by
  obtain ⟨row, at_k, made⟩ := (getElem?_of_mapM of.methods).2 stands
  have own := textual.methods m (List.mem_of_getElem? stands)
  obtain ⟨row', made', id⟩ := methodRow_ok r.index own
  cases made.symm.trans made'
  obtain ⟨after, part⟩ := built.methods
  have places := part.places_eq (of.methods_apart textual distinct) at_k (id ▸ own.id)
  exact ⟨row, made, part.node_at at_k, id ▸ places⟩

/-- What a class contains is named by its methods, in their order. -/
theorem method_names (built : Built r g) (of : r.Of s) (textual : s.Textual) (distinct : s.Distinct) {i : Nat}
    {c : SourceClass} (stands : s.classes[i]? = some c) :
    (g.neighbours i "CONTAINS" "Method").map (·.properties "name") =
      (s.methods.filter (r.index.owns c)).map SourceMethod.name := by
  have edges := built.contains
  rw [of.contains_ends textual] at edges
  rw [neighbours_of_edges edges, List.filter_flatMap, List.filterMap_flatMap, List.map_flatMap,
    List.map_filter_eq_flatMap]
  refine List.flatMap_congr fun m inside => ?_
  have owns := of.owns_iff textual distinct (List.mem_of_getElem? stands) inside
  cases owned : r.index.owner? m with
  | none =>
    have none : ownership r.index g m = [] := by simp only [ownership, owned]
    simp [none, owned] at owns ⊢
    simp [owns]
  | some owner =>
    obtain ⟨k, at_k⟩ := List.mem_iff_getElem?.mp inside
    obtain ⟨j, at_j⟩ := List.mem_iff_getElem?.mp (of.owner_mem textual inside owned)
    obtain ⟨row, made, node, place⟩ := built.method_at of textual distinct at_k
    obtain ⟨_, _, _, place'⟩ := built.class_at of textual distinct at_j
    have pairs : ownership r.index g m = [(j, r.classNodes.length + k)] := by
      have ends : g.ends "Class" "Method" (edgeRow owner.id m.id) =
          (g.places "Class" owner.id).flatMap fun i => (g.places "Method" m.id).map (i, ·) := rfl
      simp only [ownership, owned, ends, place, place', List.flatMap_cons, List.flatMap_nil, List.map_cons, List.map_nil,
        List.append_nil]
    rw [pairs]
    by_cases here : j = i
    · subst here
      cases at_j.symm.trans stands
      have name : (Node.ofRow "Method" methodProperties row).properties "name" = m.name := by
        obtain ⟨signature, _, made'⟩ := methodRow_eq r.index (textual.methods m inside)
        cases made.symm.trans made'
        rfl
      have method : (Node.ofRow "Method" methodProperties row).labels.contains "Method" = true := rfl
      rw [if_pos (owns.mpr owned), ← name]
      simp only [List.filter_cons, beq_self_eq_true, if_true, List.filter_nil, List.filterMap_cons, List.filterMap_nil,
        node, Option.filter_some, method, List.map_cons, List.map_nil]
    · have other : owner ≠ c := by
        rintro rfl
        obtain ⟨within, _⟩ := List.getElem?_eq_some_iff.mp at_j
        refine here ((List.getElem?_inj (by simpa using within) distinct.classes).mp ?_)
        rw [List.getElem?_map, List.getElem?_map, at_j, stands]
      have elsewhere : r.index.owns c m = false := Bool.eq_false_iff.mpr fun owned' => by
        cases owned.symm.trans (owns.mp owned')
        exact other rfl
      rw [elsewhere]
      simp [here]

end Built

end CodeAtlas
