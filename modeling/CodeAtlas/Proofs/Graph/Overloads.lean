import CodeAtlas.Proofs.Graph.Backing
import CodeAtlas.Proofs.Graph.Descriptions

namespace CodeAtlas

open CodeAtlas.Graph

namespace Graph

variable {g : Graph} {w : Write} {label : String} {id : Value}

theorem places_length (g : Graph) (label : String) (id : Value) :
    (g.places label id).length = g.nodes.countP (Node.has label id) := by
  rw [places, List.length_map, ← List.countP_eq_length_filter]
  conv_rhs => rw [← List.zipIdx_map_fst 0 g.nodes, List.countP_map]
  rfl

/-- A write makes a node only where there was none that it is about. -/
theorem sole_write (node : w.OfNode) (text : id.IsText) (sole : g.nodes.countP (Node.has label id) ≤ 1) :
    (g.write w).nodes.countP (Node.has label id) ≤ 1 := by
  have kept : ∀ n : Node, (n.take w).has label id = n.has label id := fun n => n.has_take node.leaves label id
  cases found : g.nodes.any w.means with
  | true =>
    rw [write_present node found, List.countP_map]
    simpa only [Function.comp_def, kept] using sole
  | false =>
    rw [write_absent node found, List.countP_append, List.countP_singleton, kept]
    split
    next has =>
      let other : Write := ⟨.node label [], .record [("id", id)]⟩
      have ofNode : other.OfNode := ⟨label, [], rfl, List.not_mem_nil, text⟩
      have none : g.nodes.countP (Node.has label id) = 0 := by
        refine List.countP_eq_zero.mpr fun n inside own => ?_
        have means : w.means n = true := node.means_of_fresh ofNode has own
        exact List.any_eq_false.mp found n inside means
      omega
    next => exact sole

theorem sole_writeAll {writes : List Write} (ofNodes : ∀ w ∈ writes, w.OfNode) (text : id.IsText)
    (sole : g.nodes.countP (Node.has label id) ≤ 1) : (g.writeAll writes).nodes.countP (Node.has label id) ≤ 1 := by
  induction writes using List.reverseRecOn with
  | nil => exact sole
  | append_singleton writes w ih =>
    rw [writeAll_snoc]
    exact sole_write (ofNodes w (by simp)) text (ih fun w' inside => ofNodes w' (by simp [inside]))

section Given

variable {n : Node} {p : String}

theorem givenBy_unnamed {writes : List Write} (unnamed : ∀ w ∈ writes, p ∉ w.names) : givenBy writes n p = none := by
  refine List.findSome?_eq_none_iff.mpr fun w inside => ?_
  simp [Write.given, unnamed w (List.mem_reverse.mp inside)]

/-- Of the rows about a node, the last one counts. -/
theorem givenBy_rows {names : List String} (listed : p ∈ names) {rows : List Value} {k : Nat} {row : Value}
    (stands : rows[k]? = some row) (own : n.has label (row.field "id") = true)
    (last : ∀ later row', k < later → rows[later]? = some row' → n.has label (row'.field "id") = false) :
    givenBy (rows.map (⟨.node label names, ·⟩)) n p = some (row.field p) := by
  induction rows using List.reverseRecOn with
  | nil => cases stands
  | append_singleton rows row' ih =>
    rw [List.map_append, List.map_singleton, givenBy_snoc]
    have short : k < (rows ++ [row']).length := (List.getElem?_eq_some_iff.mp stands).1
    rw [List.length_append, List.length_singleton] at short
    rcases Nat.lt_succ_iff_lt_or_eq.mp short with before | rfl
    · have other : n.has label (row'.field "id") = false := last rows.length row' before (by simp)
      have none : Write.given ⟨.node label names, row'⟩ n p = none := by simp [Write.given, Write.means, other]
      rw [List.getElem?_append_left before] at stands
      rw [none, Option.none_or]
      refine ih stands fun later row'' after at_later => last later row'' after ?_
      rwa [List.getElem?_append_left (List.getElem?_eq_some_iff.mp at_later).1]
    · obtain rfl : row' = row := by simpa using stands
      simp [Write.given, Write.means, own, Write.names, listed]

end Given

end Graph

/-- A method that the service reports with a signature. -/
def SourceMethod.Signed (m : SourceMethod) : Prop := m.signature.truthy = true

/-- The name of a method that has no signature to go by: its class and itself, without its arguments. -/
def SourceMethod.standIn (m : SourceMethod) : String := m.className.display ++ "." ++ m.name.display

/-- How a build tells the methods of a snapshot apart. -/
structure TellsApart (n : Nat) (s : Snapshot) : Prop where
  /-- Methods that have signatures go by these alone. -/
  signed : ∀ m ∈ s.methods, ∀ m' ∈ s.methods, m.Signed → m'.Signed → (m.id = m'.id ↔ m.signature = m'.signature)
  /-- The signature of one method may be what stands in for that of another. -/
  mixed : ∀ m ∈ s.methods, ∀ m' ∈ s.methods, m.Signed → ¬ m'.Signed →
    (m.id = m'.id ↔ m.signature = .str m'.standIn)
  unsigned : ∀ m ∈ s.methods, ∀ m' ∈ s.methods, ¬ m.Signed → ¬ m'.Signed → (m.id = m'.id ↔ m.standIn = m'.standIn)
  /-- Names without a point do not run into the names of the classes. -/
  named : ∀ m ∈ s.methods, ∀ m' ∈ s.methods, ¬ m.Signed → ¬ m'.Signed → ∀ {name name' : String}, m.name = .str name →
    m'.name = .str name' → '.' ∉ name.toList → '.' ∉ name'.toList →
      (m.id = m'.id ↔ m.className = m'.className ∧ name = name')
  completes : ∀ {size} (g : Graph), size.IsSize → ∃ counts g', Attempt n s size g (.ok counts) g'
  /-- A complete build leaves every method a node, and a common one to those of one identity only. -/
  shared : ∀ {size g counts g'}, size.IsSize → Attempt n s size g (.ok counts) g' → ∀ m ∈ s.methods, ∀ m' ∈ s.methods,
    (∃ place ∈ g'.places "Method" m.id, place ∈ g'.places "Method" m'.id) ↔ m.id = m'.id
  /-- No method gets a second node. -/
  sole : ∀ {size g counts g'}, size.IsSize → Attempt n s size g (.ok counts) g' → ∀ m ∈ s.methods,
    (g.places "Method" m.id).length ≤ 1 → ∃ place, g'.places "Method" m.id = [place]
  /-- A common node has the properties of the last of its methods. -/
  last : ∀ {size g counts g'}, size.IsSize → Attempt n s size g (.ok counts) g' → ∀ {k : Nat} {m : SourceMethod},
    s.methods[k]? = some m → (∀ later m', k < later → s.methods[later]? = some m' → m'.id ≠ m.id) →
      ∃ index row, ClassIndex.ofClasses s.classes = .ok index ∧ methodRow index m = .ok row ∧
        ∀ place ∈ g'.places "Method" m.id, ∃ node, g'.nodes[place]? = some node ∧
          ∀ p ∈ methodProperties, node.properties p = row.field p

section Names

variable {m m' : SourceMethod}

theorem SourceMethod.Signed.id_eq (signed : m.Signed) : m.id = m.signature := if_pos signed

theorem SourceMethod.id_of_unsigned (unsigned : ¬ m.Signed) : m.id = .str m.standIn := if_neg unsigned

/-- What follows the last point, and what comes before it, can be read off. -/
theorem append_point_inj {before before' after after' : String} (free : '.' ∉ after.toList) (free' : '.' ∉ after'.toList) :
    before ++ "." ++ after = before' ++ "." ++ after' ↔ before = before' ∧ after = after' := by
  constructor
  · intro same
    have chars : before.toList ++ '.' :: after.toList = before'.toList ++ ('.' :: after'.toList) := by
      simpa using congrArg String.toList same
    rcases List.append_cons_eq_append_iff.mp chars with ⟨more, _, rest⟩ | ⟨more, first, rest⟩
    · exact absurd (rest ▸ by simp) free
    · cases more with
      | nil =>
        obtain ⟨_, rest⟩ := List.cons.inj rest
        exact ⟨String.toList_inj.mp (by simpa using first), String.toList_inj.mp rest.symm⟩
      | cons c more =>
        obtain ⟨_, rest⟩ := List.cons.inj rest
        exact absurd (rest ▸ by simp) free'
  · rintro ⟨rfl, rfl⟩
    rfl

theorem SourceMethod.standIn_eq_iff (text : m.className.IsText) (text' : m'.className.IsText) {name name' : String}
    (named : m.name = .str name) (named' : m'.name = .str name') (free : '.' ∉ name.toList) (free' : '.' ∉ name'.toList) :
    m.standIn = m'.standIn ↔ m.className = m'.className ∧ name = name' := by
  obtain ⟨c, owned⟩ := text
  obtain ⟨c', owned'⟩ := text'
  simp only [standIn, owned, owned', named, named', Value.display, append_point_inj free free', Value.str.injEq]

end Names

section Builds

variable {n : Nat} {s : Snapshot} {r : BuildRows} {size : Value} {g g' : Graph} {counts : BuildCounts}

theorem buildGraph_completes (n : Nat) (textual : s.Textual) (g : Graph) (isSize : size.IsSize) :
    ∃ counts g', Attempt n s size g (.ok counts) g' := by
  obtain ⟨r, of, _⟩ := textual.rows_ok
  obtain ⟨result, g', leaves⟩ := Routine.exists_willing n (buildGraph n size s) g
  obtain ⟨_, _, _, _, ends⟩ := buildGraph_makes of isSize _ _ _ leaves
  obtain ⟨counts, rfl⟩ := ends (Surroundings.willing_willing n)
  exact ⟨counts, g', leaves.any⟩

/-- The nodes that a complete build leaves are those of its phases about nodes. -/
theorem Attempt.wrote (attempt : Attempt n s size g (.ok counts) g') (isSize : size.IsSize) (textual : s.Textual) :
    ∃ r : BuildRows, r.Of s ∧ (∀ w ∈ writesOf r.nodePhases, w.OfNode) ∧
      g'.nodes = (g.writeAll (writesOf r.nodePhases)).nodes := by
  obtain ⟨r, of, sound⟩ := textual.rows_ok
  obtain ⟨nodes, edges⟩ := sound.writes textual
  obtain ⟨made, _, left, whole, _⟩ := buildGraph_makes of isSize _ _ _ attempt
  refine ⟨r, of, fun w inside => (nodes w inside).2, ?_⟩
  rw [left, whole counts rfl, BuildRows.writes, writeAll_append]
  exact (writeAll_edges fun w inside => (edges w inside).2).1

/-- Every method is found in what a complete build leaves. -/
theorem Attempt.places_ne_nil (attempt : Attempt n s size g (.ok counts) g') (isSize : size.IsSize) (textual : s.Textual)
    {m : SourceMethod} (inside : m ∈ s.methods) : g'.places "Method" m.id ≠ [] := by
  obtain ⟨r, of, ofNodes, left⟩ := attempt.wrote isSize textual
  have found := ((Snapshot.Knows.ofMethod inside).nodeAmong of textual).places_ne_nil ofNodes g
  rwa [places, ← left] at found

theorem Attempt.sole (attempt : Attempt n s size g (.ok counts) g') (isSize : size.IsSize) (textual : s.Textual)
    {m : SourceMethod} (inside : m ∈ s.methods) (few : (g.places "Method" m.id).length ≤ 1) :
    ∃ place, g'.places "Method" m.id = [place] := by
  obtain ⟨r, of, ofNodes, left⟩ := attempt.wrote isSize textual
  rw [places_length] at few
  have few' := sole_writeAll ofNodes (textual.methods m inside).id few
  rw [← left, ← places_length] at few'
  have found := List.length_pos_iff.mpr (attempt.places_ne_nil isSize textual inside)
  exact List.length_eq_one_iff.mp (by omega)

/-- The properties of methods are given by the rows of methods alone. -/
theorem givenBy_nodePhases {node : Node} {p : String} (listed : p ∈ methodProperties) {v : Value}
    (given : givenBy (r.methods.map (⟨.node "Method" methodProperties, ·⟩)) node p = some v) :
    givenBy (writesOf r.nodePhases) node p = some v := by
  have unnamed : p ∉ ["path", "method"] := fun inside => by
    have apart : ∀ p ∈ methodProperties, p ∉ ["path", "method"] := by decide
    exact apart p listed inside
  have others : givenBy (r.endpoints.map (⟨.node "Endpoint" ["path", "method"], ·⟩)) node p = none := by
    refine givenBy_unnamed fun w inside => ?_
    obtain ⟨row, _, rfl⟩ := List.mem_map.mp inside
    exact unnamed
  rw [writesOf_nodePhases, givenBy_append, givenBy_append, others, Option.none_or, given, Option.some_or]

/-- A node of the last method of an identity has settled on its row. -/
theorem BuildRows.Of.settles (of : r.Of s) (textual : s.Textual) {node : Node}
    (settled : node.Settled (writesOf r.nodePhases)) {k : Nat} {m : SourceMethod} (stands : s.methods[k]? = some m)
    (last : ∀ later m', k < later → s.methods[later]? = some m' → m'.id ≠ m.id)
    (own : node.has "Method" m.id = true) : ∃ row, methodRow r.index m = .ok row ∧
      ∀ p ∈ methodProperties, node.properties p = row.field p := by
  obtain ⟨whole, each⟩ := getElem?_of_mapM of.methods
  obtain ⟨row, at_k, made⟩ := each stands
  refine ⟨row, made, fun p listed => settled p _ (givenBy_nodePhases listed ?_)⟩
  refine givenBy_rows listed at_k (methodRow_id made ▸ own) fun later row' after at_later => ?_
  have short : later < s.methods.length := whole ▸ (List.getElem?_eq_some_iff.mp at_later).1
  obtain ⟨row'', at_later', made'⟩ := each (List.getElem?_eq_getElem short)
  cases at_later.symm.trans at_later'
  rw [methodRow_id made', Bool.eq_false_iff]
  intro has
  have text := (textual.methods m (List.mem_of_getElem? stands)).id
  have text' := (textual.methods _ (List.getElem_mem short)).id
  exact last later _ after (List.getElem?_eq_getElem short) (Node.has_inj text' text has own)

/-- Methods are merged exactly when they go by one name, and never otherwise. -/
theorem buildGraph_tellsApart (n : Nat) {s : Snapshot} (textual : s.Textual) : TellsApart n s := by
  constructor
  case signed =>
    intro m _ m' _ signed signed'
    rw [signed.id_eq, signed'.id_eq]
  case mixed =>
    intro m _ m' _ signed unsigned
    rw [signed.id_eq, SourceMethod.id_of_unsigned unsigned]
  case unsigned =>
    intro m _ m' _ unsigned unsigned'
    rw [SourceMethod.id_of_unsigned unsigned, SourceMethod.id_of_unsigned unsigned', Value.str.injEq]
  case named =>
    intro m inside m' inside' unsigned unsigned' name name' named named' free free'
    rw [SourceMethod.id_of_unsigned unsigned, SourceMethod.id_of_unsigned unsigned', Value.str.injEq]
    exact SourceMethod.standIn_eq_iff (textual.methods m inside).className (textual.methods m' inside').className
      named named' free free'
  case completes => exact fun g isSize => buildGraph_completes n textual g isSize
  case shared =>
    intro size g counts g' isSize attempt m inside m' inside'
    constructor
    · rintro ⟨place, own, own'⟩
      obtain ⟨node, stands, has⟩ := mem_places own
      obtain ⟨node', stands', has'⟩ := mem_places own'
      cases stands.symm.trans stands'
      exact Node.has_inj (textual.methods m inside).id (textual.methods m' inside').id has has'
    · intro same
      obtain ⟨place, own⟩ := List.exists_mem_of_ne_nil _ (attempt.places_ne_nil isSize textual inside)
      exact ⟨place, own, same ▸ own⟩
  case sole => exact fun isSize attempt m inside few => attempt.sole isSize textual inside few
  case last =>
    intro size g counts g' isSize attempt k m stands last
    obtain ⟨r, of, ofNodes, left⟩ := attempt.wrote isSize textual
    obtain ⟨row, _, made⟩ := (getElem?_of_mapM of.methods).2 stands
    refine ⟨r.index, row, of.index, made, fun place inside => ?_⟩
    obtain ⟨node, found, own⟩ := mem_places inside
    have settled := (rested_writeAll g ofNodes).settled node (left ▸ List.mem_of_getElem? found)
    obtain ⟨row', made', properties⟩ := of.settles textual settled stands last own
    cases made.symm.trans made'
    exact ⟨node, found, properties⟩

end Builds

/-- A method of which only its name, its class and its arguments are known, and its signature if there is one. -/
def SourceMethod.reported (signature className name : String) (arguments : List String) : SourceMethod :=
  ⟨.str name, .str signature, .str className, .str "", .str "", false, .str "", arguments.map .str, [], 0, 0, []⟩

/-- A snapshot of methods that differ, pair by pair: in their arguments, in where the name of the class ends, in their
class only; and the first two from a method whose signature is their name. -/
def overloads : Snapshot where
  classes := []
  methods := [.reported "" "Job" "run" ["int"], .reported "" "Job" "run" ["String"], .reported "Job.run" "Task" "start" [],
    .reported "" "Job.Step" "run" [], .reported "" "Job" "Step.run" [],
    .reported "stop()" "Job" "stop" [], .reported "stop()" "Task" "stop" []]
  endpoints := []

theorem SourceMethod.reported_textual (signature className name : String) (arguments : List String) :
    (reported signature className name arguments).Textual where
  signature := ⟨_, rfl⟩
  className := ⟨_, rfl⟩
  arguments a inside := by
    obtain ⟨text, _, rfl⟩ := List.mem_map.mp inside
    exact ⟨text, rfl⟩
  callees := List.forall_mem_nil _

theorem overloads_textual : overloads.Textual where
  classes := List.forall_mem_nil _
  methods := by
    simp only [overloads, List.forall_mem_cons, SourceMethod.reported_textual, true_and]
    exact List.forall_mem_nil _
  endpoints := List.forall_mem_nil _

theorem overloads_ids : overloads.methods.map SourceMethod.id = [.str "Job.run", .str "Job.run", .str "Job.run",
    .str "Job.Step.run", .str "Job.Step.run", .str "stop()", .str "stop()"] := by
  simp [overloads, SourceMethod.reported, SourceMethod.id, Value.orElse, Value.truthy, Value.display]

/-- A build leaves the seven of them three nodes. -/
theorem overloads_merged :
    overloads.methods.Pairwise
        (fun m m' => m.className ≠ m'.className ∨ m.name ≠ m'.name ∨ m.arguments ≠ m'.arguments) ∧
      ∃ counts g', Attempt 0 overloads (.int 1) ⟨[], []⟩ (.ok counts) g' ∧ ∃ run step stop,
        overloads.methods.map (fun m => g'.places "Method" m.id) =
          [[run], [run], [run], [step], [step], [stop], [stop]] := by
  refine ⟨by simp [overloads, SourceMethod.reported], ?_⟩
  have isSize : (Value.int 1).IsSize := Value.isSize_int (Int.le_refl 1)
  obtain ⟨counts, g', attempt⟩ := buildGraph_completes 0 overloads_textual ⟨[], []⟩ isSize
  have placed : ∀ id ∈ overloads.methods.map SourceMethod.id, ∃ place, g'.places "Method" id = [place] := by
    intro id inside
    obtain ⟨m, member, rfl⟩ := List.mem_map.mp inside
    exact attempt.sole isSize overloads_textual member (Nat.zero_le 1)
  rw [overloads_ids] at placed
  obtain ⟨run, atRun⟩ := placed (.str "Job.run") (by simp)
  obtain ⟨step, atStep⟩ := placed (.str "Job.Step.run") (by simp)
  obtain ⟨stop, atStop⟩ := placed (.str "stop()") (by simp)
  refine ⟨counts, g', attempt, run, step, stop, ?_⟩
  have through : overloads.methods.map (fun m => g'.places "Method" m.id) =
      (overloads.methods.map SourceMethod.id).map (g'.places "Method") := List.map_map.symm
  rw [through, overloads_ids]
  simp only [List.map_cons, List.map_nil, atRun, atStep, atStop]

/-- The node of the first three is told by the last of them, and is not that of the next two. -/
theorem overloads_told : overloads.Textual ∧ TellsApart 0 overloads ∧
    ∃ counts g', Attempt 0 overloads (.int 1) ⟨[], []⟩ (.ok counts) g' ∧ ∃ run step, run ≠ step ∧
      g'.places "Method" (.str "Job.run") = [run] ∧ g'.places "Method" (.str "Job.Step.run") = [step] ∧
        ∃ node, g'.nodes[run]? = some node ∧ node.properties "name" = .str "start" := by
  have told := buildGraph_tellsApart 0 overloads_textual
  have isSize : (Value.int 1).IsSize := Value.isSize_int (Int.le_refl 1)
  obtain ⟨counts, g', attempt⟩ := told.completes ⟨[], []⟩ isSize
  let start : SourceMethod := .reported "Job.run" "Task" "start" []
  let within : SourceMethod := .reported "" "Job.Step" "run" []
  have known : start ∈ overloads.methods := by simp [overloads, start]
  have known' : within ∈ overloads.methods := by simp [overloads, within]
  obtain ⟨run, atRun⟩ := told.sole isSize attempt start known (Nat.zero_le 1)
  obtain ⟨step, atStep⟩ := told.sole isSize attempt within known' (Nat.zero_le 1)
  have apart : run ≠ step := by
    rintro rfl
    have same := (told.shared isSize attempt start known within known').mp ⟨run, by simp [atRun], by simp [atStep]⟩
    have other : (Value.str "Job.run") = .str "Job.Step.run" := same
    simp at other
  have last : ∀ later m', 2 < later → overloads.methods[later]? = some m' → m'.id ≠ start.id := by
    intro later m' after stands
    obtain ⟨more, rfl⟩ := Nat.exists_eq_add_of_le after
    have inside : m'.id ∈ (overloads.methods.map SourceMethod.id).drop 3 := by
      refine List.mem_of_getElem? (i := more) ?_
      rw [List.getElem?_drop, List.getElem?_map, stands]
      rfl
    rw [overloads_ids] at inside
    have other : m'.id = .str "Job.Step.run" ∨ m'.id = .str "stop()" := by simpa using inside
    have own : start.id = .str "Job.run" := rfl
    rw [own]
    rcases other with id | id <;> simp [id]
  obtain ⟨index, row, _, made, properties⟩ := told.last isSize attempt (k := 2) rfl last
  have inside : run ∈ g'.places "Method" start.id := atRun ▸ List.mem_singleton_self run
  obtain ⟨node, stands, given⟩ := properties run inside
  obtain ⟨signature, _, made'⟩ := methodRow_eq index (overloads_textual.methods start known)
  cases made.symm.trans made'
  exact ⟨overloads_textual, told, counts, g', attempt, run, step, apart, atRun, atStep, node, stands,
    given "name" (by decide)⟩

end CodeAtlas
