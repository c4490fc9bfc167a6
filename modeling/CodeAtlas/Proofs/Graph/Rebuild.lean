import CodeAtlas.Proofs.Graph.Spares
import CodeAtlas.Proofs.Turns.Runs

namespace CodeAtlas

/-- A statement that does nothing but write its rows. -/
structure Statement.Merely (statement : Statement) : Prop where
  does : ∀ parameters g g', statement.Does parameters g g' → g' = g.writeAll (statement.writes (sentRows parameters))
  text : ∃ text, statement.text = .str text

theorem Statement.merely_of_merge {statement : Statement} {merge : Graph.Merge} (merges : statement.merge? = some merge) :
    statement.Merely := by
  constructor
  · intro parameters g g' does
    cases statement <;> first | exact does | cases merges
  · obtain ⟨first, second, text⟩ := Statement.text_of_merge merges
    exact ⟨_, text⟩

theorem Statement.merely_createIndex (index : GraphIndex) : (Statement.createIndex index).Merely :=
  ⟨fun _ _ _ => id, _, rfl⟩

theorem Statement.writes_nil (statement : Statement) : statement.writes [] = [] := by
  unfold Statement.writes
  split <;> rfl

theorem Statement.writes_append (statement : Statement) (first second : List Value) :
    statement.writes (first ++ second) = statement.writes first ++ statement.writes second := by
  unfold Statement.writes
  split
  · exact List.map_append
  · rfl

namespace GraphClient

variable {around : Surroundings} {n : Nat}

/-- What a connected client makes of the answer to a query. -/
def read (statement : Statement) (parameters : Value) (reply : Except Fault Table) : Except Fault (List Value) := do
  let records ← (← reply).records
  journal statement parameters
  return records

/-- A client that is connected asks, and reads the answer. -/
theorem send_eq (n : Nat) (statement : Statement) (parameters : Value) :
    send n statement parameters = .look fun m =>
      if (m.graph n).connected then .ask (.query statement (parameters.orElse (.dict []))) fun reply =>
        .done (read statement (parameters.orElse (.dict [])) reply)
      else .done (.error (.failure .graphClosed)) := by
  refine congrArg Routine.look (funext fun m => ?_)
  cases connected : (m.graph n).connected with
  | false => simp only [Routine.andThen, connected]; rfl
  | true =>
    simp only [Routine.andThen, connected, Bool.not_true, Bool.false_eq_true, if_false, if_true]
    refine congrArg (Routine.ask _) (funext fun reply => ?_)
    cases reply with
    | error fault => rfl
    | ok table =>
      change Routine.bind (liftM (Table.records table)) _ = _
      simp only [read, bind, Except.bind]
      cases Table.records table with
      | error fault => rfl
      | ok records =>
        change Routine.bind (liftM (journal statement (parameters.orElse (.dict [])))) _ = _
        cases journal statement (parameters.orElse (.dict [])) <;> rfl

/-- A client that is connected asks the server once, and reads the answer; one that is not asks nothing. -/
theorem runs_send {statement : Statement} {parameters : Value} {log : List Event} {result : Except Fault (List Value)}
    (runs : (send n statement parameters).Runs log result) : ∃ m,
      (m.graph n).connected = false ∧ log = [.sees m] ∧ result = .error (.failure .graphClosed) ∨
      (m.graph n).connected = true ∧ ∃ reply, log = [.sees m, .hears (.query statement (parameters.orElse (.dict []))) reply] ∧
        result = read statement (parameters.orElse (.dict [])) reply := by
  rw [send_eq] at runs
  cases runs with
  | @look _ _ m _ _ runs =>
    refine ⟨m, ?_⟩
    beta_reduce at runs
    split at runs
    next connected =>
      cases runs with
      | ask runs =>
        obtain ⟨rfl, same⟩ := Routine.runs_done.mp runs
        exact .inr ⟨connected, _, rfl, same⟩
    next closed =>
      obtain ⟨rfl, same⟩ := Routine.runs_done.mp runs
      exact .inl ⟨Bool.not_eq_true _ ▸ closed, rfl, same⟩

/-- What was read is what the answer holds. -/
theorem records_of_read {statement : Statement} {parameters : Value} {reply : Except Fault Table} {records : List Value}
    (came : read statement parameters reply = .ok records) : ∃ table, reply = .ok table ∧ table.records = .ok records := by
  cases reply with
  | error => cases came
  | ok table =>
    change (table.records >>= fun records => journal statement parameters >>= fun _ => .ok records) = .ok records at came
    obtain ⟨records', read, came⟩ := exists_of_bind_ok came
    obtain ⟨_, _, made⟩ := exists_of_bind_ok came
    cases made
    exact ⟨table, rfl, read⟩

theorem read_ok {statement : Statement} (merely : statement.Merely) (entries : List (Value × Value))
    {reply : Except Fault Table} (willing : Ask.Willing (.query statement (.dict entries)) reply) :
    ∃ records, read statement (.dict entries) reply = .ok records := by
  obtain ⟨text, written⟩ := merely.text
  cases reply with
  | error fault => exact willing.elim
  | ok table =>
    obtain ⟨records, readable⟩ := willing
    exact ⟨records, by simp only [read, readable, journal, written, bind, Except.bind]; rfl⟩

/-- A query is sent: its rows are written, or not when it fails. -/
theorem send_makes {statement : Statement} (merely : statement.Merely) {parameters : Value}
    {entries : List (Value × Value)} (named : parameters.orElse (.dict []) = .dict entries) :
    (send n statement parameters).Makes n around (statement.writes (sentRows (.dict entries))) := by
  rw [send_eq, named]
  rintro g r g' ⟨m, seen, rest⟩
  beta_reduce at rest
  split at rest
  next =>
    obtain ⟨reply, _, answered, does, rfl, rfl⟩ := rest
    have ends := fun willing : around.Willing n => read_ok merely entries (willing.answered _ _ answered)
    have written : g' = g ∧ (∃ fault, reply = .error fault) ∨ g' = g.writeAll (statement.writes (sentRows (.dict entries))) := by
      cases reply with
      | ok table => exact Or.inr (merely.does _ g g' does)
      | error fault => exact does.imp (fun same => ⟨same, fault, rfl⟩) (merely.does _ g g')
    rcases written with ⟨rfl, fault, rfl⟩ | rfl
    · exact ⟨[], List.nil_prefix, rfl, nofun, ends⟩
    · exact ⟨_, List.prefix_rfl, rfl, fun _ _ => rfl, ends⟩
  next closed =>
    obtain ⟨rfl, rfl⟩ := rest
    exact ⟨[], List.nil_prefix, rfl, nofun, fun willing => absurd (willing.connected m seen) closed⟩

end GraphClient

/-- A number of rows to be sent at once: a whole number, and not less than one. -/
def Value.IsSize (size : Value) : Prop := ∃ k, size.toIndex = .ok k ∧ 1 ≤ k

theorem Value.isSize_int {size : Int} (positive : 1 ≤ size) : (Value.int size).IsSize := ⟨size, rfl, positive⟩

theorem groupsBy_ok {α : Type} {size : Value} (isSize : size.IsSize) (l : List α) :
    ∃ groups, groupsBy size l = .ok groups ∧ groups.flatten = l := by
  obtain ⟨k, index, positive⟩ := isSize
  refine ⟨groupsOf k.toNat l, ?_, groupsOf_flatten (by omega) l⟩
  have nonzero : ¬ k = 0 := by omega
  simp only [groupsBy, index, bind, Except.bind, nonzero, if_false]

/-- What stands in a group was there before. -/
theorem mem_of_groupsBy {α : Type} {size : Value} {l : List α} {groups : List (List α)}
    (grouped : groupsBy size l = .ok groups) {group : List α} (inside : group ∈ groups) {a : α} (member : a ∈ group) :
    a ∈ l := by
  have either : groups = [] ∨ groups.flatten = l := by
    cases index : size.toIndex with
    | error fault => simp [groupsBy, index, bind, Except.bind] at grouped
    | ok n =>
      simp only [groupsBy, index, bind, Except.bind] at grouped
      split at grouped
      · cases grouped
      · cases grouped
        by_cases positive : 0 < n.toNat
        · exact .inr (groupsOf_flatten positive l)
        · rw [groupsOf, if_pos (.inl (by omega))]
          exact .inl rfl
  rcases either with rfl | rfl
  · cases inside
  · exact List.mem_flatten.mpr ⟨group, inside, member⟩

/-- A way to account for what is written that goes by the parts of a routine. -/
structure Accounting (n : Nat) (writes : (α : Type) → Routine α → List Graph.Write → Prop) : Prop where
  done : ∀ {α} (a : α), writes α (.done (.ok a)) []
  now : writes _ (Routine.request .now) []
  bind : ∀ {α β p first second} {f : α → Routine β}, writes α p first → (∀ a, writes β (f a) second) →
    writes β (p >>= f) (first ++ second)
  /-- What writes nothing still writes nothing when its faults are dealt with. -/
  rescue : ∀ {α p} {handler : Fault → Routine α}, writes α p [] → (∀ fault, writes α (handler fault) []) →
    writes α (p.rescue handler) []
  send : ∀ {statement : Statement} {parameters entries}, statement.Merely →
    parameters.orElse (.dict []) = .dict entries →
    writes _ (GraphClient.send n statement parameters) (statement.writes (sentRows (.dict entries)))

namespace Accounting

variable {n : Nat} {writes : (α : Type) → Routine α → List Graph.Write → Prop} {size : Value}

/-- What writes nothing may stand in front. -/
theorem after (accounting : Accounting n writes) {α β : Type} {p : Routine α} {f : α → Routine β} {w : List Graph.Write}
    (nothing : writes α p []) (rest : ∀ a, writes β (f a) w) : writes β (p >>= f) w := accounting.bind nothing rest

theorem compute {α β : Type} {x : Except Fault α} {a : α} {f : α → Routine β} {w : List Graph.Write} (done : x = .ok a)
    (rest : writes β (f a) w) : writes β (Routine.ofExcept x >>= f) w := by
  subst done
  exact rest

theorem sendGroups (accounting : Accounting n writes) {statement : Statement} (merely : statement.Merely) (sent : Nat)
    (groups : List (List Value)) :
    writes _ (GraphClient.sendGroups n statement (.str "rows") sent groups) (statement.writes groups.flatten) := by
  induction groups generalizing sent with
  | nil => exact statement.writes_nil ▸ accounting.done _
  | cons group rest ih =>
    rw [List.flatten_cons, statement.writes_append]
    have named : (Value.dict [(.str "rows", .list group)]).orElse (.dict []) = .dict [(.str "rows", .list group)] := rfl
    exact accounting.bind (accounting.send merely named) fun _ => ih _

theorem writeRows (accounting : Accounting n writes) {statement : Statement} (merely : statement.Merely)
    (isSize : size.IsSize) (rows : List Value) :
    writes _ (CodeAtlas.writeRows n size statement rows) (statement.writes rows) := by
  unfold CodeAtlas.writeRows
  split
  next none =>
    rw [List.isEmpty_iff.mp none, statement.writes_nil]
    exact accounting.done _
  next =>
    obtain ⟨groups, grouped, whole⟩ := groupsBy_ok isSize rows
    rw [← whole]
    rw [← whole] at grouped
    exact compute grouped (accounting.sendGroups merely 0 groups)

theorem createIndexes (accounting : Accounting n writes) (indexes : List GraphIndex) :
    writes _ (CodeAtlas.createIndexes n indexes) [] := by
  induction indexes with
  | nil => exact accounting.done _
  | cons index rest ih =>
    have asks : writes _ (GraphClient.run n (.createIndex index)) [] :=
      accounting.send (Statement.merely_createIndex index) rfl
    refine accounting.after (accounting.rescue (accounting.after asks fun _ => ?_) fun _ => ?_) fun _ => ih
    · exact accounting.done _
    · exact accounting.done _

/-- A build writes its rows in their order. -/
theorem buildGraph (accounting : Accounting n writes) {s : Snapshot} {r : BuildRows} (rows : r.Of s)
    (isSize : size.IsSize) : writes _ (CodeAtlas.buildGraph n size s) r.writes := by
  have whole : r.writes = Statement.mergeClasses.writes r.classes ++ (Statement.mergeMethods.writes r.methods ++
      (Statement.mergeEndpoints.writes r.endpoints ++ (Statement.mergeContains.writes (r.contains.filterMap id) ++
      (Statement.mergeCalls.writes r.callRows ++
      (Statement.mergeHandledBy.writes (r.handledBy.filterMap id) ++
      (Statement.mergeExtends.writes (r.inherits.filterMap id) ++ [])))))) := by
    simp only [BuildRows.writes, writesOf, BuildRows.nodePhases, BuildRows.edgePhases, List.flatMap_cons,
      List.flatMap_nil, List.append_nil, List.append_assoc]
  rw [whole]
  have phase : ∀ {statement : Statement} {merge : Graph.Merge}, statement.merge? = some merge → ∀ rows,
      writes _ (CodeAtlas.writeRows n size statement rows) (statement.writes rows) :=
    fun merges => accounting.writeRows (Statement.merely_of_merge merges) isSize
  -- phase by phase; what is computed in between writes nothing
  refine accounting.after (accounting.now) fun start => ?_
  refine accounting.after (accounting.createIndexes _) fun _ => ?_
  refine compute rows.index (compute rows.classes (compute rows.methods (compute rows.ids ?_)))
  refine accounting.bind (phase rfl _) fun _ => accounting.bind (phase rfl _) fun _ => compute rows.endpoints ?_
  refine accounting.bind (phase rfl _) fun _ => compute rows.contains ?_
  refine accounting.bind (phase rfl _) fun _ => compute rows.calls ?_
  refine accounting.bind (phase rfl _) fun _ => compute rows.handledBy ?_
  refine accounting.bind (phase rfl _) fun _ => compute rows.inherits ?_
  refine accounting.bind (phase rfl _) fun _ => accounting.after (accounting.now) fun _ => ?_
  exact accounting.done _

end Accounting

section Build

variable {around : Surroundings} {n : Nat} {size : Value}

theorem Accounting.makes (n : Nat) (around : Surroundings) : Accounting n fun _ p writes => p.Makes n around writes where
  done := Routine.makes_done
  now := Routine.makes_request .now
  bind := Routine.Makes.bind
  rescue := Routine.Makes.rescue
  send merely named := GraphClient.send_makes merely named

theorem createIndexes_makes (indexes : List GraphIndex) : (createIndexes n indexes).Makes n around [] :=
  (Accounting.makes n around).createIndexes indexes

/-- Whatever happens, a build makes the first of its writes, all of them when it ends well. -/
theorem buildGraph_makes {s : Snapshot} {r : BuildRows} (rows : r.Of s) (isSize : size.IsSize) :
    (buildGraph n size s).Makes n around r.writes :=
  (Accounting.makes n around).buildGraph rows isSize

end Build

/-- An attempt to build in any surroundings. -/
def Attempt (n : Nat) (s : Snapshot) (size : Value) (g : Graph) (r : Except Fault BuildCounts) (g' : Graph) : Prop :=
  (buildGraph n size s).Leaves .any g r g'

/-- Builds of one snapshot can be repeated, with any sizes and wherever they stopped. -/
structure Rebuilds (n : Nat) (s : Snapshot) : Prop where
  /-- In willing surroundings there is a way through a build, and all of them end well. -/
  completes : ∀ {size g}, size.IsSize → (∃ r g', (buildGraph n size s).Leaves (.willing n) g r g') ∧
    ∀ r g', (buildGraph n size s).Leaves (.willing n) g r g' → Attempt n s size g r g' ∧ ∃ counts, r = .ok counts
  /-- However an attempt ends, a complete one after it leaves what a complete one alone would have left. -/
  resumes : ∀ {size size' size'' g g₁ g₂ g₃ r counts counts'}, size.IsSize → size'.IsSize → size''.IsSize →
    Attempt n s size g r g₁ → Attempt n s size' g₁ (.ok counts) g₂ → Attempt n s size'' g (.ok counts') g₃ → g₂ = g₃
  again : ∀ {size size' g g₁ g₂ counts counts'}, size.IsSize → size'.IsSize →
    Attempt n s size g (.ok counts) g₁ → Attempt n s size' g₁ (.ok counts') g₂ → g₂ = g₁
  sizes : ∀ {size size' g g₁ g₂ counts counts'}, size.IsSize → size'.IsSize →
    Attempt n s size g (.ok counts) g₁ → Attempt n s size' g (.ok counts') g₂ → g₁ = g₂
  /-- No attempt alters what the snapshot does not mention. -/
  spares : ∀ {size g g' r}, size.IsSize → Attempt n s size g r g' → s.Spares g g'

/-- Every snapshot of texts can be built again and again. -/
theorem buildGraph_rebuilds (n : Nat) {s : Snapshot} (textual : s.Textual) : Rebuilds n s := by
  obtain ⟨rows, of, sound⟩ := textual.rows_ok
  obtain ⟨nodes, edges⟩ := sound.writes textual
  have begins : ∀ {size g r g'}, size.IsSize → Attempt n s size g r g' →
      ∃ made, made <+: rows.writes ∧ g' = g.writeAll made := fun isSize attempt => by
    obtain ⟨made, begun, left, _⟩ := buildGraph_makes of isSize _ _ _ attempt
    exact ⟨made, begun, left⟩
  have builds : ∀ {size g counts g'}, size.IsSize → Attempt n s size g (.ok counts) g' → g' = g.writeAll rows.writes :=
    fun isSize attempt => by
      obtain ⟨made, _, left, whole, _⟩ := buildGraph_makes of isSize _ _ _ attempt
      rwa [← whole _ rfl]
  have resumed : ∀ {made : List Graph.Write} (g : Graph), made <+: rows.writes →
      (g.writeAll made).writeAll rows.writes = g.writeAll rows.writes := fun g begun =>
    g.writeAll_resumed (fun w inside => (nodes w inside).2) (fun w inside => (edges w inside).2) begun
  constructor
  case completes =>
    intro size g isSize
    refine ⟨Routine.exists_willing n _ g, fun r g' leaves => ⟨leaves.any, ?_⟩⟩
    obtain ⟨_, _, _, _, ends⟩ := buildGraph_makes of isSize _ _ _ leaves
    exact ends (Surroundings.willing_willing n)
  case resumes =>
    intro size size' size'' g g₁ g₂ g₃ r counts counts' isSize isSize' isSize'' first second whole
    obtain ⟨made, begun, rfl⟩ := begins isSize first
    rw [builds isSize' second, builds isSize'' whole, resumed g begun]
  case again =>
    intro size size' g g₁ g₂ counts counts' isSize isSize' first second
    rw [builds isSize' second, builds isSize first, resumed g List.prefix_rfl]
  case sizes =>
    intro size size' g g₁ g₂ counts counts' isSize isSize' first second
    rw [builds isSize first, builds isSize' second]
  case spares =>
    intro size g g' r isSize attempt
    obtain ⟨made, begun, rfl⟩ := begins isSize attempt
    refine Snapshot.spares_writeAll (fun w inside => ?_) g
    rcases List.mem_append.mp (begun.subset inside) with node | edge
    · exact ⟨(nodes w node).1, Or.inl (nodes w node).2⟩
    · exact ⟨(edges w edge).1, Or.inr (edges w edge).2⟩

/-- A snapshot of one class, whose superclass is elsewhere. -/
def shop : Snapshot where
  classes := [⟨.str "Order", .str "com.shop.Order", .str "com.shop", .str "Order.java", .str "CLASS",
    .str "com.base.Entity", .null, false, false, [], 1, 9⟩]
  methods := []
  endpoints := []

theorem shop_textual : shop.Textual where
  classes c inside := by
    obtain rfl := List.mem_singleton.mp inside
    exact ⟨⟨_, rfl⟩, ⟨_, rfl⟩, ⟨_, rfl⟩, Or.inl ⟨_, rfl⟩⟩
  methods := by simp [shop]
  endpoints := by simp [shop]

/-- A build of it can stop at its only batch, with the batch written all the same. -/
theorem shop_stops : ∃ g, Attempt 0 shop (.int 1) ⟨[], []⟩ (.error .cancelled) g ∧ g.nodes.length = 1 := by
  obtain ⟨created, g, creates⟩ := Routine.exists_willing 0 (createIndexes 0 GraphIndex.all) ⟨[], []⟩
  obtain ⟨made, begun, rfl, _, ends⟩ := createIndexes_makes _ _ _ _ creates
  obtain rfl := List.prefix_nil.mp begun
  obtain ⟨_, rfl⟩ := ends (Surroundings.willing_willing 0)
  obtain ⟨row, entered⟩ : ∃ row, shop.classes.mapM classRow = .ok [row] := ⟨_, rfl⟩
  let g' := (⟨[], []⟩ : Graph).writeAll (Statement.mergeClasses.writes [row])
  have stops : (writeRows 0 (.int 1) .mergeClasses [row]).Leaves .any ⟨[], []⟩ (.error .cancelled) g' := by
    have grouped : groupsBy (.int 1) [row] = .ok [[row]] := by
      simp [groupsBy, groupsOf, Value.toIndex, bind, Except.bind]
    refine Routine.Leaves.seq (p := Routine.ofExcept _) ⟨grouped.symm, rfl⟩ (Routine.Leaves.stop _ ?_)
    rw [GraphClient.send_eq]
    refine ⟨{ (default : Memory) with graphs := [⟨default, true⟩] }, trivial, ?_⟩
    exact ⟨.error .cancelled, g', trivial, Or.inr rfl, rfl, rfl⟩
  refine ⟨g', ?_, rfl⟩
  refine Routine.Leaves.seq ⟨.ok (0.0 : Float), trivial, rfl, rfl⟩ (Routine.Leaves.seq creates.any ?_)
  refine Routine.Leaves.seq (p := Routine.ofExcept _) ⟨rfl, rfl⟩ ?_
  refine Routine.Leaves.seq (p := Routine.ofExcept _) ⟨entered.symm, rfl⟩ ?_
  refine Routine.Leaves.seq (p := Routine.ofExcept _) ⟨rfl, rfl⟩ ?_
  refine Routine.Leaves.seq (p := Routine.ofExcept _) ⟨rfl, rfl⟩ ?_
  exact Routine.Leaves.stop _ stops

/-- However a build of it stops, a complete one later leaves what it leaves alone. -/
theorem shop_rebuilds :
    Rebuilds 0 shop ∧ ∃ g, Attempt 0 shop (.int 1) ⟨[], []⟩ (.error .cancelled) g ∧ g.nodes.length = 1 :=
  ⟨buildGraph_rebuilds 0 shop_textual, shop_stops⟩

end CodeAtlas
