import CodeAtlas.Proofs.Graph.Population
import CodeAtlas.Proofs.Graph.Rebuild
import CodeAtlas.Proofs.Turns.Runs
import CodeAtlas.Registry

namespace CodeAtlas

open CodeAtlas.Graph

/-- Throughout a refresh the client of the registry is connected, and the server answers from one graph. -/
structure ReadsFrom (n k : Nat) (g : Graph) (log : List Event) : Prop where
  connected : ∀ m, Event.sees m ∈ log → (m.registry k).graph = some n ∧ (m.graph n).connected
  answered : ∀ {statement parameters reading} {reply : Except Fault Table}, statement.reading? = some reading →
    Event.hears (.query statement parameters) reply ∈ log → ∃ t, reply = .ok t ∧ reading.Answers g t

/-- The population of a registry is that of a snapshot, in any order. -/
structure Snapshot.Populates (s : Snapshot) (index : ClassIndex) (registry : Registry) : Prop where
  classes : ∃ order, order.Perm s.classes ∧
    List.Forall₂ (SourceClass.ReadsAs index s.methods) order registry.classes
  methods : ∃ order, order.Perm s.methods ∧ List.Forall₂ (SourceMethod.ReadsAs index) order registry.methods
  loaded : registry.loaded = true

/-- What is built from a snapshot is read back. -/
structure RoundTrips (n k : Nat) (s : Snapshot) : Prop where
  /-- A build of a willing server's empty graph ends well. -/
  builds : ∀ {size}, size.IsSize → ∃ counts g, (buildGraph n size s).Leaves (.willing n) ⟨[], []⟩ (.ok counts) g
  /-- The answers that a refresh needs are there for every graph. -/
  refreshes : ∀ {m : Memory} {g}, (m.registry k).graph = some n → (m.graph n).connected →
    ∃ log result, ReadsFrom n k g log ∧ (Registry.refresh k).Runs log result
  /-- A refresh from the graph of a complete build ends with the population of the snapshot. -/
  reads : ∀ {size counts g log result}, size.IsSize → Attempt n s size ⟨[], []⟩ (.ok counts) g → ReadsFrom n k g log →
    (Registry.refresh k).Runs log result →
    ∃ index before m, ClassIndex.ofClasses s.classes = .ok index ∧ result = .ok (s.classes.length, s.methods.length) ∧
      log = before ++ [.stores m] ∧ s.Populates index (m.registry k)

namespace ReadsFrom

variable {n k : Nat} {g : Graph} {log before after : List Event}

theorem left (reads : ReadsFrom n k g (before ++ after)) : ReadsFrom n k g before where
  connected m seen := reads.connected m (List.mem_append_left _ seen)
  answered known heard := reads.answered known (List.mem_append_left _ heard)

theorem right (reads : ReadsFrom n k g (before ++ after)) : ReadsFrom n k g after where
  connected m seen := reads.connected m (List.mem_append_right _ seen)
  answered known heard := reads.answered known (List.mem_append_right _ heard)

end ReadsFrom

namespace GraphClient

variable {n : Nat} {m : Memory} {statement : Statement} {reading : Reading} {log : List Event}

theorem read_records (known : statement.reading? = some reading) {t : Table} {records : List Value}
    (done : t.records = .ok records) : read statement (.dict []) (.ok t) = .ok records := by
  simp only [read, done, journal, Statement.text_of_reading known, bind, Except.bind]
  rfl

theorem runs_run (connected : (m.graph n).connected) {result : Except Fault (List Value)} :
    (run n statement).Runs (.sees m :: log) result ↔ ∃ reply : Except Fault Table,
      log = [.hears (.query statement (.dict [])) reply] ∧ result = read statement (.dict []) reply := by
  rw [run, send_eq]
  constructor
  · intro runs
    cases runs with
    | look runs =>
      beta_reduce at runs
      split at runs
      next =>
        cases runs with
        | ask runs =>
          obtain ⟨rfl, rfl⟩ := Routine.runs_done.mp runs
          exact ⟨_, rfl, rfl⟩
      next closed => exact absurd connected closed
  · rintro ⟨reply, rfl, rfl⟩
    refine .look ?_
    split
    next => exact .ask .done
    next closed => exact absurd connected closed

end GraphClient

namespace ReadsFrom

variable {n k : Nat} {g : Graph} {log : List Event}

theorem query (reads : ReadsFrom n k g log) {statement : Statement} {reading : Reading}
    (known : statement.reading? = some reading) {result : Except Fault (List Value)}
    (runs : (GraphClient.run n statement).Runs log result) :
    ∃ t, reading.Answers g t ∧ ∀ records, t.records = .ok records → result = .ok records := by
  have looks : ∃ m log', log = .sees m :: log' := by cases runs with | look => exact ⟨_, _, rfl⟩
  obtain ⟨m, log', rfl⟩ := looks
  obtain ⟨_, connected⟩ := reads.connected m (List.mem_cons_self ..)
  obtain ⟨reply, rfl, rfl⟩ := (GraphClient.runs_run connected).mp runs
  obtain ⟨t, rfl, answers⟩ := reads.answered known (List.mem_cons_of_mem _ (List.mem_singleton_self _))
  exact ⟨t, answers, fun records => GraphClient.read_records known⟩

end ReadsFrom

variable {n k : Nat} {s : Snapshot} {r : BuildRows} {g : Graph} {log : List Event}

/-- Nothing around a routine changes, and what is asked of the server is answered from a graph. -/
def Conduct.answering (m : Memory) (g : Graph) : Conduct where
  memory _ := m
  reply
    | _, .query statement _ => .ok ((statement.reading?.map (·.answer g)).getD ⟨.null, []⟩)
    | _, _ => .error .cancelled
  grant _ _ := .error .cancelled
  answers _ request := by
    cases request with
    | gather permits jobs => exact .stopped
    | _ => exact .alone nofun

theorem Conduct.Follows.readsFrom {m : Memory} (linked : (m.registry k).graph = some n) (connected : (m.graph n).connected)
    {past : List Event} (follows : (Conduct.answering m g).Follows past log) : ReadsFrom n k g log := by
  induction follows with
  | nil => exact ⟨nofun, nofun⟩
  | sees _ ih =>
    refine ⟨fun m' seen => ?_, fun known heard => ih.answered known ((List.mem_cons.mp heard).resolve_left nofun)⟩
    rcases List.mem_cons.mp seen with ⟨⟨⟩⟩ | later
    · exact ⟨linked, connected⟩
    · exact ih.connected m' later
  | hears _ ih =>
    refine ⟨fun m' seen => ih.connected m' ((List.mem_cons.mp seen).resolve_left nofun), fun known heard => ?_⟩
    rcases List.mem_cons.mp heard with ⟨⟨⟩⟩ | later
    · exact ⟨_, by simp only [Conduct.answering, known]; rfl, Graph.Reading.answer_answers _ g⟩
    · exact ih.answered known later
  | stores _ ih | granted _ ih =>
    exact ⟨fun m' seen => ih.connected m' ((List.mem_cons.mp seen).resolve_left nofun),
      fun known heard => ih.answered known ((List.mem_cons.mp heard).resolve_left nofun)⟩

/-- What is refreshed from the graph of a build is the population of the snapshot. -/
theorem Built.refreshes (built : Built r g) (of : r.Of s) (spelled : s.Spelled) (distinct : s.Distinct)
    (reads : ReadsFrom n k g log) {result : Except Fault (Nat × Nat)} (runs : (Registry.refresh k).Runs log result) :
    result = .ok (s.classes.length, s.methods.length) ∧
      ∃ before m, log = before ++ [.stores m] ∧ s.Populates r.index (m.registry k) := by
  obtain ⟨seen, rest, _, rfl, first, runs⟩ := Routine.runs_andThen.mp runs
  obtain ⟨m₀, rfl, rfl⟩ := Routine.runs_view.mp first
  simp only [(reads.connected m₀ (List.mem_cons_self ..)).1] at runs
  obtain ⟨asking, rest, _, rfl, first, runs⟩ := Routine.runs_andThen.mp runs
  obtain ⟨t, answers, read⟩ := reads.right.left.query (show Statement.allClasses.reading? = some .ofClasses from rfl) first
  obtain ⟨records, classes, order, made, classesMade, all, areClasses⟩ := built.reads_classes of spelled distinct answers
  obtain rfl := read records made
  obtain ⟨asking', rest, _, rfl, first, runs⟩ := Routine.runs_andThen.mp runs
  obtain ⟨t', answers', read'⟩ := reads.right.right.left.query (show Statement.allMethods.reading? = some .ofMethods from rfl) first
  obtain ⟨records', methods, order', made', methodsMade, all', areMethods⟩ := built.reads_methods of spelled answers'
  obtain rfl := read' records' made'
  simp only [classesMade, methodsMade] at runs
  obtain ⟨_, stopping, _, rfl, stores, ends⟩ :=
    Routine.runs_andThen (p := Routine.change (Memory.onRegistry k (Registry.load classes methods))).mp runs
  obtain ⟨m, rfl, rfl⟩ := Routine.runs_change.mp stores
  obtain ⟨rfl, rfl⟩ := Routine.runs_done.mp ends
  have present : (Memory.onRegistry k (Registry.load classes methods) m).registry k =
      Registry.load classes methods (m.registry k) :=
    Memory.registry_onRegistry _ (reads.right.right.right.left.connected m (List.mem_cons_self ..)).1
  refine ⟨by rw [← all.length_eq, ← all'.length_eq, areClasses.length_eq, areMethods.length_eq],
    [.sees m₀] ++ (asking ++ (asking' ++ [.sees m])), m.onRegistry k (Registry.load classes methods), ?_, ?_⟩
  · simp only [List.append_assoc, List.append_nil, List.cons_append, List.nil_append]
  · rw [present]
    exact ⟨⟨order, all, areClasses⟩, ⟨order', all', areMethods⟩, rfl⟩

/-- Every snapshot of texts is read back from the graph that is built from it. -/
theorem refresh_roundTrips (n k : Nat) {s : Snapshot} (spelled : s.Spelled) (distinct : s.Distinct) :
    RoundTrips n k s := by
  obtain ⟨r, of, _⟩ := spelled.toTextual.rows_ok
  constructor
  case builds =>
    intro size isSize
    obtain ⟨result, g, leaves⟩ := Routine.exists_willing n (buildGraph n size s) ⟨[], []⟩
    obtain ⟨_, _, _, _, ends⟩ := buildGraph_makes of isSize _ _ _ leaves
    obtain ⟨counts, rfl⟩ := ends (Surroundings.willing_willing n)
    exact ⟨counts, g, leaves⟩
  case refreshes =>
    intro m g linked connected
    obtain ⟨log, result, follows, runs⟩ := Routine.runs_under (Conduct.answering m g) [] (Registry.refresh k)
    exact ⟨log, result, follows.readsFrom linked connected, runs⟩
  case reads =>
    intro size counts g log result isSize attempt reads runs
    obtain ⟨made, _, rfl, whole, _⟩ := buildGraph_makes of isSize _ _ _ attempt
    obtain rfl := whole counts rfl
    have built := writeAll_built of spelled.toTextual distinct
    obtain ⟨ends, before, m, stored, populates⟩ := built.refreshes of spelled distinct reads runs
    exact ⟨r.index, before, m, of.index, ends, stored, populates⟩

/-- A snapshot of a class with a method, which refers to it by its simple name and does not say where it is. -/
def checkout : Snapshot where
  classes := [⟨.str "Order", .str "com.shop.Order", .str "com.shop", .str "Order.java", .str "record", .null, .null,
    false, false, [], 1, 9⟩]
  methods := [⟨.str "pay", .str "", .str "Order", .str "", .str "public", false, .str "void", [.str "Money"], [], 3, 5,
    []⟩]
  endpoints := []

theorem checkout_spelled : checkout.Spelled := by
  constructor
  case toTextual =>
    refine ⟨fun c known => ?_, fun m known => ?_, nofun⟩
    · obtain rfl := List.mem_singleton.mp known
      exact ⟨⟨_, rfl⟩, ⟨_, rfl⟩, ⟨_, rfl⟩, .inr rfl⟩
    · obtain rfl := List.mem_singleton.mp known
      exact ⟨⟨_, rfl⟩, ⟨_, rfl⟩, fun a inside => ⟨_, List.mem_singleton.mp inside⟩, nofun⟩
  all_goals
    intro entry known
    obtain rfl := List.mem_singleton.mp known
    exact ⟨_, rfl⟩

theorem checkout_roundTrips : checkout.Spelled ∧ checkout.Distinct ∧ RoundTrips 0 0 checkout := by
  have distinct : checkout.Distinct := ⟨List.nodup_singleton _, List.nodup_singleton _⟩
  exact ⟨checkout_spelled, distinct, refresh_roundTrips 0 0 checkout_spelled distinct⟩

end CodeAtlas
