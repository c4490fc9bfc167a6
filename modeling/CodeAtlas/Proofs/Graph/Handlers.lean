import CodeAtlas.Proofs.Graph.Backing
import CodeAtlas.Proofs.Graph.References

namespace CodeAtlas

/-- How a method that handles an endpoint stands to the controller of it. -/
structure Snapshot.Handles (s : Snapshot) (index : ClassIndex) (e : SourceEndpoint) (m : SourceMethod) (row : Value) :
    Prop where
  row : ∃ id, endpointId e = .ok id ∧ row = edgeRow (.str id) m.id
  name : m.name.same e.handler
  /-- The method names its class as the endpoint does, or by one of the names of the controller. -/
  spelled : ∀ {q t c k}, e.controller = .str q → m.className = .str t → index.resolve (.str q) = .ok (some (c, k)) →
    t = q ∨ c.fullName = .str t ∨ c.name = .str t
  /-- The class that it names so is the controller just when no class before that one goes by the name. -/
  own_iff : ∀ {q t c k}, e.controller = .str q → m.className = .str t → index.resolve (.str q) = .ok (some (c, k)) →
    (index.resolve (.str t) = .ok (some (c, k)) ↔
      t ≠ "" ∧ ∀ earlier ∈ s.classes.take k, earlier.fullName ≠ .str t ∧ earlier.name ≠ .str t)
  /-- Then the method belongs to the controller. -/
  contained : ∀ {c k}, index.resolve m.className = .ok (some (c, k)) → containsRow? index m = .ok (some (edgeRow c.id m.id))

theorem findHandler_eq_some {names : List Value} {handler : Value} {methods : List SourceMethod} {m : SourceMethod}
    (found : findHandler names handler methods = .ok (some m)) :
    m ∈ methods ∧ m.name.same handler ∧ ∃ name ∈ names, name.same m.className := by
  induction methods with
  | nil => cases found
  | cons first rest ih =>
    have later : findHandler names handler rest = .ok (some m) →
        m ∈ first :: rest ∧ m.name.same handler ∧ ∃ name ∈ names, name.same m.className := fun found =>
      ⟨List.mem_cons_of_mem _ (ih found).1, (ih found).2⟩
    simp only [findHandler, bind, Except.bind] at found
    split at found
    next called =>
      cases owner : first.className.asKey with
      | error fault => simp only [owner] at found; cases found
      | ok key =>
        obtain ⟨_, rfl⟩ := Value.asKey_eq_ok.mp owner
        simp only [owner] at found
        split at found
        next among =>
          cases found
          exact ⟨List.mem_cons_self .., called, List.any_eq_true.mp among⟩
        next => exact later found
    next => exact later found

theorem controllerNames_eq {index : ClassIndex} {e : SourceEndpoint} {names : List Value} {c : SourceClass}
    (named : controllerNames index e = .ok names) (meant : index.resolveClass e.controller = .ok (some c)) :
    names = [e.controller, c.name, c.fullName] := by
  simp only [controllerNames, meant, bind, Except.bind] at named
  split at named
  next => cases named
  next own key =>
    obtain ⟨_, rfl⟩ := Value.asKey_eq_ok.mp key
    split at named
    next => cases named
    next simple key =>
      obtain ⟨_, rfl⟩ := Value.asKey_eq_ok.mp key
      split at named
      next => cases named
      next full key =>
        obtain ⟨_, rfl⟩ := Value.asKey_eq_ok.mp key
        cases named
        rfl

theorem handledByRow?_eq_some {index : ClassIndex} {methods : List SourceMethod} {e : SourceEndpoint} {row : Value}
    (made : handledByRow? index methods e = .ok (some row)) : ∃ names m id, controllerNames index e = .ok names ∧
      findHandler names e.handler methods = .ok (some m) ∧ endpointId e = .ok id ∧ row = edgeRow (.str id) m.id := by
  simp only [handledByRow?, bind, Except.bind] at made
  split at made
  next => cases made
  next names named =>
    split at made
    next => cases made
    next found sought =>
      cases found with
      | none => cases made
      | some m =>
        simp only at made
        split at made
        next => cases made
        next id identified =>
          cases made
          exact ⟨names, m, id, named, sought, identified, rfl⟩

theorem ClassIndex.resolveClass_of_resolve {index : ClassIndex} {reference : Value} {c : SourceClass} {k : Nat}
    (meant : index.resolve reference = .ok (some (c, k))) : index.resolveClass reference = .ok (some c) := by
  simp only [resolveClass, meant, bind, Except.bind]
  rfl

variable {n : Nat} {size : Value} {s : Snapshot} {log : List Event} {row : Value}

/-- An edge to a handler leads to a method that is named like it, and whose class is spelled like the controller. -/
theorem buildGraph_handledBy {result : Except Fault BuildCounts} (runs : (buildGraph n size s).Runs log result)
    (inside : row ∈ edgeRowsOf "HANDLED_BY" (writesIn log)) :
    ∃ index, ClassIndex.ofClasses s.classes = .ok index ∧ ∃ e ∈ s.endpoints, ∃ m ∈ s.methods, s.Handles index e m row := by
  obtain ⟨index, indexed, e, known, made⟩ := Snapshot.handledBy_of_runs runs inside
  obtain ⟨names, m, id, named, found, identified, rfl⟩ := handledByRow?_eq_some made
  obtain ⟨known', called, name, among, same⟩ := findHandler_eq_some found
  have spelled : ∀ {q t c k}, e.controller = .str q → m.className = .str t →
      index.resolve (.str q) = .ok (some (c, k)) → t = q ∨ c.fullName = .str t ∨ c.name = .str t := by
    intro q t c k controller owner meant
    rw [controllerNames_eq named (controller ▸ ClassIndex.resolveClass_of_resolve meant), controller] at among
    obtain rfl := Value.same_text.mp (owner ▸ same)
    simp only [List.mem_cons, List.not_mem_nil, or_false] at among
    rcases among with own | simple | full
    · exact .inl (Value.str.inj own)
    · exact .inr (.inr simple.symm)
    · exact .inr (.inl full.symm)
  refine ⟨index, indexed, e, known, m, known', ⟨id, identified, rfl⟩, called, spelled, ?_, fun meant => ?_⟩
  · intro q t c k controller owner meant
    constructor
    · intro own
      obtain ⟨given, _, borne | ⟨nobody, _⟩⟩ := (ClassIndex.resolve_eq_some indexed).mp own
      · obtain ⟨nonempty, first⟩ := bearer?_text.mp borne
        exact ⟨nonempty, first.first⟩
      · have nonempty : t ≠ "" := by simpa [Value.truthy] using given
        exact ⟨nonempty, fun earlier before =>
          (bearer?_text_none.mp nobody).resolve_left nonempty earlier (List.mem_of_mem_take before)⟩
    · rintro ⟨nonempty, nobody⟩
      rcases spelled controller owner meant with rfl | goes
      · exact meant
      · have first : FirstBy s.classes t c k := ⟨ClassIndex.mem_of_resolve indexed meant, goes, nobody⟩
        rw [ClassIndex.resolve_text indexed nonempty, bearer?_text.mpr ⟨nonempty, first⟩, Option.some_or]
  · simp only [containsRow?, ClassIndex.resolveClass_of_resolve meant, bind, Except.bind]
    rfl

/-- A snapshot of two controllers with one simple name, where a method of the first one uses that name. -/
def twinControllers : Snapshot where
  classes := [⟨.str "Ctrl", .str "com.b.Ctrl", .str "com.b", .str "", .str "CLASS", .null, .null, false, false, [], 1, 9⟩,
    ⟨.str "Ctrl", .str "com.a.Ctrl", .str "com.a", .str "", .str "CLASS", .null, .null, false, false, [], 1, 9⟩]
  methods := [⟨.str "list", .str "com.b.Ctrl.list()", .str "Ctrl", .str "", .str "public", false, .str "void", [], [],
      3, 5, []⟩,
    ⟨.str "list", .str "com.a.Ctrl.list()", .str "com.a.Ctrl", .str "", .str "public", false, .str "void", [], [], 3, 5,
      []⟩]
  endpoints := [⟨.str "/a/list", .str "get", .str "com.a.Ctrl", .str "list"⟩]

theorem twinControllers_textual : twinControllers.Textual where
  classes := List.forall_mem_cons.mpr ⟨⟨⟨_, rfl⟩, ⟨_, rfl⟩, ⟨_, rfl⟩, .inr rfl⟩,
    List.forall_mem_singleton.mpr ⟨⟨_, rfl⟩, ⟨_, rfl⟩, ⟨_, rfl⟩, .inr rfl⟩⟩
  methods := List.forall_mem_cons.mpr ⟨⟨⟨_, rfl⟩, ⟨_, rfl⟩, List.forall_mem_nil _, List.forall_mem_nil _⟩,
    List.forall_mem_singleton.mpr ⟨⟨_, rfl⟩, ⟨_, rfl⟩, List.forall_mem_nil _, List.forall_mem_nil _⟩⟩
  endpoints := List.forall_mem_singleton.mpr ⟨⟨_, rfl⟩, ⟨_, rfl⟩⟩

/-- Its build leads from the endpoint of the second controller to the method of the first one. -/
theorem twinControllers_handledBy : ∃ log counts row, (buildGraph 0 (.int 500) twinControllers).Runs log (.ok counts) ∧
    row = edgeRow (.str "GET /a/list") (.str "com.b.Ctrl.list()") ∧ row ∈ edgeRowsOf "HANDLED_BY" (writesIn log) ∧
    ∃ index, ClassIndex.ofClasses twinControllers.classes = .ok index ∧ ∃ e ∈ twinControllers.endpoints,
      ∃ m ∈ twinControllers.methods, twinControllers.Handles index e m row := by
  have isSize : (Value.int 500).IsSize := Value.isSize_int (by decide)
  obtain ⟨log, counts, runs⟩ := buildGraph_runs 0 isSize twinControllers_textual
  obtain ⟨index, indexed⟩ : ∃ index, ClassIndex.ofClasses twinControllers.classes = .ok index := ⟨_, rfl⟩
  have inside : edgeRow (.str "GET /a/list") (.str "com.b.Ctrl.list()") ∈ edgeRowsOf "HANDLED_BY" (writesIn log) := by
    refine (buildGraph_complete isSize twinControllers_textual runs indexed).1 _ (List.mem_singleton_self _) _ ?_
    cases indexed
    rfl
  exact ⟨log, counts, _, runs, rfl, inside, buildGraph_handledBy runs inside⟩

end CodeAtlas
