import CodeAtlas.Proofs.Graph.Backing
import CodeAtlas.Proofs.Graph.References

namespace CodeAtlas

/-- Who is meant by a qualified name: the first class that goes by it or, where there is none, the first that goes by
what follows its last point, whatever the full name of that class. -/
inductive Means (classes : List SourceClass) (name : String) (c : SourceClass) : Prop
  | whole {k : Nat} : name ≠ "" → FirstBy classes name c k → Means classes name c
  | part {k : Nat} : (∀ other ∈ classes, other.fullName ≠ .str name ∧ other.name ≠ .str name) →
      afterLastPoint name ≠ "" → FirstBy classes (afterLastPoint name) c k → Means classes name c

/-- A class is said to extend another one: that is not the class itself, and the superclass given for it means it. -/
structure SourceClass.SaidToExtend (classes : List SourceClass) (c parent : SourceClass) : Prop where
  apart : parent.id.same c.id = false
  meant : ∀ name, c.superclass = .str name → Means classes name parent

/-- What a text refers to is who is meant by it. -/
theorem ClassIndex.means_of_resolve {classes : List SourceClass} {index : ClassIndex}
    (indexed : ofClasses classes = .ok index) {name : String} {c : SourceClass × Nat}
    (meant : index.resolve (.str name) = .ok (some c)) : Means classes name c.1 := by
  obtain ⟨given, _, borne | ⟨nobody, _, ⟨⟩, borne⟩⟩ := (resolve_eq_some indexed).mp meant
  · obtain ⟨nonempty, first⟩ := bearer?_text.mp borne
    exact .whole nonempty first
  · have nonempty : name ≠ "" := by simpa [Value.truthy] using given
    obtain ⟨ends, first⟩ := bearer?_text.mp borne
    exact .part ((bearer?_text_none.mp nobody).resolve_left nonempty) ends first

variable {n : Nat} {size : Value} {s : Snapshot} {log : List Event} {row : Value}

/-- An edge to a superclass leads from a class to one that it is said to extend. -/
theorem buildGraph_extends {result : Except Fault BuildCounts} (runs : (buildGraph n size s).Runs log result)
    (inside : row ∈ edgeRowsOf "EXTENDS" (writesIn log)) : ∃ c ∈ s.classes, ∃ parent ∈ s.classes,
      row = edgeRow c.id parent.id ∧ c.SaidToExtend s.classes parent := by
  obtain ⟨index, indexed, c, known, parent, meant, apart, rfl⟩ := Snapshot.extends_of_runs runs inside
  obtain ⟨k, resolved⟩ := ClassIndex.resolveClass_eq_some meant
  refine ⟨c, known, parent, List.mem_of_getElem? (ClassIndex.mem_of_resolve indexed resolved), rfl, apart, ?_⟩
  intro name named
  exact ClassIndex.means_of_resolve indexed (named ▸ resolved)

/-- A snapshot of an order, whose superclass is elsewhere, and of a class that only has the simple name of that one. -/
def lookalike : Snapshot where
  classes := [⟨.str "Order", .str "com.shop.Order", .str "com.shop", .str "Order.java", .str "CLASS",
      .str "com.base.Entity", .null, false, false, [], 1, 9⟩,
    ⟨.str "Entity", .str "com.shop.Entity", .str "com.shop", .str "Entity.java", .str "CLASS", .null, .null, false, false,
      [], 1, 9⟩]
  methods := []
  endpoints := []

theorem lookalike_textual : lookalike.Textual where
  classes := List.forall_mem_cons.mpr ⟨⟨⟨_, rfl⟩, ⟨_, rfl⟩, ⟨_, rfl⟩, .inl ⟨_, rfl⟩⟩,
    List.forall_mem_singleton.mpr ⟨⟨_, rfl⟩, ⟨_, rfl⟩, ⟨_, rfl⟩, .inr rfl⟩⟩
  methods := List.forall_mem_nil _
  endpoints := List.forall_mem_nil _

/-- Its build joins the order to the class that has the simple name. -/
theorem lookalike_written {counts : BuildCounts} (runs : (buildGraph 0 (.int 500) lookalike).Runs log (.ok counts)) :
    edgeRow (.str "com.shop.Order") (.str "com.shop.Entity") ∈ edgeRowsOf "EXTENDS" (writesIn log) := by
  obtain ⟨index, indexed⟩ : ∃ index, ClassIndex.ofClasses lookalike.classes = .ok index := ⟨_, rfl⟩
  refine (buildGraph_complete (Value.isSize_int (by decide)) lookalike_textual runs indexed).2 _ (List.mem_cons_self ..) _ ?_
  cases indexed
  rfl

theorem lookalike_extends : ∃ log counts row, (buildGraph 0 (.int 500) lookalike).Runs log (.ok counts) ∧
    row ∈ edgeRowsOf "EXTENDS" (writesIn log) ∧ ∃ c ∈ lookalike.classes, ∃ parent ∈ lookalike.classes,
      row = edgeRow c.id parent.id ∧ c.SaidToExtend lookalike.classes parent := by
  obtain ⟨log, counts, runs⟩ := buildGraph_runs 0 (Value.isSize_int (show (1 : Int) ≤ 500 by decide)) lookalike_textual
  exact ⟨log, counts, _, runs, lookalike_written runs, buildGraph_extends runs (lookalike_written runs)⟩

/-- Not only classes that go by the name of a superclass, or have no full name, are joined as one. -/
theorem buildGraph_extends_lookalikes : ¬∀ (n : Nat) (size : Value) (s : Snapshot) (log : List Event)
    (result : Except Fault BuildCounts) (row : Value), size.IsSize → s.Textual → (buildGraph n size s).Runs log result →
    row ∈ edgeRowsOf "EXTENDS" (writesIn log) → ∃ c ∈ s.classes, ∃ parent ∈ s.classes, row = edgeRow c.id parent.id ∧
      ∀ name, c.superclass = .str name → '.' ∈ name.toList → parent.fullName = .str name ∨ parent.name = .str name ∨
        parent.fullName.truthy = false ∧ parent.name = .str (afterLastPoint name) := by
  intro holds
  have isSize : (Value.int 500).IsSize := Value.isSize_int (by decide)
  obtain ⟨log, counts, runs⟩ := buildGraph_runs 0 isSize lookalike_textual
  obtain ⟨c, known, parent, known', same, named⟩ := holds _ _ _ _ _ _ isSize lookalike_textual runs (lookalike_written runs)
  obtain ⟨source, target⟩ := edgeRow_inj same
  simp only [lookalike, List.mem_cons, List.not_mem_nil, or_false] at known known'
  rcases known with rfl | rfl
  · rcases known' with rfl | rfl
    · simp [SourceClass.id, Value.orElse, Value.truthy] at target
    · rcases named "com.base.Entity" rfl (by decide) with full | simple | ⟨nameless, _⟩
      · simp at full
      · simp at simple
      · simp [Value.truthy] at nameless
  · simp [SourceClass.id, Value.orElse, Value.truthy] at source

end CodeAtlas
