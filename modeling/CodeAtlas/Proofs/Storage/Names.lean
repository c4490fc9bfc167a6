import CodeAtlas.Settings.Document

namespace CodeAtlas

variable {σ : Type} {s t : Settings}

namespace Section

variable {given : List (Value × Value)} {other : Entry σ → Except Fault Value} {x y : σ} {c : Section σ} {env : Environment}
  {key : String} {get : σ → Value} {initial : Initial}

/-- An entry is filled before the others. -/
theorem fill_cons {e : Entry σ} {rest : List (Entry σ)} (filled : fill given other (e :: rest) x = .ok y) :
    ∃ v, (Value.lookup e.key given = none → other e = .ok v) ∧ fill given other rest (e.put v x) = .ok y := by
  rw [fill] at filled
  split at filled
  next v found => exact ⟨v, fun absent => absurd (found.symm.trans absent) nofun, filled⟩
  next =>
    obtain ⟨v, taken, filled⟩ := exists_of_bind_ok filled
    exact ⟨v, fun _ => taken, filled⟩

/-- What no entry changes stays. -/
theorem fill_leaves {entries : List (Entry σ)} (leaves : ∀ e ∈ entries, ∀ v x, get (e.put v x) = get x)
    (filled : fill given other entries x = .ok y) : get y = get x := by
  induction entries generalizing x with
  | nil =>
    cases filled
    rfl
  | cons e rest ih =>
    obtain ⟨v, _, filled⟩ := fill_cons filled
    have rested := ih (fun e inside => leaves e (List.mem_cons_of_mem _ inside)) filled
    exact rested.trans (leaves e (List.mem_cons_self ..) v x)

/-- An entry of a section, and where its value is kept; no later entry changes it. -/
def HasEntry (c : Section σ) (key : String) (get : σ → Value) (initial : Initial) : Prop :=
  ∃ before e after, c.entries = before ++ e :: after ∧ e.key = key ∧ e.get = get ∧ e.initial = initial ∧
    (∀ v x, get (e.put v x) = v) ∧ ∀ e' ∈ after, ∀ v x, get (e'.put v x) = get x

/-- An entry that is not given is filled with the other value. -/
theorem fill_absent {before after : List (Entry σ)} {e : Entry σ} (absent : Value.lookup e.key given = none)
    (puts : ∀ v x, get (e.put v x) = v) (leaves : ∀ e' ∈ after, ∀ v x, get (e'.put v x) = get x)
    (filled : fill given other (before ++ e :: after) x = .ok y) : other e = .ok (get y) := by
  induction before generalizing x with
  | nil =>
    obtain ⟨v, taken, filled⟩ := fill_cons filled
    rw [taken absent, fill_leaves leaves filled, puts]
  | cons _ rest ih =>
    obtain ⟨_, _, filled⟩ := fill_cons filled
    exact ih filled

theorem HasEntry.built (has : c.HasEntry key get initial) (absent : Value.lookup key given = none)
    (built : c.build env given = .ok y) : initial.read env = .ok (get y) := by
  obtain ⟨before, e, after, entries, rfl, rfl, rfl, puts, leaves⟩ := has
  obtain ⟨_, _, built⟩ := exists_of_bind_ok built
  obtain ⟨filled, fills, built⟩ := exists_of_bind_ok built
  obtain ⟨_, _, built⟩ := exists_of_bind_ok built
  cases built
  exact fill_absent absent puts leaves (entries ▸ fills)

theorem HasEntry.replaced (has : c.HasEntry key get initial) (absent : Value.lookup key given = none)
    (replaced : c.replace x given = .ok y) : get y = get x := by
  obtain ⟨before, e, after, entries, rfl, rfl, rfl, puts, leaves⟩ := has
  obtain ⟨_, _, replaced⟩ := exists_of_bind_ok replaced
  obtain ⟨filled, fills, replaced⟩ := exists_of_bind_ok replaced
  obtain ⟨_, _, replaced⟩ := exists_of_bind_ok replaced
  cases replaced
  exact (Except.ok.inj (fill_absent absent puts leaves (entries ▸ fills))).symm

end Section

theorem graphSection_graph :
    graphSection.HasEntry "graph_name" (·.graphName) (.text "FALKORDB_GRAPH_NAME" "astkg_dev") := by
  refine ⟨graphSection.entries.take 2, graphSection.entries[2], graphSection.entries.drop 3, rfl, rfl, rfl, rfl, fun _ _ => rfl, ?_⟩
  simp [graphSection]

theorem vectorSection_classes :
    vectorSection.HasEntry "class_collection" (·.classCollection) (.text "QDRANT_CLASS_COLLECTION" "classes") := by
  refine ⟨vectorSection.entries.take 2, vectorSection.entries[2], vectorSection.entries.drop 3, rfl, rfl, rfl, rfl, fun _ _ => rfl, ?_⟩
  simp [vectorSection]

theorem vectorSection_methods :
    vectorSection.HasEntry "method_collection" (·.methodCollection) (.text "QDRANT_METHOD_COLLECTION" "methods") := by
  refine ⟨vectorSection.entries.take 3, vectorSection.entries[3], vectorSection.entries.drop 4, rfl, rfl, rfl, rfl, fun _ _ => rfl, ?_⟩
  simp [vectorSection]

/-- No variable names the graph or a collection. -/
structure Environment.Silent (env : Environment) : Prop where
  graph : env.get? "FALKORDB_GRAPH_NAME" = none
  classes : env.get? "QDRANT_CLASS_COLLECTION" = none
  methods : env.get? "QDRANT_METHOD_COLLECTION" = none

/-- A section of a file names neither the graph nor a collection. -/
def SectionName.Silent (given : List (Value × Value)) : SectionName → Prop
  | .graph => Value.lookup "graph_name" given = none
  | .vectors => Value.lookup "class_collection" given = none ∧ Value.lookup "method_collection" given = none
  | _ => True

def Value.Silent (data : Value) : Prop :=
  ∀ sections, data = .dict sections → ∀ k given name, (k, .dict given) ∈ sections → SectionName.ofKey? k = some name →
    name.Silent given

/-- A file that names neither the graph nor a collection, if it can be read. -/
def FileContent.Silent (path : String) : FileContent → Prop
  | .bytes content => ∀ data, readDocument path (String.ofList (unifyNewlines (decodeUtf8 content))) = .ok data → data.Silent
  | _ => True

namespace Settings

/-- The names where nobody gives any. -/
structure Unnamed (s : Settings) : Prop where
  graph : s.graph.graphName = .str "astkg_dev"
  classes : s.vectors.classCollection = .str "classes"
  methods : s.vectors.methodCollection = .str "methods"

variable {env : Environment} {given : List (Value × Value)}

theorem ofEnvironment_unnamed (silent : env.Silent) (made : ofEnvironment env = .ok s) : s.Unnamed := by
  obtain ⟨graph, builtGraph, made⟩ := exists_of_bind_ok made
  obtain ⟨vectors, builtVectors, made⟩ := exists_of_bind_ok made
  obtain ⟨_, _, made⟩ := exists_of_bind_ok made
  obtain ⟨_, _, made⟩ := exists_of_bind_ok made
  obtain ⟨_, _, made⟩ := exists_of_bind_ok made
  obtain ⟨_, _, made⟩ := exists_of_bind_ok made
  cases made
  have named := graphSection_graph.built rfl builtGraph
  have classes := vectorSection_classes.built rfl builtVectors
  have methods := vectorSection_methods.built rfl builtVectors
  simp only [Initial.read, silent.graph, silent.classes, silent.methods, Except.ok.injEq] at named classes methods
  exact ⟨named.symm, classes.symm, methods.symm⟩

theorem replace_unnamed {name : SectionName} (unnamed : s.Unnamed) (silent : name.Silent given)
    (replaced : s.replace name given = .ok t) : t.Unnamed := by
  obtain ⟨graph, classes, methods⟩ := unnamed
  cases name with
  | graph =>
    obtain ⟨x, done, rfl⟩ := exists_of_map_ok replaced
    exact ⟨(graphSection_graph.replaced silent done).trans graph, classes, methods⟩
  | vectors =>
    obtain ⟨x, done, rfl⟩ := exists_of_map_ok replaced
    exact ⟨graph, (vectorSection_classes.replaced silent.1 done).trans classes,
      (vectorSection_methods.replaced silent.2 done).trans methods⟩
  | funnel | ingestion | completion | embedding =>
    obtain ⟨x, _, rfl⟩ := exists_of_map_ok replaced
    exact ⟨graph, classes, methods⟩

theorem overlay_unnamed {sections : List (Value × Value)} (unnamed : s.Unnamed) (silent : (Value.dict sections).Silent)
    (laid : s.overlay sections = .ok t) : t.Unnamed := by
  induction sections generalizing s with
  | nil => cases laid; exact unnamed
  | cons entry rest ih =>
    obtain ⟨k, v⟩ := entry
    have later : (Value.dict rest).Silent := by
      rintro _ ⟨⟩ k given name inside
      exact silent _ rfl k given name (List.mem_cons_of_mem _ inside)
    rw [overlay] at laid
    split at laid
    · cases laid
    next name known =>
      split at laid
      · exact ih unnamed later laid
      next given =>
        split at laid
        next t' replaced =>
          exact ih (replace_unnamed unnamed (silent _ rfl k given name (List.mem_cons_self ..) known) replaced) later laid
        · cases laid
      · cases laid

/-- A file that says nothing of the graph and the collections leaves them as they are. -/
theorem ofDocument_unnamed {path : String} {content : List Nat} (quiet : env.Silent) (silent : (FileContent.bytes content).Silent path)
    (made : ofDocument env path content = .ok s) : s.Unnamed := by
  obtain ⟨data, read, made⟩ := exists_of_bind_ok made
  have silent := silent data read
  have base : ∀ sections, (Value.dict sections).Silent → ofData env (.dict sections) = .ok s → s.Unnamed := by
    intro sections silent made
    obtain ⟨_, plain, made⟩ := exists_of_bind_ok made
    have unnamed := ofEnvironment_unnamed quiet plain
    unfold Value.orElse at made
    split at made
    next given =>
      split at given
      · cases given
        exact overlay_unnamed unnamed silent made
      · cases given
        exact overlay_unnamed unnamed (by rintro _ ⟨⟩ _ _ _ ⟨⟩) made
    · cases made
  rw [ofFile] at made
  split at made
  next sections given =>
    unfold Value.orElse at given
    split at given
    · exact base sections (given ▸ silent) made
    · cases given
      exact base [] (by rintro _ ⟨⟩ _ _ _ ⟨⟩) made
  · cases made

end Settings

end CodeAtlas
