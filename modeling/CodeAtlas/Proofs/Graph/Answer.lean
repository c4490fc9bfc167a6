import CodeAtlas.Graph.Client
import CodeAtlas.Proofs.Graph.Store
import Mathlib.Data.List.Forall2

namespace CodeAtlas

namespace Graph

/-- What an answer says of the neighbours of a node. -/
inductive Column where
  | contained
  | description

def Column.text (letter : String) : Column → String
  | .contained => containedNames
  | .description => firstDescription letter

def Column.alias : Column → String
  | .contained => "method_names"
  | .description => "description"

/-- The nodes of a label that edges of a type lead to from a place. -/
def neighbours (g : Graph) (place : Nat) (type label : String) : List Node :=
  (g.edges.filter fun e => e.source == place && e.type == type).filterMap fun e =>
    g.nodes[e.target]?.filter (·.labels.contains label)

/-- What stands in the column of a node: the names of the methods that it contains, in any order, or
the text of one of its descriptions. -/
inductive Column.Shows (g : Graph) (place : Nat) : Column → Value → Prop
  | contained {names} : names.Perm ((g.neighbours place "CONTAINS" "Method").map (·.properties "name")) →
      Shows g place .contained (.list names)
  | described {node} : node ∈ g.neighbours place "HAS_DESCRIPTION" "Description" →
      Shows g place .description (node.properties "content")
  | undescribed : g.neighbours place "HAS_DESCRIPTION" "Description" = [] → Shows g place .description .null

/-- A statement that reads all nodes of a label. -/
structure Reading where
  letter : String
  label : String
  properties : List String
  columns : List Column
  order : List String

namespace Reading

/-- The text of a statement that does so. -/
def text (reading : Reading) : String :=
  returning reading.letter reading.label "" reading.properties (reading.columns.map (Column.text reading.letter)) ++
    ("ORDER BY " ++ ", ".intercalate (reading.order.map fun p => reading.letter ++ "." ++ p) ++ "\n")

/-- The names of the columns of the answer. -/
def aliases (reading : Reading) : List String := reading.properties ++ reading.columns.map Column.alias

/-- The header of an answer: each column has its kind and its name. -/
def Heads (reading : Reading) (header : Value) : Prop :=
  ∃ columns, header = .list columns ∧
    List.Forall₂ (fun name column => ∃ kind, column = .list [kind, .str name]) reading.aliases columns

/-- The values of a row that is about the node at a place. -/
def Shows (reading : Reading) (g : Graph) (at_place : Node × Nat) (values : List Value) : Prop :=
  ∃ further, values = reading.properties.map at_place.1.properties ++ further ∧
    List.Forall₂ (Column.Shows g at_place.2) reading.columns further

/-- The nodes that are read, with their places. -/
def nodes (reading : Reading) (g : Graph) : List (Node × Nat) :=
  g.nodes.zipIdx.filter (·.1.labels.contains reading.label)

/-- An answer has one row for each node of the label, whichever order they come in. -/
structure Answers (reading : Reading) (g : Graph) (t : Table) : Prop where
  header : reading.Heads t.header
  rows : ∃ listed : List (Node × Nat), listed.Perm (reading.nodes g) ∧
    List.Forall₂ (fun at_place row => ∃ values, row = .cells (values.map .plain) ∧ reading.Shows g at_place values)
      listed t.rows

/-- All classes, with the methods that they contain. -/
def ofClasses : Reading where
  letter := "c"
  label := "Class"
  properties := ["id", "name", "full_name", "package_name", "file_path", "type", "super_class"]
  columns := [.contained, .description]
  order := ["name"]

def ofMethods : Reading where
  letter := "m"
  label := "Method"
  properties := ["id", "name", "signature", "class_name", "package_name", "file_path", "return_type",
    "parameter_types"]
  columns := [.description]
  order := ["class_name", "name"]

end Reading

end Graph

def Statement.reading? : Statement → Option Graph.Reading
  | .allClasses => some .ofClasses
  | .allMethods => some .ofMethods
  | _ => none

/-- The statements that read all nodes of a label are those whose texts say so. -/
theorem Statement.text_of_reading {statement : Statement} {reading : Graph.Reading}
    (reads : statement.reading? = some reading) : statement.text = .str reading.text := by
  cases statement with
  | allClasses =>
    cases reads
    exact congrArg (fun order => Value.str (_ ++ order)) (show "ORDER BY c.name\n" = _ by decide)
  | allMethods =>
    cases reads
    exact congrArg (fun order => Value.str (_ ++ order)) (show "ORDER BY m.class_name, m.name\n" = _ by decide)
  | _ => cases reads

theorem mapM_forall₂ {α β γ : Type} {R : α → β → Prop} {Q : α → γ → Prop} {f : β → Except Fault γ} {l : List α}
    {l' : List β} (pairs : List.Forall₂ R l l') (each : ∀ a b, R a b → ∃ c, f b = .ok c ∧ Q a c) :
    ∃ made, l'.mapM f = .ok made ∧ List.Forall₂ Q l made := by
  induction pairs with
  | nil => exact ⟨[], rfl, .nil⟩
  | cons first _ ih =>
    obtain ⟨c, done, holds⟩ := each _ _ first
    obtain ⟨made, others, rest⟩ := ih
    exact ⟨c :: made, by simp only [List.mapM_cons, done, others]; rfl, .cons holds rest⟩

theorem putUnder_fresh {key v : Value} {entries : List (Value × Value)}
    (fresh : ∀ entry ∈ entries, entry.1.same key = false) : putUnder key v entries = entries ++ [(key, v)] := by
  induction entries with
  | nil => rfl
  | cons entry rest ih =>
    have other := fresh entry (List.mem_cons_self ..)
    rw [putUnder, other, ih fun entry inside => fresh entry (List.mem_cons_of_mem _ inside)]
    rfl

theorem recordFrom_ok {names : List String} {columns : List Value}
    (heads : List.Forall₂ (fun name column => ∃ kind, column = .list [kind, .str name]) names columns)
    (distinct : names.Nodup) {values : List Value} (whole : values.length = names.length) (before : List Cell)
    {entries : List (Value × Value)} (fresh : ∀ entry ∈ entries, ∀ name ∈ names, entry.1.same (.str name) = false) :
    recordFrom (.cells (before ++ values.map .plain)) before.length columns entries =
      .ok (.dict (entries ++ (names.zip values).map fun (name, v) => (.str name, v))) := by
  induction heads generalizing values before entries with
  | nil => simp [recordFrom]
  | @cons name column names columns head _ ih =>
    obtain ⟨kind, rfl⟩ := head
    cases values with
    | nil => cases whole
    | cons v values =>
      have named : columnName before.length (.list [kind, .str name]) = .ok (.str name) := rfl
      have cell : (Row.cells (before ++ (v :: values).map .plain)).cell before.length = .ok (.plain v) := by
        simp [Row.cell]
      have own := putUnder_fresh (v := v) fun entry inside => fresh entry inside name (List.mem_cons_self ..)
      have fresh' : ∀ entry ∈ entries ++ [(.str name, v)], ∀ other ∈ names, entry.1.same (.str other) = false := by
        intro entry inside other member
        rcases List.mem_append.mp inside with old | new
        · exact fresh entry old other (List.mem_cons_of_mem _ member)
        · rw [List.mem_singleton.mp new]
          have differs : name ≠ other := fun same => (List.nodup_cons.mp distinct).1 (same ▸ member)
          simpa [Value.same] using differs
      have later := ih (List.nodup_cons.mp distinct).2 (Nat.succ.inj whole) (before ++ [.plain v]) fresh'
      rw [List.length_append, List.length_singleton, List.append_assoc] at later
      have key : Value.asKey (.str name) = .ok (.str name) := rfl
      simp only [recordFrom, named, cell, key, bind, Except.bind, Cell.value, own]
      simpa using later

namespace Graph

variable {g : Graph} {reading : Reading}

/-- What a server may put into a column: the first description, and the methods in the order of the edges. -/
def Column.value (g : Graph) (place : Nat) : Column → Value
  | .contained => .list ((g.neighbours place "CONTAINS" "Method").map (·.properties "name"))
  | .description =>
    match g.neighbours place "HAS_DESCRIPTION" "Description" with
    | node :: _ => node.properties "content"
    | [] => .null

theorem Column.shows_value (g : Graph) (place : Nat) (column : Column) : column.Shows g place (column.value g place) := by
  cases column with
  | contained => exact .contained (.refl _)
  | description =>
    cases found : g.neighbours place "HAS_DESCRIPTION" "Description" with
    | nil =>
      have none : Column.value g place .description = .null := by simp only [value, found]
      exact none ▸ .undescribed found
    | cons node rest =>
      have first : Column.value g place .description = node.properties "content" := by simp only [value, found]
      exact first ▸ .described (found ▸ List.mem_cons_self ..)

/-- An answer with the nodes in the order in which they are kept. -/
def Reading.answer (reading : Reading) (g : Graph) : Table where
  header := .list (reading.aliases.map fun name => .list [.int 1, .str name])
  rows := (reading.nodes g).map fun at_place => .cells
    ((reading.properties.map at_place.1.properties ++ reading.columns.map (Column.value g at_place.2)).map .plain)

/-- There is an answer for every graph. -/
theorem Reading.answer_answers (reading : Reading) (g : Graph) : reading.Answers g (reading.answer g) where
  header := ⟨_, rfl, List.forall₂_map_right_iff.mpr (List.forall₂_same.mpr fun _ _ => ⟨_, rfl⟩)⟩
  rows := by
    refine ⟨reading.nodes g, .refl _, List.forall₂_map_right_iff.mpr (List.forall₂_same.mpr fun at_place _ => ?_)⟩
    refine ⟨_, rfl, _, rfl, List.forall₂_map_right_iff.mpr (List.forall₂_same.mpr fun column _ => ?_)⟩
    exact column.shows_value g at_place.2

/-- An answer is read as one record for each node of the label. -/
theorem Reading.Answers.records {t : Table} (answers : reading.Answers g t) (distinct : reading.aliases.Nodup) :
    ∃ records listed, t.records = .ok records ∧ listed.Perm (reading.nodes g) ∧
      List.Forall₂ (fun at_place record => ∃ values, record = .record (reading.aliases.zip values) ∧
        reading.Shows g at_place values) listed records := by
  obtain ⟨columns, header, heads⟩ := answers.header
  obtain ⟨listed, all, rows⟩ := answers.rows
  obtain ⟨records, done, each⟩ := mapM_forall₂ (f := fun row => recordFrom row 0 columns []) rows
    (Q := fun at_place record => ∃ values, record = .record (reading.aliases.zip values) ∧ reading.Shows g at_place values)
    fun at_place row told => by
      obtain ⟨values, rfl, shows⟩ := told
      have whole : values.length = reading.aliases.length := by
        obtain ⟨further, rfl, others⟩ := shows
        simp [aliases, others.length_eq]
      exact ⟨_, recordFrom_ok heads distinct whole [] (by simp), values, rfl, shows⟩
  refine ⟨records, listed, ?_, all, each⟩
  simp only [Table.records, header, Value.elements]
  exact done

end Graph

end CodeAtlas
