import CodeAtlas.Proofs.Graph.Contents
import CodeAtlas.Proofs.Graph.Rebuild
import CodeAtlas.Proofs.Retrieval.Resolve
import CodeAtlas.Proofs.Turns.Charter
import CodeAtlas.Registry

namespace CodeAtlas

namespace Kind

def label : Kind → String
  | .classes => "Class"
  | .methods => "Method"

/-- The statement that lists what is to be indexed. -/
def indexed : Kind → Statement
  | .classes => .classesToIndex
  | .methods => .describedMethods

/-- The statement that lists the population. -/
def listed : Kind → Statement
  | .classes => .allClasses
  | .methods => .allMethods

def indexedProperties : Kind → List String
  | .classes => ["id", "name", "full_name", "package_name"]
  | .methods => ["id", "name", "signature", "class_name", "package_name"]

def listedProperties : Kind → List String
  | .classes => ["id", "name", "full_name", "package_name", "file_path", "type", "super_class"]
  | .methods => ["id", "name", "signature", "class_name", "package_name", "file_path", "return_type", "parameter_types"]

/-- Both statements return these properties of the nodes of one label, under their own names. -/
theorem texts (kind : Kind) :
    (∃ letter condition further, kind.indexed.text =
      .str (returning letter kind.label condition kind.indexedProperties further)) ∧
    ∃ letter further ending, kind.listed.text =
      .str (returning letter kind.label "" kind.listedProperties further ++ ending) := by
  cases kind with
  | classes => exact ⟨⟨"c", "", _, rfl⟩, "c", _, _, rfl⟩
  | methods => exact ⟨⟨"m", "-[:HAS_DESCRIPTION]->(d:Description)", _, rfl⟩, "m", _, _, rfl⟩

end Kind

/-- A record whose identity and name are texts, neither of them empty. -/
structure Value.Named (record : Value) (key title : String) : Prop where
  id : record.entry "id" = .ok (.str key)
  name : record.entry "name" = .ok (.str title)
  given : key ≠ "" ∧ title ≠ ""

/-- The match that stands for the entity of a record. -/
def Match.ofRecord (kind : Kind) (record : Value) (score : Float) : Match :=
  match kind with
  | .classes => { name := record.field "name", score := .float score, kind, fullName := record.field "full_name",
                  packageName := record.field "package_name", signature := .null, className := .null }
  | .methods => { name := record.field "name", score := .float score, kind, fullName := .null,
                  packageName := record.field "package_name", signature := record.field "signature",
                  className := record.field "class_name" }

namespace Value

variable {v : Value} {key : String}

/-- Only dictionaries have entries. -/
theorem get_of_entry {other : String} {w : Value} (has : v.entry other = .ok w) (key : String) : v.get key = .ok (v.field key) := by
  cases v with
  | dict entries => rfl
  | _ => cases has

theorem field_of_entry {w : Value} (has : v.entry key = .ok w) : v.field key = w := by
  cases v with
  | dict entries =>
    simp only [entry] at has
    split at has
    next found =>
      cases has
      simp [field, field?, found]
    · cases has
  | _ => cases has

theorem field_of_get {w : Value} (got : v.get key = .ok w) : v.field key = w := by
  cases v with
  | dict entries => exact Except.ok.inj got
  | _ => cases got

theorem str_truthy {s : String} (given : s ≠ "") : (Value.str s).truthy = true := by
  simp [truthy, given]

theorem Named.get {record : Value} {id title : String} (named : record.Named id title) (key : String) :
    record.get key = .ok (record.field key) := get_of_entry named.id key

theorem Named.field_name {record : Value} {id title : String} (named : record.Named id title) :
    record.field "name" = .str title := field_of_entry named.name

theorem Named.indexable {record : Value} {id title : String} (named : record.Named id title) :
    isIndexable record = .ok true := by
  have shown : (record.field "id").truthy = true := by
    rw [field_of_entry named.id]
    exact str_truthy named.given.1
  have shown' : (record.field "name").truthy = true := by
    rw [field_of_entry named.name]
    exact str_truthy named.given.2
  simp only [isIndexable, named.get, bind, Except.bind, shown, shown', if_true]
  rfl

/-- What is stored beside the vector of an entity is read back as the entity, whatever the score. -/
theorem Named.decodes {record : Value} {id title : String} (named : record.Named id title) (kind : Kind) (vector : Value)
    {score : Value} {x : Float} (scored : score.toFloat = .ok x) :
    ∃ p, pointOf kind record vector = .ok p ∧ Match.ofPoint kind ⟨score, p.payload⟩ = .ok (Match.ofRecord kind record x) := by
  have shown := named.field_name
  cases kind with
  | classes =>
    refine ⟨_, by simp only [pointOf, payloadOf, named.id, named.name, named.get]; rfl, ?_⟩
    simp only [Match.ofPoint, scored, Match.ofRecord, shown]
    rfl
  | methods =>
    refine ⟨_, by simp only [pointOf, payloadOf, named.id, named.name, named.get]; rfl, ?_⟩
    simp only [Match.ofPoint, scored, Match.ofRecord, shown]
    rfl

end Value

/-- In a run a statement was answered with records. -/
def Statement.Reads (statement : Statement) (records : List Value) (log : List Event) : Prop :=
  ∃ t : Table, .hears (.query statement (.dict [])) (.ok t) ∈ log ∧ t.records = .ok records

/-- Points are those of records of a kind. -/
def Point.AreOf (kind : Kind) (records : List Value) (points : List Point) : Prop :=
  ∀ p ∈ points, ∃ record ∈ records, ∃ vector, isIndexable record = .ok true ∧ pointOf kind record vector = .ok p

/-- What the work on an index needs of a charter, whatever it writes. -/
structure Charter.Indexes (ch : Charter) (index embedding : Nat) : Prop where
  opens : ∀ host port, ch.asks (.openVectors host port)
  lists : ch.asks .listCollections
  loads : ∀ name device, ch.asks (.loadModel name device)
  encodes : ∀ texts batchSize normalize progress, ch.asks (.encodeBatch texts batchSize normalize progress)
  opened : ∀ m, ch.keeps m → ch.keeps (m.onIndex index fun i => { i with isOpen := true })
  loaded : ∀ m, ch.keeps m → ch.keeps (m.onEmbedding embedding fun s => { s with loaded := true })

section Written

open Routine

variable {ch : Charter} {n embedding : Nat} {kind : Kind} {collection : Value} {records : List Value}

theorem VectorIndex.openClient_abides (indexes : ch.Indexes n embedding) : (openClient n).Abides ch := by
  refine Abides.view fun m _ => .ite (fun _ => .pure _) fun _ => ?_
  exact (Abides.query (indexes.opens _ _)).bind fun _ => .change indexes.opened

theorem VectorIndex.ensureCollection_abides (indexes : ch.Indexes n embedding)
    (creates : ∀ m, ch.keeps m → ch.asks (.createCollection collection (m.index n).settings.vectorSize)) :
    (ensureCollection n collection).Abides ch := by
  refine (openClient_abides indexes).bind fun _ => (Abides.query indexes.lists).bind fun existing => ?_
  exact .ite (fun _ => .pure _) fun _ => Abides.view fun m kept => .query (creates m kept)

theorem EmbeddingService.load_abides (indexes : ch.Indexes n embedding) : (load embedding).Abides ch := by
  refine Abides.view fun m _ => .ite (fun _ => .pure _) fun _ => ?_
  refine ((Abides.query (indexes.loads _ _)).rescue fun fault => .fail _).bind fun _ => ?_
  exact .change indexes.loaded

theorem EmbeddingService.encodeBatch_abides (indexes : ch.Indexes n embedding) (texts : Value) (isQuery : Bool)
    (progress : Value) : (encodeBatch embedding texts isQuery progress).Abides ch := by
  refine .ite (fun _ => .pure _) fun _ => (load_abides indexes).bind fun _ => Abides.view fun m _ => ?_
  exact Abides.compute fun items _ => .query (indexes.encodes _ _ _ _)

theorem VectorIndex.writeGroups_abides (indexes : ch.Indexes n embedding)
    (writes : ∀ points, Point.AreOf kind records points → ch.asks (.upsert collection points)) {groups : List (List Value)}
    (parts : ∀ group ∈ groups, ∀ record ∈ group, record ∈ records ∧ isIndexable record = .ok true) (written : Nat) :
    (writeGroups n embedding kind collection written groups).Abides ch := by
  induction groups generalizing written with
  | nil => exact .pure _
  | cons group rest ih =>
    refine Abides.compute fun texts _ => (EmbeddingService.encodeBatch_abides indexes _ _ _).bind fun vectors => ?_
    refine Abides.compute fun points made => (openClient_abides indexes).bind fun _ => ?_
    refine (Abides.query (writes points fun p inside => ?_)).bind fun _ => ?_
    · obtain ⟨⟨record, vector⟩, pair, point⟩ := mem_of_mapM made inside
      obtain ⟨known, indexable⟩ := parts group (List.mem_cons_self ..) record (List.of_mem_zip pair).1
      exact ⟨record, known, vector, indexable, point⟩
    · exact ih (fun group inside => parts group (List.mem_cons_of_mem _ inside)) _

/-- Only points of the given records are written, and only to the given collection. -/
theorem VectorIndex.writeRecords_abides (indexes : ch.Indexes n embedding)
    (writes : ∀ points, Point.AreOf kind records points → ch.asks (.upsert collection points)) :
    (writeRecords n embedding kind collection records).Abides ch := by
  refine Abides.compute fun indexable kept => Abides.view fun m _ => Abides.compute fun groups grouped => ?_
  refine writeGroups_abides indexes writes (fun group inside record member => ?_) 0
  exact mem_of_filterM kept record (mem_of_groupsBy grouped inside member)

end Written

/-- Points of records that were read go to the collection of their kind. -/
def VectorSettings.Receives (settings : VectorSettings) (log : List Event) (collection : Value) (points : List Point) : Prop :=
  ∃ kind records, collection = settings.collectionFor kind ∧ kind.indexed.Reads records log ∧ Point.AreOf kind records points

/-- The settings of an index stay, and only certain points are written. -/
def Charter.writing (settings : VectorSettings) (index : Nat) (writes : Value → List Point → Prop) : Charter where
  keeps m := (m.index index).settings = settings
  asks question := ∀ collection points, question = .upsert collection points → writes collection points
  requests _ := True

section Vectorize

open Routine

variable {α β : Type} {settings : VectorSettings} {index embedding : Nat} {writes : Value → List Point → Prop}

/-- In every run that finds the settings of the index as they should be, what is written are points of records
that were read. -/
def Routine.Delivers (settings : VectorSettings) (index : Nat) (p : Routine α) : Prop :=
  ∀ log result, p.Runs log result → (∀ m, .sees m ∈ log → (m.index index).settings = settings) →
    ∀ collection points reply, .hears (.upsert collection points) reply ∈ log → settings.Receives log collection points

theorem VectorSettings.Receives.mono {log log' : List Event} {collection : Value} {points : List Point}
    (receives : settings.Receives log collection points) (more : ∀ event ∈ log, event ∈ log') :
    settings.Receives log' collection points := by
  obtain ⟨kind, records, named, ⟨t, heard, read⟩, areOf⟩ := receives
  exact ⟨kind, records, named, ⟨t, more _ heard, read⟩, areOf⟩

namespace Routine.Delivers

theorem bind {p : Routine α} {f : α → Routine β} (delivers : p.Delivers settings index)
    (rest : ∀ a, (f a).Delivers settings index) : (p >>= f).Delivers settings index := by
  intro log result runs kept collection points reply heard
  obtain ⟨before, after, middle, rfl, first, second⟩ := runs_andThen.mp runs
  have keptBefore : ∀ m, .sees m ∈ before → _ := fun m seen => kept m (List.mem_append_left _ seen)
  have keptAfter : ∀ m, .sees m ∈ after → _ := fun m seen => kept m (List.mem_append_right _ seen)
  rcases List.mem_append.mp heard with early | late
  · exact (delivers _ _ first keptBefore _ _ _ early).mono fun _ => List.mem_append_left _
  · cases middle with
    | ok a => exact (rest a _ _ second keptAfter _ _ _ late).mono fun _ => List.mem_append_right _
    | error fault =>
      obtain ⟨rfl, _⟩ := runs_done.mp second
      cases late

/-- A routine that writes no points at all. -/
theorem of_abides {p : Routine α} (abides : p.Abides (.writing settings index fun _ _ => False)) :
    p.Delivers settings index := by
  intro log result runs kept collection points reply heard
  exact (runs.asked abides kept heard collection points rfl).elim

theorem view {f : Memory → α} {g : α → Routine β}
    (rest : ∀ m : Memory, (m.index index).settings = settings → (g (f m)).Delivers settings index) :
    (Routine.view f >>= g).Delivers settings index := by
  intro log result runs kept collection points reply heard
  cases runs with
  | look runs =>
    have later := (List.mem_cons.mp heard).resolve_left nofun
    have own := rest _ (kept _ (List.mem_cons_self ..)) _ _ runs (fun m seen => kept m (List.mem_cons_of_mem _ seen)) _ _ _ later
    exact own.mono fun _ => List.mem_cons_of_mem _

end Routine.Delivers

end Vectorize

/-- How many matches of a kind name nobody of the population. -/
def Registry.unmatched (r : Registry) (kind : Kind) (hits : List Match) : Except Fault Nat :=
  match kind with
  | .classes => (resolve (fun c => .ok c.name) hits r.classes).map (·.2)
  | .methods => (resolve (fun m => .ok m.name) hits r.methods).map (·.2)

/-- A record shows properties of a node under their own names. -/
def Graph.Node.Shows (properties : List String) (node : Graph.Node) (record : Value) : Prop :=
  ∀ p ∈ properties, record.get p = .ok (node.properties p)

/-- What is indexed and what is listed are records of the same nodes, whose names can be looked up. -/
structure Kind.Shares (kind : Kind) (nodes : List Graph.Node) (indexed listed : List Value) : Prop where
  source : ∀ record ∈ indexed, ∃ node ∈ nodes, node.Shows kind.indexedProperties record
  covers : ∀ node ∈ nodes, ∃ record ∈ listed, node.Shows kind.listedProperties record
  only : ∀ record ∈ listed, ∃ node ∈ nodes, node.Shows kind.listedProperties record
  names : ∀ node ∈ nodes, (node.properties "name").isKey

/-- A match is read from a point of one of the records. -/
def Match.IsOf (kind : Kind) (records : List Value) (hit : Match) : Prop :=
  ∃ record ∈ records, ∃ id title vector score p, record.Named id title ∧ pointOf kind record vector = .ok p ∧
    Match.ofPoint kind ⟨score, p.payload⟩ = .ok hit

section Matched

variable {kind : Kind} {nodes : List Graph.Node} {indexed listed records : List Value} {hits : List Match}

theorem Value.isKey_orElse {v w : Value} (first : v.isKey) (second : w.isKey) : (v.orElse w).isKey := by
  unfold Value.orElse
  split
  · exact first
  · exact second

theorem Match.IsOf.named {hit : Match} (isOf : hit.IsOf kind records) :
    ∃ record ∈ records, ∃ id title, record.Named id title ∧ hit.name = .str title := by
  obtain ⟨record, there, id, title, vector, score, p, named, point, decoded⟩ := isOf
  have scored : ∃ x, score.toFloat = .ok x := by
    cases done : score.toFloat with
    | ok x => exact ⟨x, rfl⟩
    | error fault =>
      exfalso
      simp only [Match.ofPoint, done, bind, Except.bind] at decoded
      repeat' split at decoded
      all_goals cases decoded
  obtain ⟨x, scored⟩ := scored
  obtain ⟨p', point', decoded'⟩ := named.decodes kind vector scored
  cases point.symm.trans point'
  cases decoded.symm.trans decoded'
  refine ⟨record, there, id, title, named, ?_⟩
  cases kind <;> exact named.field_name

/-- The matches of a kind name entities of the same nodes. -/
theorem Kind.Shares.named {ε : Type} (nameOf : ε → Value) {ofRecord : Value → Except Fault ε} {population : List ε}
    (shares : kind.Shares nodes indexed listed) (made : listed.mapM ofRecord = .ok population)
    (names : ∀ record e, ofRecord record = .ok e → nameOf e = (record.field "name").orElse (.str ""))
    (read : ∀ hit ∈ hits, ∃ record ∈ indexed, ∃ id title, record.Named id title ∧ hit.name = .str title) :
    ∃ found, resolve (fun e => .ok (nameOf e)) hits population = .ok (found, 0) := by
  have shownName : "name" ∈ kind.indexedProperties ∧ "name" ∈ kind.listedProperties := by
    cases kind <;> simp [indexedProperties, listedProperties]
  refine resolve_named (fun e inside => ?_) fun hit inside => ?_
  · obtain ⟨record, there, entity⟩ := mem_of_mapM made inside
    obtain ⟨node, known, shows⟩ := shares.only record there
    rw [names record e entity, Value.field_of_get (shows _ shownName.2)]
    exact Value.isKey_orElse (shares.names node known) rfl
  · obtain ⟨record, there, id, title, named, hitName⟩ := read hit inside
    obtain ⟨node, known, shows⟩ := shares.source record there
    obtain ⟨record', there', shows'⟩ := shares.covers node known
    obtain ⟨k, at_k⟩ := List.mem_iff_getElem?.mp there'
    obtain ⟨e, at_e, entity⟩ := (getElem?_of_mapM made).2 at_k
    have name : nameOf e = .str title := by
      rw [names record' e entity, Value.field_of_get (shows' _ shownName.2), ← Value.field_of_get (shows _ shownName.1),
        named.field_name]
      exact if_pos (Value.str_truthy named.given.2)
    rw [hitName]
    refine ⟨rfl, e, List.mem_of_getElem? at_e, ?_⟩
    rw [name]
    exact beq_self_eq_true title

end Matched

/-- An answer with one row for each record, and a column for each of its fields. -/
def Table.ofRecord (names : List String) (record : Value) : Table where
  header := .list (names.map fun name => .list [.int 1, .str name])
  rows := [.cells (names.map fun name => .plain (record.field name))]

end CodeAtlas
