import CodeAtlas.Proofs.Retrieval.Indexing
import CodeAtlas.Proofs.Storage.Vectors
import CodeAtlas.Proofs.Turns.Regime

namespace CodeAtlas

open Routine VectorStore

/-- What stays the same from one attempt to index to the next: the settings, how texts are encoded, and what the graph
answers. -/
structure Vectorizing where
  settings : VectorSettings
  documentPrefix : Value
  normalize : Bool
  /-- The vector of a text does not depend on the texts that are encoded along with it. -/
  encode : Bool → String → Value
  answer : Statement → Table

/-- Who makes an attempt: the numbers of the parts, and how many records are taken at a time. -/
structure Vectorizer where
  graph : Nat
  index : Nat
  embedding : Nat
  size : Value

/-- The names of the collections, in any order. -/
def VectorStore.Names (s : VectorStore) (names : List Value) : Prop := ∀ name, name ∈ names ↔ name ∈ s.collections.map Prod.fst

namespace Vectorizing

/-- What is answered, and what becomes of what the vector server keeps. A point takes the place of the one with its identifier;
what fails is done in part, not at all, or even as a whole. -/
def Answers (v : Vectorizing) : (question : Ask) → Except Fault question.Reply → VectorStore → VectorStore → Prop
  | .listCollections, .ok names, s, t => t = s ∧ s.Names names
  | .createCollection name size, .ok _, s, t => t = s.create name size
  | .createCollection name size, .error _, s, t => t = s ∨ t = s.create name size
  | .upsert name points, .ok _, s, t => t = s.writeAll (points.map (.put name))
  | .upsert name points, .error _, s, t => ∃ part, part <+: points ∧ t = s.writeAll (part.map (.put name))
  | .encodeBatch texts _ normalize _, .ok vectors, s, t => t = s ∧ vectors = texts.map (v.encode normalize)
  | .query statement _, .ok table, s, t => t = s ∧ table.records = (v.answer statement).records
  | _, _, s, t => t = s

/-- What an attempt meets. Everything that is asked may fail, and nobody else writes to the vector server. -/
def around (v : Vectorizing) (x : Vectorizer) : Regime VectorStore where
  sees _ m := (m.index x.index).settings = v.settings ∧ (m.index x.index).batchSize = x.size ∧
    (m.embedding x.embedding).documentPrefix = v.documentPrefix ∧ (m.embedding x.embedding).normalize = v.normalize
  stores _ s := s
  answers := v.Answers
  grants _ _ s t := t = s

/-- An attempt to index: what it comes to, and what it leaves. -/
def Attempt (v : Vectorizing) (x : Vectorizer) (s : VectorStore) (r : Except Fault VectorCounts) (t : VectorStore) : Prop :=
  (vectorize x.graph x.index x.embedding).Arrives (v.around x) s r t

/-- The point of a record. -/
def pointAt (v : Vectorizing) (kind : Kind) (record : Value) : Except Fault Point := do
  let text ← entityText kind record
  pointOf kind record (v.encode v.normalize (v.documentPrefix.display ++ text.display))

/-- The points of records, all of them or none. -/
def puts (v : Vectorizing) (kind : Kind) (records : List Value) : Option (List Write) :=
  (records.mapM fun record => (v.pointAt kind record).toOption).map fun points =>
    points.map (.put (v.settings.collectionFor kind))

/-- The records that the graph answers with. -/
def records (v : Vectorizing) (statement : Statement) : Option (List Value) :=
  (GraphClient.read statement (.dict []) (.ok (v.answer statement))).toOption

/-- The points of a kind that are to be written, if the records allow of it. -/
def share (v : Vectorizing) (kind : Kind) : Option (List Write) := do
  let records ← v.records kind.indexed
  let indexable ← (records.filterM isIndexable).toOption
  v.puts kind indexable

def ensures (v : Vectorizing) : List Write :=
  [.ensure v.settings.methodCollection v.settings.vectorSize, .ensure v.settings.classCollection v.settings.vectorSize]

/-- What a complete attempt does. -/
def plan (v : Vectorizing) : Option (List Write) := do
  let methods ← v.share .methods
  let classes ← v.share .classes
  return v.ensures ++ (methods ++ classes)

end Vectorizing

theorem toOption_eq_some {α : Type} {x : Except Fault α} {a : α} : x.toOption = some a ↔ x = .ok a := by
  cases x <;> simp [Except.toOption]

/-- One plan after the other. -/
def inTurn (first second : Option (List Write)) : Option (List Write) := do
  let before ← first
  let after ← second
  return before ++ after

theorem inTurn_nil (plan : Option (List Write)) : inTurn (some []) plan = plan := by
  cases plan <;> rfl

/-- A routine carries out a plan: the whole of it if it ends well, and the first part of it if not; and it can end well. -/
structure Routine.Does {α : Type} (g : Regime VectorStore) (p : Routine α) (plan : Option (List Write))
    (leaves : α → Prop := fun _ => True) : Prop where
  whole : ∀ {s a t}, p.Arrives g s (.ok a) t → leaves a ∧ ∃ writes, plan = some writes ∧ t = s.writeAll writes
  part : ∀ {s r t writes}, p.Arrives g s r t → plan = some writes → ∃ made, made <+: writes ∧ t = s.writeAll made
  way : ∀ {writes} s, plan = some writes → ∃ a t, p.Arrives g s (.ok a) t

namespace Routine.Does

variable {α β : Type} {g : Regime VectorStore} {p : Routine α} {f : α → Routine β} {first second plan : Option (List Write)}
  {leaves : α → Prop} {leaves' : β → Prop}

theorem pure (a : α) : (Pure.pure a : Routine α).Does g (some []) := by
  refine ⟨?_, ?_, fun s _ => ⟨a, s, rfl, rfl⟩⟩
  · rintro s b t ⟨_, rfl⟩
    exact ⟨trivial, [], rfl, rfl⟩
  · rintro s r t _ ⟨_, rfl⟩ ⟨⟩
    exact ⟨[], List.prefix_rfl, rfl⟩

theorem bind (does : p.Does g first leaves) (rest : ∀ a, leaves a → (f a).Does g second leaves') :
    (p >>= f).Does g (inTurn first second) leaves' := by
  constructor
  · intro s b t arrives
    obtain ⟨r, middle, before, after⟩ := arrives_andThen.mp arrives
    cases r with
    | error => cases after.1
    | ok a =>
      obtain ⟨left, writes, rfl, rfl⟩ := does.whole before
      obtain ⟨left', writes', rfl, rfl⟩ := (rest a left).whole after
      exact ⟨left', writes ++ writes', rfl, (writeAll_append ..).symm⟩
  · intro s r t writes arrives planned
    obtain ⟨writes₁, same, planned⟩ := Option.bind_eq_some_iff.mp planned
    obtain ⟨writes₂, same', planned⟩ := Option.bind_eq_some_iff.mp planned
    cases planned
    obtain ⟨r, middle, before, after⟩ := arrives_andThen.mp arrives
    cases r with
    | error =>
      obtain ⟨_, rfl⟩ := after
      obtain ⟨made, begun, rfl⟩ := does.part before same
      exact ⟨made, begun.trans (List.prefix_append ..), rfl⟩
    | ok a =>
      obtain ⟨left, _, again, rfl⟩ := does.whole before
      cases same.symm.trans again
      obtain ⟨made, begun, rfl⟩ := (rest a left).part after same'
      exact ⟨writes₁ ++ made, (List.prefix_append_right_inj _).mpr begun, (writeAll_append ..).symm⟩
  · intro writes s planned
    obtain ⟨writes₁, same, planned⟩ := Option.bind_eq_some_iff.mp planned
    obtain ⟨writes₂, same', planned⟩ := Option.bind_eq_some_iff.mp planned
    obtain ⟨a, middle, before⟩ := does.way s same
    obtain ⟨b, t, after⟩ := (rest a (does.whole before).1).way middle same'
    exact ⟨b, t, before.seq after⟩

/-- What writes nothing may stand in front. -/
theorem after (does : p.Does g (some []) leaves) (rest : ∀ a, leaves a → (f a).Does g plan leaves') : (p >>= f).Does g plan leaves' := by
  have both := does.bind rest
  rwa [inTurn_nil] at both

/-- What is computed on the way may be relied on; where it fails there is no plan. -/
theorem compute {x : Except Fault α} (value : ∀ a, x = .ok a → (f a).Does g plan leaves')
    (fault : ∀ e, x = .error e → plan = none) : (ofExcept x >>= f).Does g plan leaves' := by
  cases x with
  | ok a => exact value a rfl
  | error e =>
    obtain rfl := fault e rfl
    exact ⟨by rintro s a t ⟨⟨⟩, _⟩, by rintro s r t _ _ ⟨⟩, by rintro _ _ ⟨⟩⟩

/-- What is seen may be relied on, and there is something to be seen. -/
theorem view {f : Memory → α} {next : α → Routine β} (sees : ∀ s, ∃ m, g.sees s m)
    (rest : ∀ s m, g.sees s m → (next (f m)).Does g plan leaves') : (Routine.view f >>= next).Does g plan leaves' := by
  constructor
  · rintro s b t ⟨m, seen, arrives⟩
    exact (rest s m seen).whole arrives
  · rintro s r t writes ⟨m, seen, arrives⟩
    exact (rest s m seen).part arrives
  · intro writes s planned
    obtain ⟨m, seen⟩ := sees s
    obtain ⟨a, t, arrives⟩ := (rest s m seen).way s planned
    exact ⟨a, t, m, seen, arrives⟩

theorem query {q : Ask} {leaves : q.Reply → Prop}
    (ok : ∀ {s a t}, g.answers q (.ok a) s t → leaves a ∧ ∃ writes, plan = some writes ∧ t = s.writeAll writes)
    (fails : ∀ {s e t writes}, g.answers q (.error e) s t → plan = some writes → ∃ made, made <+: writes ∧ t = s.writeAll made)
    (way : ∀ {writes} s, plan = some writes → ∃ a t, g.answers q (.ok a) s t) : (Routine.query q).Does g plan leaves := by
  constructor
  · rintro s a t ⟨reply, _, answered, ⟨⟩, rfl⟩
    exact ok answered
  · rintro s r t writes ⟨_, _, answered, rfl, rfl⟩ planned
    cases r with
    | ok a =>
      obtain ⟨_, writes, rfl, rfl⟩ := ok answered
      cases planned
      exact ⟨writes, List.prefix_rfl, rfl⟩
    | error => exact fails answered planned
  · intro writes s planned
    obtain ⟨a, t, answered⟩ := way s planned
    exact ⟨a, t, .ok a, t, answered, rfl, rfl⟩

/-- One fault in place of another. -/
theorem rescue {leaves : α → Prop} (does : p.Does g plan leaves) (fault : Fault → Fault) :
    (p.rescue fun e => Routine.fail (fault e)).Does g plan leaves := by
  have arrives : ∀ {s r t}, (p.rescue fun e => Routine.fail (fault e)).Arrives g s r t → ∃ r', p.Arrives g s r' t ∧
      ∀ a, r = .ok a → r' = .ok a := by
    intro s r t arrives
    obtain ⟨r', u, first, second⟩ := arrives_andThen.mp arrives
    refine ⟨r', ?_⟩
    cases r' with
    | ok a =>
      obtain ⟨rfl, rfl⟩ := second
      exact ⟨first, fun _ => id⟩
    | error e =>
      dsimp only at second
      split at second <;> obtain ⟨rfl, rfl⟩ := second <;> exact ⟨first, nofun⟩
  constructor
  · intro s a t ends
    obtain ⟨r, first, same⟩ := arrives ends
    exact does.whole (same a rfl ▸ first)
  · intro s r t writes ends planned
    obtain ⟨r', first, _⟩ := arrives ends
    exact does.part first planned
  · intro writes s planned
    obtain ⟨a, t, first⟩ := does.way s planned
    exact ⟨a, t, arrives_andThen.mpr ⟨.ok a, t, first, rfl, rfl⟩⟩

end Routine.Does

/-- The points of a batch are those of its records. -/
theorem batch_toOption (kind : Kind) (encode : Value → Value) (group : List Value) : (do
    let texts ← group.mapM (entityText kind)
    (group.zip (texts.map encode)).mapM fun (record, vector) => pointOf kind record vector : Except Fault (List Point)).toOption =
      group.mapM fun record => (entityText kind record >>= fun text => pointOf kind record (encode text)).toOption := by
  induction group with
  | nil => rfl
  | cons record rest ih =>
    rw [List.mapM_cons, List.mapM_cons, ← ih]
    cases entityText kind record with
    | error => rfl
    | ok text =>
      cases rest.mapM (entityText kind) with
      | error =>
        simp only [Bind.bind, Except.bind]
        cases pointOf kind record (encode text) <;> rfl
      | ok texts =>
        simp only [Bind.bind, Except.bind, Pure.pure, Except.pure, List.map_cons, List.zip_cons_cons, List.mapM_cons]
        cases pointOf kind record (encode text) with
        | error => rfl
        | ok point => cases (rest.zip (texts.map encode)).mapM fun (record, vector) => pointOf kind record vector <;> rfl

section Attempt

variable {v : Vectorizing} {x : Vectorizer} {kind : Kind}

/-- There is a memory as an attempt meets it, with the graph connected. -/
theorem Vectorizing.exists_sees (v : Vectorizing) (x : Vectorizer) (s : VectorStore) :
    ∃ m, (v.around x).sees s m ∧ (m.graph x.graph).connected = true := by
  let index : VectorIndex := { (default : VectorIndex) with settings := v.settings, batchSize := x.size }
  let embedding : EmbeddingService := { (default : EmbeddingService) with documentPrefix := v.documentPrefix, normalize := v.normalize }
  refine ⟨{ (default : Memory) with
    indexes := List.replicate (x.index + 1) index
    embeddings := List.replicate (x.embedding + 1) embedding
    graphs := List.replicate (x.graph + 1) ⟨default, true⟩ }, ⟨?_, ?_, ?_, ?_⟩, ?_⟩ <;>
    simp [Memory.index, Memory.embedding, Memory.graph, part, index, embedding]

theorem Vectorizing.sees (v : Vectorizing) (x : Vectorizer) (s : VectorStore) : ∃ m, (v.around x).sees s m :=
  (v.exists_sees x s).imp fun _ => And.left

/-- What touches nothing but the memory writes nothing. -/
theorem change_does (f : Memory → Memory) : (change f).Does (v.around x) (some []) := by
  constructor
  · rintro s a t ⟨m, _, _, rfl⟩
    exact ⟨trivial, [], rfl, rfl⟩
  · rintro s r t _ ⟨m, _, _, rfl⟩ ⟨⟩
    exact ⟨[], List.prefix_rfl, rfl⟩
  · intro writes s _
    obtain ⟨m, seen⟩ := v.sees x s
    exact ⟨(), s, m, seen, rfl, rfl⟩

/-- A question that leaves the vector server alone. -/
theorem silent_does {q : Ask} (same : ∀ {reply s t}, v.Answers q reply s t → t = s) (way : ∃ a, ∀ s, v.Answers q (.ok a) s s) :
    (query q).Does (v.around x) (some []) := by
  refine .query (fun answered => ⟨trivial, [], rfl, same answered⟩) ?_ fun s _ => ⟨way.choose, s, way.choose_spec s⟩
  rintro s e t _ answered ⟨⟩
  exact ⟨[], List.prefix_rfl, same answered⟩

theorem now_does : now.Does (v.around x) (some []) := by
  constructor
  · rintro s a t ⟨_, _, rfl, _, rfl⟩
    exact ⟨trivial, [], rfl, rfl⟩
  · rintro s r t _ ⟨_, _, rfl, _, rfl⟩ ⟨⟩
    exact ⟨[], List.prefix_rfl, rfl⟩
  · exact fun s _ => ⟨(0.0 : Float), s, .ok (0.0 : Float), s, rfl, rfl, rfl⟩

theorem openClient_does : (VectorIndex.openClient x.index).Does (v.around x) (some []) := by
  refine .view (v.sees x) fun s m seen => ?_
  split
  · exact .pure _
  · have opens : (query (.openVectors (m.index x.index).settings.host (m.index x.index).settings.port)).Does (v.around x) (some []) :=
      silent_does (fun {reply} _ _ answered => by cases reply <;> exact answered) ⟨(), fun _ => rfl⟩
    exact opens.after fun _ _ => change_does _

theorem VectorStore.Names.any {s : VectorStore} {names : List Value} (all : s.Names names) (name : Value) :
    names.any (·.same name) = s.lists name := by
  rw [Bool.eq_iff_iff, lists, List.any_eq_true, List.any_eq_true]
  constructor
  · rintro ⟨other, inside, same⟩
    obtain ⟨entry, there, rfl⟩ := List.mem_map.mp ((all other).mp inside)
    exact ⟨entry, there, same⟩
  · rintro ⟨entry, there, same⟩
    exact ⟨entry.1, (all _).mpr (List.mem_map_of_mem there), same⟩

/-- Creates a collection that is not among those that are listed. -/
def VectorIndex.createAbsent (n : Nat) (name : Value) : Routine Unit := do
  let existing : List Value ← query .listCollections
  if existing.any (·.same name) then return
  let index ← Routine.view (·.index n)
  query (.createCollection name index.settings.vectorSize)

/-- There is the collection in the end, or there has been a fault. -/
theorem createAbsent_arrives {name : Value} {s t : VectorStore} {r : Except Fault Unit}
    (arrives : (VectorIndex.createAbsent x.index name).Arrives (v.around x) s r t) :
    t = s.write (.ensure name v.settings.vectorSize) ∨ t = s ∧ ∃ e, r = .error e := by
  obtain ⟨listed, u, ⟨_, _, answered, rfl, rfl⟩, after⟩ := arrives_andThen.mp arrives
  cases listed with
  | error e =>
    obtain ⟨rfl, rfl⟩ := after
    exact .inr ⟨answered, e, rfl⟩
  | ok names =>
    obtain ⟨rfl, all⟩ := answered
    change Routine.Arrives _ (if names.any (·.same name) then _ else _) _ _ _ at after
    rw [all.any name] at after
    split at after
    next there =>
      obtain ⟨rfl, rfl⟩ := after
      exact .inl (if_pos there).symm
    next absent =>
      obtain ⟨m, ⟨settings, _⟩, reply, _, created, rfl, rfl⟩ := after
      change v.Answers (.createCollection name (m.index x.index).settings.vectorSize) r u t at created
      rw [settings] at created
      have done : u.write (.ensure name v.settings.vectorSize) = u.create name v.settings.vectorSize := if_neg absent
      cases r with
      | ok => exact .inl (created.trans done.symm)
      | error e => exact created.elim (fun same => .inr ⟨same, e, rfl⟩) fun made => .inl (made.trans done.symm)

theorem createAbsent_way (v : Vectorizing) (x : Vectorizer) (name : Value) (s : VectorStore) :
    ∃ a t, (VectorIndex.createAbsent x.index name).Arrives (v.around x) s (.ok a) t := by
  have all : s.Names (s.collections.map Prod.fst) := fun _ => Iff.rfl
  have asks : (query .listCollections).Arrives (v.around x) s (.ok (s.collections.map Prod.fst)) s :=
    ⟨.ok (s.collections.map Prod.fst), s, ⟨rfl, all⟩, rfl, rfl⟩
  cases there : s.lists name with
  | true =>
    refine ⟨(), s, asks.seq ?_⟩
    rw [all.any, there]
    exact ⟨rfl, rfl⟩
  | false =>
    obtain ⟨m, seen⟩ := v.sees x s
    refine ⟨(), s.create name (m.index x.index).settings.vectorSize, asks.seq ?_⟩
    rw [all.any, there]
    exact ⟨m, seen, .ok (), _, rfl, rfl, rfl⟩

/-- A collection is seen to. -/
theorem ensureCollection_does (name : Value) :
    (VectorIndex.ensureCollection x.index name).Does (v.around x) (some [.ensure name v.settings.vectorSize]) := by
  refine openClient_does.after fun _ _ => ?_
  change (VectorIndex.createAbsent x.index name).Does (v.around x) _
  refine ⟨fun arrives => ⟨trivial, _, rfl, ?_⟩, ?_, fun s _ => createAbsent_way v x name s⟩
  · exact (createAbsent_arrives arrives).resolve_right fun failed => by cases failed.2.choose_spec
  · rintro s r t _ arrives ⟨⟩
    rcases createAbsent_arrives arrives with rfl | ⟨rfl, _⟩
    · exact ⟨_, List.prefix_rfl, rfl⟩
    · exact ⟨[], List.nil_prefix, rfl⟩

/-- Records come as the graph answers. -/
theorem run_does (statement : Statement) : (GraphClient.run x.graph statement).Does (v.around x)
    ((v.records statement).map fun _ => []) fun records => v.records statement = some records := by
  have reads : ∀ table : Table, table.records = (v.answer statement).records →
      GraphClient.read statement (.dict []) (.ok table) = GraphClient.read statement (.dict []) (.ok (v.answer statement)) :=
    fun table same => by simp only [GraphClient.read, Bind.bind, Except.bind, same]
  -- the state stays, and a value is what the graph's answer reads as
  have arrives : ∀ {s r t}, (GraphClient.run x.graph statement).Arrives (v.around x) s r t → t = s ∧
      ∀ records, r = .ok records → v.records statement = some records := by
    rintro s r t arrives
    rw [GraphClient.run, GraphClient.send_eq] at arrives
    obtain ⟨m, _, arrives⟩ := arrives
    dsimp only at arrives
    split at arrives
    · obtain ⟨reply, u, answered, rfl, rfl⟩ := arrives
      cases reply with
      | error => exact ⟨answered, by rintro _ ⟨⟩⟩
      | ok table =>
        refine ⟨answered.1, fun records same => ?_⟩
        rw [Vectorizing.records, ← reads table answered.2]
        exact congrArg Except.toOption same
    · obtain ⟨rfl, rfl⟩ := arrives
      exact ⟨rfl, by rintro _ ⟨⟩⟩
  constructor
  · intro s records t ends
    obtain ⟨rfl, value⟩ := arrives ends
    have known := value records rfl
    exact ⟨known, [], by rw [known]; rfl, rfl⟩
  · intro s r t writes ends planned
    obtain ⟨rfl, _⟩ := arrives ends
    exact ⟨[], List.nil_prefix, rfl⟩
  · intro writes s planned
    obtain ⟨records, known, _⟩ := Option.map_eq_some_iff.mp planned
    obtain ⟨m, seen, connected⟩ := v.exists_sees x s
    refine ⟨records, s, ?_⟩
    rw [GraphClient.run, GraphClient.send_eq]
    refine ⟨m, seen, ?_⟩
    dsimp only
    rw [if_pos connected]
    refine ⟨.ok (v.answer statement), s, ⟨rfl, rfl⟩, ?_, rfl⟩
    exact (toOption_eq_some.mp known).symm

theorem load_does : (EmbeddingService.load x.embedding).Does (v.around x) (some []) := by
  refine .view (v.sees x) fun s m seen => ?_
  split
  · exact .pure _
  · have loads : (query (.loadModel (m.embedding x.embedding).modelName (m.embedding x.embedding).device)).Does (v.around x) (some []) :=
      silent_does (fun {reply} _ _ answered => by cases reply <;> exact answered) ⟨(), fun _ => rfl⟩
    exact (loads.rescue _).after fun _ _ => change_does _

/-- Texts are encoded, each of them for itself. -/
theorem encodeBatch_does (texts : List Value) : (EmbeddingService.encodeBatch x.embedding (.list texts) false (.bool false)).Does
    (v.around x) (some []) fun vectors => vectors = texts.map fun text => v.encode v.normalize (v.documentPrefix.display ++ text.display) := by
  rw [EmbeddingService.encodeBatch]
  split
  next none =>
    obtain rfl : texts = [] := by simpa [Value.truthy] using none
    refine ⟨?_, ?_, fun s _ => ⟨[], s, rfl, rfl⟩⟩
    · rintro s a t ⟨⟨⟩, rfl⟩
      exact ⟨rfl, [], rfl, rfl⟩
    · rintro s r t _ ⟨_, rfl⟩ ⟨⟩
      exact ⟨[], List.prefix_rfl, rfl⟩
  next =>
    refine load_does.after fun _ _ => .view (v.sees x) fun s m seen => ?_
    obtain ⟨_, _, behind, normalize⟩ := seen
    refine .compute (fun items same => ?_) fun e failed => by cases failed
    cases same
    refine .query (fun answered => ?_) ?_ fun s _ => ⟨_, s, rfl, rfl⟩
    · obtain ⟨rfl, vectors⟩ := answered
      refine ⟨vectors.trans ?_, [], rfl, rfl⟩
      rw [List.map_map, normalize, ← behind]
      rfl
    · rintro s e t _ answered ⟨⟩
      exact ⟨[], List.prefix_rfl, answered⟩

/-- Points are written. -/
theorem upsert_does (name : Value) (points : List Point) :
    (query (.upsert name points)).Does (v.around x) (some (points.map (.put name))) := by
  refine .query (fun answered => ⟨trivial, _, rfl, answered⟩) ?_ fun s _ => ⟨(), _, rfl⟩
  rintro s e t _ ⟨part, begun, rfl⟩ ⟨⟩
  exact ⟨_, begun.map _, rfl⟩

theorem puts_append (first second : List Value) : v.puts kind (first ++ second) = inTurn (v.puts kind first) (v.puts kind second) := by
  simp only [Vectorizing.puts, inTurn, List.mapM_append]
  cases first.mapM fun record => (v.pointAt kind record).toOption with
  | none => rfl
  | some points =>
    cases second.mapM fun record => (v.pointAt kind record).toOption with
    | none => rfl
    | some points' => exact congrArg some List.map_append

/-- What is computed of a batch, from its texts on. -/
theorem puts_batch (group : List Value) : v.puts kind group = ((do
    let texts ← group.mapM (entityText kind)
    (group.zip (texts.map fun text => v.encode v.normalize (v.documentPrefix.display ++ text.display))).mapM
      fun (record, vector) => pointOf kind record vector : Except Fault (List Point)).toOption).map
        fun points => points.map (.put (v.settings.collectionFor kind)) := by
  rw [batch_toOption kind fun text => v.encode v.normalize (v.documentPrefix.display ++ text.display), Vectorizing.puts]
  rfl

theorem writeGroups_does (written : Nat) (groups : List (List Value)) :
    (VectorIndex.writeGroups x.index x.embedding kind (v.settings.collectionFor kind) written groups).Does (v.around x)
      (v.puts kind groups.flatten) := by
  induction groups generalizing written with
  | nil => exact .pure _
  | cons group rest ih =>
    rw [List.flatten_cons, puts_append, puts_batch]
    refine .compute (fun texts read => ?_) fun e failed => ?_
    · refine (encodeBatch_does texts).after fun vectors encoded => .compute (fun points made => ?_) fun e failed => ?_
      · subst encoded
        simp only [read, Bind.bind, Except.bind, made]
        exact openClient_does.after fun _ _ => (upsert_does _ points).bind fun _ _ => ih _
      · subst encoded
        simp only [read, Bind.bind, Except.bind, failed]
        rfl
    · simp only [failed, Bind.bind, Except.bind]
      rfl

/-- The points of records are written, whatever the size of the batches. -/
theorem writeRecords_does (isSize : x.size.IsSize) (records : List Value) :
    (VectorIndex.writeRecords x.index x.embedding kind (v.settings.collectionFor kind) records).Does (v.around x)
      ((records.filterM isIndexable).toOption.bind (v.puts kind)) := by
  refine .compute (fun indexable kept => ?_) fun e failed => ?_
  · rw [kept]
    refine .view (v.sees x) fun s m seen => ?_
    obtain ⟨groups, grouped, whole⟩ := groupsBy_ok isSize indexable
    rw [seen.2.1]
    refine .compute (fun groups' grouped' => ?_) fun e failed => ?_
    · cases grouped.symm.trans grouped'
      have writes : (VectorIndex.writeGroups x.index x.embedding kind (v.settings.collectionFor kind) 0 groups).Does (v.around x)
          (v.puts kind groups.flatten) := writeGroups_does 0 groups
      rwa [whole] at writes
    · cases grouped.symm.trans failed
  · rw [failed]
    rfl

/-- Records are read, and their points are written. -/
theorem share_does {β : Type} {rest : Nat → Routine β} {plan : Option (List Write)} (kind : Kind) (isSize : x.size.IsSize)
    (goesOn : ∀ n, (rest n).Does (v.around x) plan) :
    (GraphClient.run x.graph kind.indexed >>= fun records =>
      VectorIndex.writeRecords x.index x.embedding kind (v.settings.collectionFor kind) records >>= rest).Does (v.around x)
        (inTurn (v.share kind) plan) := by
  have same : inTurn ((v.records kind.indexed).map fun _ => []) (inTurn (v.share kind) plan) = inTurn (v.share kind) plan := by
    rw [Vectorizing.share]
    cases v.records kind.indexed with
    | none => rfl
    | some records => exact inTurn_nil _
  rw [← same]
  refine (run_does _).bind fun records known => ?_
  have share : v.share kind = (records.filterM isIndexable).toOption.bind (v.puts kind) := by
    rw [Vectorizing.share, known]
    rfl
  rw [share]
  exact (writeRecords_does isSize records).bind fun n _ => goesOn n

/-- An attempt carries out the plan. -/
theorem vectorize_does (v : Vectorizing) (isSize : x.size.IsSize) :
    (vectorize x.graph x.index x.embedding).Does (v.around x) v.plan := by
  have whole : v.plan = inTurn (some [.ensure v.settings.methodCollection v.settings.vectorSize])
      (inTurn (some [.ensure v.settings.classCollection v.settings.vectorSize])
        (inTurn (v.share .methods) (inTurn (v.share .classes) (some [])))) := by
    unfold Vectorizing.plan
    cases v.share .methods with
    | none => rfl
    | some methods =>
      cases v.share .classes with
      | none => rfl
      | some classes => simp [inTurn, Vectorizing.ensures]
  rw [whole]
  refine now_does.after fun start _ => .view (v.sees x) fun s m seen => ?_
  rw [seen.1]
  refine (ensureCollection_does _).bind fun _ _ => (ensureCollection_does _).bind fun _ _ => ?_
  refine share_does .methods isSize fun methods => share_does .classes isSize fun classes => ?_
  exact now_does.after fun stop _ => .pure _

end Attempt

/-- Creating collections apart, nothing is said of what is asked. -/
def Charter.uncreative : Charter where
  keeps _ := True
  asks question := ∀ name size, question ≠ .createCollection name size
  requests _ := True

theorem Charter.uncreative_indexes (index embedding : Nat) : Charter.uncreative.Indexes index embedding where
  opens _ _ _ _ := nofun
  lists _ _ := nofun
  loads _ _ _ _ := nofun
  encodes _ _ _ _ _ _ := nofun
  opened _ _ := trivial
  loaded _ _ := trivial

section Creates

variable {α β : Type} {v : Vectorizing} {x : Vectorizer}

/-- Wherever it is asked for a new collection, there is none of that name. -/
def Routine.Sparing (g : Regime VectorStore) (p : Routine α) : Prop :=
  ∀ s name size t, p.Poses g s (.createCollection name size) t → t.lists name = false

theorem Routine.Sparing.bind {g : Regime VectorStore} {p : Routine α} {f : α → Routine β} (sparing : p.Sparing g)
    (rest : ∀ a, (f a).Sparing g) : (p >>= f).Sparing g := by
  intro s name size t poses
  rcases poses.bind with first | ⟨a, u, _, second⟩
  · exact sparing _ _ _ _ first
  · exact rest a _ _ _ _ second

theorem Routine.Sparing.of_abides {g : Regime VectorStore} {p : Routine α} (abides : p.Abides .uncreative) : p.Sparing g :=
  fun _ _ _ _ poses => absurd rfl (abides.poses (fun _ => trivial) poses _ _)

theorem ensureCollection_sparing (name : Value) : (VectorIndex.ensureCollection x.index name).Sparing (v.around x) := by
  refine .bind (.of_abides (VectorIndex.openClient_abides (Charter.uncreative_indexes x.index x.embedding))) fun _ => ?_
  change (VectorIndex.createAbsent x.index name).Sparing (v.around x)
  rintro s other size t (⟨⟨⟩, _⟩ | ⟨reply, u, answered, rest⟩)
  cases reply with
  | error => exact rest.elim
  | ok names =>
    obtain ⟨rfl, all⟩ := answered
    change Routine.Poses _ (if names.any (·.same name) then _ else _) _ _ _ at rest
    rw [all.any name] at rest
    split at rest
    next => exact rest.elim
    next absent =>
      obtain ⟨m, _, ⟨same, rfl⟩ | ⟨_, _, _, rest⟩⟩ := rest
      · cases same
        exact Bool.eq_false_iff.mpr absent
      · exact rest.elim

theorem vectorize_sparing (v : Vectorizing) (x : Vectorizer) : (vectorize x.graph x.index x.embedding).Sparing (v.around x) := by
  have runs : ∀ statement, (GraphClient.run x.graph statement).Abides .uncreative := by
    intro statement
    rw [GraphClient.run, GraphClient.send_eq]
    exact fun m _ => .ite (fun _ => ⟨by rintro _ _ ⟨⟩, fun _ => trivial⟩) fun _ => trivial
  have writes : ∀ kind name records, (VectorIndex.writeRecords x.index x.embedding kind name records).Abides .uncreative :=
    fun kind name records => VectorIndex.writeRecords_abides (Charter.uncreative_indexes _ _) fun _ _ => by rintro _ _ ⟨⟩
  have looks : ∀ f : Memory → VectorSettings, (Routine.view f).Abides .uncreative := fun _ _ _ => trivial
  refine .bind (.of_abides (.request trivial)) fun _ => .bind (.of_abides (looks _)) fun settings => ?_
  refine .bind (ensureCollection_sparing _) fun _ => .bind (ensureCollection_sparing _) fun _ => ?_
  refine .bind (.of_abides (runs _)) fun methods => .bind (.of_abides (writes ..)) fun _ => ?_
  refine .bind (.of_abides (runs _)) fun classes => .bind (.of_abides (writes ..)) fun _ => ?_
  exact .bind (.of_abides (.request trivial)) fun _ => .of_abides (.pure _)

end Creates

/-- Attempts to index can be repeated, with any sizes and wherever they stopped. -/
structure Vectorizing.Repeatable (v : Vectorizing) : Prop where
  /-- A complete attempt is possible whenever the records allow of one. -/
  completes : ∀ {x : Vectorizer} s, x.size.IsSize → v.plan.isSome → ∃ counts t, v.Attempt x s (.ok counts) t
  /-- However an attempt ends, a complete one after it leaves what a complete one alone would have left. -/
  resumes : ∀ {x y z : Vectorizer} {s s₁ s₂ s₃ r counts counts'}, x.size.IsSize → y.size.IsSize → z.size.IsSize →
    v.Attempt x s r s₁ → v.Attempt y s₁ (.ok counts) s₂ → v.Attempt z s (.ok counts') s₃ → s₂ = s₃
  /-- After a complete attempt another one changes nothing, and one that fails adds nothing. -/
  again : ∀ {x y : Vectorizer} {s s₁ s₂ r counts}, x.size.IsSize → y.size.IsSize → v.Attempt x s (.ok counts) s₁ →
    v.Attempt y s₁ r s₂ → s₂.collections = s₁.collections ∧ (∀ c id, (s₂.points c id).isSome = (s₁.points c id).isSome) ∧
      ∀ counts', r = .ok counts' → s₂ = s₁
  /-- Only a collection that is absent is ever created. -/
  creates : ∀ {x : Vectorizer} {s name size t},
    (vectorize x.graph x.index x.embedding).Poses (v.around x) s (.createCollection name size) t → t.lists name = false

theorem Vectorizing.ensures_text {v : Vectorizing} (methods : v.settings.methodCollection.IsText)
    (classes : v.settings.classCollection.IsText) : ∀ w ∈ v.ensures, w.Ensures := by
  intro w inside
  simp only [ensures, List.mem_cons, List.not_mem_nil, or_false] at inside
  rcases inside with rfl | rfl
  · exact ⟨_, _, rfl, methods⟩
  · exact ⟨_, _, rfl, classes⟩

theorem Vectorizing.plan_eq {v : Vectorizing} {writes : List Write} (planned : v.plan = some writes) :
    ∃ puts, writes = v.ensures ++ puts ∧ ∀ w ∈ puts, w.Puts := by
  have share_puts : ∀ {kind writes}, v.share kind = some writes → ∀ w ∈ writes, w.Puts := by
    intro kind writes same w inside
    obtain ⟨records, _, same⟩ := Option.bind_eq_some_iff.mp same
    obtain ⟨indexable, _, same⟩ := Option.bind_eq_some_iff.mp same
    obtain ⟨points, _, rfl⟩ := Option.map_eq_some_iff.mp same
    obtain ⟨point, _, rfl⟩ := List.mem_map.mp inside
    exact ⟨_, _, rfl⟩
  obtain ⟨methods, same, planned⟩ := Option.bind_eq_some_iff.mp planned
  obtain ⟨classes, same', planned⟩ := Option.bind_eq_some_iff.mp planned
  cases planned
  exact ⟨_, rfl, List.forall_mem_append.mpr ⟨share_puts same, share_puts same'⟩⟩

/-- Indexing can be done again and again, as long as the collections are named by texts. -/
theorem vectorize_repeatable (v : Vectorizing) (methods : v.settings.methodCollection.IsText)
    (classes : v.settings.classCollection.IsText) : v.Repeatable where
  completes s isSize planned := by
    obtain ⟨writes, planned⟩ := Option.isSome_iff_exists.mp planned
    exact (vectorize_does v isSize).way s planned
  resumes isSize isSize' isSize'' first second whole := by
    obtain ⟨_, writes, planned, rfl⟩ := (vectorize_does v isSize').whole second
    obtain ⟨made, begun, rfl⟩ := (vectorize_does v isSize).part first planned
    obtain ⟨_, writes', planned', rfl⟩ := (vectorize_does v isSize'').whole whole
    cases planned.symm.trans planned'
    obtain ⟨puts, rfl, only⟩ := v.plan_eq planned
    exact writeAll_resumed (v.ensures_text methods classes) only begun
  again isSize isSize' first second := by
    obtain ⟨_, writes, planned, rfl⟩ := (vectorize_does v isSize).whole first
    obtain ⟨made, begun, rfl⟩ := (vectorize_does v isSize').part second planned
    obtain ⟨puts, rfl, only⟩ := v.plan_eq planned
    obtain ⟨collections, points⟩ := writeAll_again (v.ensures_text methods classes) only begun
    refine ⟨collections, points, ?_⟩
    rintro counts' rfl
    obtain ⟨_, writes', planned', same⟩ := (vectorize_does v isSize').whole second
    cases planned.symm.trans planned'
    rw [same]
    exact writeAll_resumed (v.ensures_text methods classes) only List.prefix_rfl
  creates poses := vectorize_sparing v _ _ _ _ _ poses

section Example

/-- The graph tells of two described methods with one identity, and of no class. -/
def Vectorizing.twice : Vectorizing where
  settings := { (default : VectorSettings) with methodCollection := .str "methods", classCollection := .str "classes" }
  documentPrefix := .str "passage: "
  normalize := true
  encode _ text := .list [.int text.length]
  answer
    | .describedMethods => ⟨.list [.list [.int 1, .str "id"], .list [.int 1, .str "name"]],
      [.cells [.plain (.str "A.run"), .plain (.str "run")], .cells [.plain (.str "A.run"), .plain (.str "walk")]]⟩
    | _ => ⟨.list [], []⟩

/-- Two records are taken at a time. -/
def Vectorizer.paired : Vectorizer := ⟨0, 0, 0, .int 2⟩

def Vectorizing.method (name : String) : Value := .record [("id", .str "A.run"), ("name", .str name)]

/-- Writing two points can stop with one of them written. -/
theorem Vectorizing.writing_stops (s : VectorStore) : ∃ t, (VectorIndex.writeRecords 0 0 .methods (.str "methods")
    [method "run", method "walk"]).Arrives (twice.around .paired) s (.error .cancelled) t := by
  obtain ⟨m, seen⟩ := twice.sees .paired s
  have grouped : groupsBy (m.index 0).batchSize [method "run", method "walk"] = .ok [[method "run", method "walk"]] := by
    rw [show (m.index 0).batchSize = .int 2 from seen.2.1]
    simp [groupsBy, groupsOf, Value.toIndex, Bind.bind, Except.bind]
  obtain ⟨texts, read⟩ : ∃ texts, [method "run", method "walk"].mapM (entityText .methods) = .ok texts := ⟨_, rfl⟩
  obtain ⟨vectors, s₁, encodes⟩ := (encodeBatch_does (v := twice) (x := .paired) texts).way s rfl
  obtain ⟨points, made⟩ : ∃ points, (([method "run", method "walk"].zip vectors).mapM fun (record, vector) =>
      pointOf .methods record vector) = .ok points := by
    cases read
    obtain ⟨rfl, _⟩ := (encodeBatch_does _).whole encodes
    exact ⟨_, rfl⟩
  obtain ⟨_, s₂, opens⟩ := (openClient_does (v := twice) (x := .paired)).way s₁ rfl
  refine ⟨s₂.writeAll ((points.take 1).map (.put (.str "methods"))), ?_⟩
  refine Arrives.seq (p := ofExcept _) ⟨rfl, rfl⟩ ⟨m, seen, Arrives.seq (p := ofExcept _) ⟨grouped.symm, rfl⟩ ?_⟩
  refine Arrives.seq (p := ofExcept _) ⟨read.symm, rfl⟩ (encodes.seq (Arrives.seq (p := ofExcept _) ⟨made.symm, rfl⟩ (opens.seq ?_)))
  exact Arrives.stop _ ⟨.error .cancelled, _, ⟨points.take 1, List.take_prefix .., rfl⟩, rfl, rfl⟩

/-- An attempt can stop with one of two points written. -/
theorem Vectorizing.twice_stops : ∃ t, twice.Attempt .paired ⟨[], fun _ _ => none⟩ (.error .cancelled) t := by
  obtain ⟨m, seen⟩ := twice.sees .paired ⟨[], fun _ _ => none⟩
  obtain ⟨_, s₁, first⟩ := (ensureCollection_does (v := twice) (x := .paired) (.str "methods")).way ⟨[], fun _ _ => none⟩ rfl
  obtain ⟨_, s₂, second⟩ := (ensureCollection_does (v := twice) (x := .paired) (.str "classes")).way s₁ rfl
  have known : twice.records .describedMethods = some [method "run", method "walk"] := rfl
  obtain ⟨records, s₃, reads⟩ := (run_does (v := twice) (x := .paired) .describedMethods).way s₂ (congrArg _ known)
  cases known.symm.trans ((run_does _).whole reads).1
  obtain ⟨t, stops⟩ := writing_stops s₃
  refine ⟨t, Arrives.seq ⟨.ok (0.0 : Float), _, rfl, rfl, rfl⟩ ⟨m, seen, ?_⟩⟩
  beta_reduce
  rw [seen.1]
  exact first.seq (second.seq (reads.seq (stops.stop _)))

/-- However an attempt stops, a complete one later leaves what it leaves alone. -/
theorem Vectorizing.twice_repeatable : twice.Repeatable ∧ twice.plan.isSome ∧
    ∃ t, twice.Attempt .paired ⟨[], fun _ _ => none⟩ (.error .cancelled) t :=
  ⟨vectorize_repeatable twice ⟨_, rfl⟩ ⟨_, rfl⟩, rfl, twice_stops⟩

end Example

end CodeAtlas
