import CodeAtlas.Proofs.Storage.Work

namespace CodeAtlas

open Routine Crew

/-- No index and no coordinator was made yet. -/
structure Memory.Unbuilt (m : Memory) : Prop where
  indexes : m.indexes = []
  coordinators : m.coordinators = []

/-- The storage of the deployment that serves real queries. -/
abbrev Charter.served : Charter := .storage (Deployment.names .prod)

namespace Memory.Unbuilt

variable {m m' : Memory}

theorem unkept (unbuilt : m.Unbuilt) : ¬Charter.served.keeps m := by
  rintro ⟨has, _⟩
  rw [Memory.index, part, unbuilt.indexes] at has
  rcases has with same | same <;> cases same

theorem same (unbuilt : m.Unbuilt) (indexes : m'.indexes = m.indexes) (coordinators : m'.coordinators = m.coordinators) :
    m'.Unbuilt := ⟨indexes.trans unbuilt.indexes, coordinators.trans unbuilt.coordinators⟩

end Memory.Unbuilt

section Alone

variable {ω : Type} {w : World ω} {m : Memory} {c : Crew ω} {α : Type}

/-- What changes neither indexes nor coordinators. -/
theorem early_change {f : Memory → Memory} (indexes : ∀ m, (f m).indexes = m.indexes)
    (coordinators : ∀ m, (f m).coordinators = m.coordinators) : (change f).Minds (Charter.served.early Memory.Unbuilt) := by
  refine .change fun m unbuilt => ?_
  have unbuilt' := unbuilt.same (indexes m) (coordinators m)
  exact ⟨unbuilt'.unkept, unbuilt'⟩

/-- A part is added by a caller who is alone. -/
theorem add_alone {parts : Memory → List α} {put : List α → Memory → Memory} {new : α} {seen : Memory → Prop}
    {seen' : Nat → Memory → Prop} (lone : c.Lone .served seen)
    (goesOn : ∀ m, seen m → ¬Charter.served.keeps (put (parts m ++ [new]) m) ∧ seen' (parts m).length (put (parts m ++ [new]) m)) :
    (Facade.add parts put new).Keeps w (charter ω .served m) (.caller 0)
      (Routine.Ends (fun n c' => c'.Lone .served (seen' n)) (Chartered .served)) c := by
  have exact_ : c.Lone .served (· = c.memory) := ⟨lone.unfounded, lone.chartered, rfl⟩
  have changes : (Routine.change (put (parts c.memory ++ [new]))).Keeps w (charter ω .served m) (.caller 0)
      (fun _ c' => c'.Lone .served (seen' (parts c.memory).length)) c := by
    refine exact_.change ?_
    rintro _ rfl
    exact goesOn _ lone.seen
  exact changes.bind (fun _ _ lone => lone) fun _ _ lone => lone.chartered

theorem lone_ends {p : Routine α} {seen : Memory → Prop} (minds : p.Minds (Charter.served.early seen)) (lone : c.Lone .served seen) :
    p.Keeps w (charter ω .served m) (.caller 0) (Routine.Ends (fun _ c' => c'.Lone .served seen) (Chartered .served)) c := by
  refine (minds.lone lone).imp fun result c' lone => ?_
  cases result with
  | ok => exact lone
  | error => exact lone.chartered

/-- A graph client that was made selects the graph that its settings name. -/
theorem connectGraph_alone {settings : GraphSettings} (named : settings.graphName = .str "astkg_dev")
    (lone : c.Lone .served Memory.Unbuilt) : (Facade.connectGraph settings).Keeps w (charter ω .served m) (.caller 0)
      (Routine.Ends (fun _ c' => c'.Lone .served Memory.Unbuilt) (Chartered .served)) c := by
  let seen : Nat → Memory → Prop := fun graph m => m.Unbuilt ∧ (m.graph graph).settings.graphName = .str "astkg_dev"
  have adds : (Facade.add (·.graphs) (fun gs m => { m with graphs := gs }) { settings, connected := false }).Keeps w
      (charter ω .served m) (.caller 0) (Routine.Ends (fun n c' => c'.Lone .served (seen n)) (Chartered .served)) c :=
    add_alone lone fun m unbuilt => by
      have unbuilt' : ({ m with graphs := m.graphs ++ [⟨settings, false⟩] } : Memory).Unbuilt := unbuilt.same rfl rfl
      refine ⟨unbuilt'.unkept, unbuilt', ?_⟩
      simpa [Memory.graph, part] using named
  refine adds.bind (fun graph c' lone => ?_) fun _ _ after => after
  have changes : ∀ f : Memory → Memory, (∀ m, (f m).indexes = m.indexes) → (∀ m, (f m).coordinators = m.coordinators) →
      (∀ m, ((f m).graph graph).settings = (m.graph graph).settings) → (change f).Minds (Charter.served.early (seen graph)) := by
    intro f indexes coordinators graphs
    refine .change fun m holds => ?_
    have unbuilt := holds.1.same (indexes m) (coordinators m)
    exact ⟨unbuilt.unkept, unbuilt, graphs m ▸ holds.2⟩
  have connects : (GraphClient.connect graph).Minds (Charter.served.early (seen graph)) := by
    refine Minds.look fun m holds => .ite (fun _ => .pure _) fun _ => ?_
    refine Minds.bind (.query trivial) fun _ => Minds.bind (.query holds.2) fun _ => ?_
    exact changes _ (fun _ => rfl) (fun _ => rfl) fun m => part_modify_same (p := GraphClient.settings) fun _ => rfl
  have rest : (do
      Facade.note fun f => { f with graph := some graph }
      GraphClient.connect graph
      return graph : Routine Nat).Minds (Charter.served.early (seen graph)) :=
    Minds.bind (changes _ (fun _ => rfl) (fun _ => rfl) fun _ => rfl) fun _ => connects.bind fun _ => .pure _
  refine (lone_ends rest lone).imp fun result c' after => ?_
  cases result with
  | ok => exact ⟨after.unfounded, after.chartered, after.seen.1⟩
  | error => exact after

theorem takeEmbedding_alone (env : Environment) (settings : EmbeddingSettings) :
    (Facade.takeEmbedding env settings).Minds (Charter.served.early Memory.Unbuilt) := by
  have creates : ∀ options, (EmbeddingService.create env options).Minds (Charter.served.early Memory.Unbuilt) := by
    intro options
    refine Minds.bind (.query trivial) fun accelerated => (Minds.ofExcept _).bind fun service => ?_
    exact (Minds.view _).bind fun n => Minds.bind (early_change (fun _ => rfl) fun _ => rfl) fun _ => .pure _
  refine (Minds.ofExcept _).bind fun options => Minds.bind ?_ fun embedding => ?_
  · refine (Minds.view _).bind fun shared => ?_
    cases shared with
    | some n => exact .pure _
    | none => exact (creates options).bind fun n => Minds.bind (early_change (fun _ => rfl) fun _ => rfl) fun _ => .pure _
  · exact Minds.bind (early_change (fun _ => rfl) fun _ => rfl) fun _ => .pure _

theorem newCompletion_alone (settings : CompletionSettings) :
    (Facade.newCompletion settings).Minds (Charter.served.early Memory.Unbuilt) := by
  refine Minds.bind ?_ fun completion => Minds.bind (early_change (fun _ => rfl) fun _ => rfl) fun _ => .pure _
  exact (Minds.view _).bind fun _ => Minds.bind (early_change (fun _ => rfl) fun _ => rfl) fun _ => .pure _

theorem newRegistry_alone (graph : Nat) : (Facade.newRegistry graph).Minds (Charter.served.early Memory.Unbuilt) := by
  refine Minds.bind ?_ fun registry => early_change (fun _ => rfl) fun _ => rfl
  exact (Minds.view _).bind fun _ => Minds.bind (early_change (fun _ => rfl) fun _ => rfl) fun _ => .pure _

/-- The first index has the names of its settings. -/
theorem newIndex_founds {settings : VectorSettings} (classes : (Deployment.names .prod).Has settings.classCollection)
    (methods : (Deployment.names .prod).Has settings.methodCollection) (batchSize : Value)
    (lone : c.Lone .served Memory.Unbuilt) : (Facade.newIndex settings batchSize).Keeps w (charter ω .served m) (.caller 0)
      (Routine.Ends (fun index c' => index = 0 ∧ c'.Holds .served) (Chartered .served)) c := by
  refine keeps_lift_bind (fun _ => ?_) fun _ => lone.chartered
  have exact_ : c.Lone .served fun m => m = c.memory ∧ m.Unbuilt := ⟨lone.unfounded, lone.chartered, rfl, lone.seen⟩
  have founds := exact_.found (w := w) (m := m)
    (f := fun m => { m with indexes := c.memory.indexes ++ [{ settings, batchSize, isOpen := false }] }) fun m seen => by
      obtain ⟨rfl, unbuilt⟩ := seen
      refine ⟨?_, ?_, fun n p stages => ?_⟩
      · simpa [Memory.index, part, unbuilt.indexes] using classes
      · simpa [Memory.index, part, unbuilt.indexes] using methods
      · rw [Memory.coordinator, part, unbuilt.coordinators] at stages
        cases stages
        rfl
  have adds : (Facade.add (·.indexes) (fun is m => { m with indexes := is }) { settings, batchSize, isOpen := false }).Keeps w
      (charter ω .served m) (.caller 0) (Routine.Ends (fun index c' => index = 0 ∧ c'.Holds .served) (Chartered .served)) c := by
    refine founds.bind (fun _ _ holds => ⟨?_, holds⟩) fun _ _ holds => holds.chartered
    simp [lone.seen.indexes]
  refine adds.bind (fun index c' after => ?_) fun _ _ after => after
  obtain ⟨rfl, holds⟩ := after
  have minds : (Facade.note fun f => { f with index := some 0 }).Minds Charter.served.remit := Facade.note_storage _
  have notes := minds.held (w := w)
    (m := m) (k := .caller 0) holds
  exact notes.bind (fun _ _ holds => ⟨rfl, holds⟩) fun _ _ holds => holds.chartered

/-- What is made to connect takes its names from the settings of the facade. -/
theorem connect_founds (env : Environment) {s : Settings} (unnamed : s.Unnamed)
    (lone : c.Lone .served fun m => m.Unbuilt ∧ m.facade.settings = s ∧ m.facade.connected = false) :
    (Facade.connect env).Keeps w (charter ω .served m) (.caller 0) (Routine.Ends (fun _ c' => c'.Holds .served) (Chartered .served)) c := by
  unfold Facade.connect
  obtain ⟨unbuilt, settings, apart⟩ := lone.seen
  have alone : c.Lone .served Memory.Unbuilt := ⟨lone.unfounded, lone.chartered, unbuilt⟩
  rw [keeps_view_bind, settings, apart]
  refine (connectGraph_alone unnamed.graph alone).bind (fun graph c lone => ?_) fun _ _ after => after
  refine (lone_ends (takeEmbedding_alone env _) lone).bind (fun embedding c lone => ?_) fun _ _ after => after
  refine (lone_ends (newCompletion_alone _) lone).bind (fun completion c lone => ?_) fun _ _ after => after
  refine (lone_ends (newRegistry_alone graph) lone).bind (fun _ c lone => ?_) fun _ _ after => after
  have classes : (Deployment.names .prod).Has s.vectors.classCollection := .inl unnamed.classes
  have methods : (Deployment.names .prod).Has s.vectors.methodCollection := .inr unnamed.methods
  refine (newIndex_founds classes methods _ lone).bind (fun index c holds => ?_) fun _ _ after => after
  obtain ⟨rfl, holds⟩ := holds
  have rest : (do
      let pipeline ← Facade.newPipeline s.ingestion graph 0 embedding completion
      Facade.newCoordinator s.ingestion pipeline
      Facade.note fun f => { f with funnel := some s.funnel, connected := true } : Routine Unit).Minds Charter.served.remit := by
    refine Minds.compute fun pipeline made => ?_
    exact (Facade.newCoordinator_storage _ (Facade.newPipeline_index made)).bind fun _ => Facade.note_storage _
  refine (rest.held holds).imp fun result c' holds => ?_
  cases result with
  | ok => exact holds
  | error => exact holds.chartered

/-- Whatever is done with the facade once it is connected, and closed after it. -/
theorem withGraph_founds (env : Environment) {s : Settings} (unnamed : s.Unnamed) {body : Routine α}
    (works : body.Minds Charter.served.remit) (lone : c.Lone .served (· = default)) :
    (Command.withGraph env s body).Keeps w (charter ω .served m) (.caller 0) (fun _ c' => c'.Chartered .served) c := by
  have notes : (Facade.note fun f => { f with settings := s }).Keeps w (charter ω .served m) (.caller 0)
      (fun _ c' => c'.Lone .served fun m => m.Unbuilt ∧ m.facade.settings = s ∧ m.facade.connected = false) c := by
    refine lone.change ?_
    rintro _ rfl
    have unbuilt : ((default : Memory).onFacade fun f => { f with settings := s }).Unbuilt := ⟨rfl, rfl⟩
    exact ⟨unbuilt.unkept, unbuilt, rfl, rfl⟩
  refine notes.bind (fun _ c lone => ?_) fun _ _ lone => lone.chartered
  refine (connect_founds env unnamed lone).bind (fun _ c holds => ?_) fun _ _ after => after
  exact ((works.ensuring Facade.close_storage).held holds).imp fun _ _ holds => holds.chartered

end Alone

namespace Command

variable {ω : Type} {w : World ω} {m : Memory} {c : Crew ω} {env : Environment} {config : Option String}

/-- The file that a command names says nothing of the graph and the collections, whenever it is read. -/
def Quiet (w : World ω) (config : Option String) : Prop :=
  ∀ path, config = some path → ∀ time world content,
    (w.answer (.contentAt path) time world).reply = .ok content → content.Silent (Path.normal path)

theorem settings_alone (silent : env.Silent) (quiet : Quiet w config) (lone : c.Lone .served (· = default)) :
    (settings env config).Keeps w (charter ω .served m) (.caller 0)
      (Routine.Ends (fun s c' => s.Unnamed ∧ c'.Lone .served (· = default)) (Chartered .served)) c := by
  have plain : (ofExcept (Settings.ofEnvironment env)).Keeps w (charter ω .served m) (.caller 0)
      (Routine.Ends (fun s c' => s.Unnamed ∧ c'.Lone .served (· = default)) (Chartered .served)) c := by
    cases made : Settings.ofEnvironment env with
    | ok s => exact ⟨Settings.ofEnvironment_unnamed silent made, lone⟩
    | error => exact lone.chartered
  unfold settings
  split
  · exact plain
  · exact plain
  next path _ =>
    have reads : (query (.contentAt path)).Keeps w (charter ω .served m) (.caller 0) (fun reply c' =>
        ((∃ time world, reply = (w.answer (.contentAt path) time world).reply) ∨ reply = .error .cancelled) ∧
          c'.Lone .served (· = default)) c := lone.query trivial
    refine reads.bind (fun content c' heard => ?_) fun _ _ heard => heard.2.chartered
    obtain ⟨heard, lone'⟩ := heard
    have given : content.Silent (Path.normal path) := by
      rcases heard with ⟨time, world, same⟩ | cancelled
      · exact quiet path rfl time world content same.symm
      · cases cancelled
    cases content with
    | missing =>
      dsimp only
      cases made : Settings.ofEnvironment env with
      | ok s => exact ⟨Settings.ofEnvironment_unnamed silent made, lone'⟩
      | error => exact lone'.chartered
    | directory => exact lone'.chartered
    | bytes content =>
      dsimp only
      cases made : Settings.ofDocument env (Path.normal path) content with
      | ok s => exact ⟨Settings.ofDocument_unnamed silent given made, lone'⟩
      | error => exact lone'.chartered

theorem ingest_chartered (silent : env.Silent) (quiet : Quiet w config) (lone : c.Lone .served (· = default)) :
    (ingest env config).Keeps w (charter ω .served m) (.caller 0) (fun _ c' => c'.Chartered .served) c := by
  refine Keeps.rescue ?_ fun _ _ after => after
  refine (settings_alone silent quiet lone).seq fun s c settled => ?_
  have works : (withGraph env s Facade.runIngestion).Keeps w (charter ω .served m) (.caller 0) (fun _ c' => c'.Chartered .served) c :=
    withGraph_founds env settled.1 ((Charter.storage_carries _).runIngestion (Charter.storage_reads _)) settled.2
  exact works.bind (fun _ _ after => after) fun _ _ after => after

theorem schedule_chartered (silent : env.Silent) (quiet : Quiet w config) (lone : c.Lone .served (· = default)) :
    (schedule env config).Keeps w (charter ω .served m) (.caller 0) (fun _ c' => c'.Chartered .served) c := by
  have carries := Charter.storage_carries (Deployment.names .prod)
  have starts : Facade.startScheduler.Minds Charter.served.remit :=
    Facade.required_minds.bind fun _ => carries.startScheduler _
  have body : (do
      let _ ← Facade.startScheduler
      let _ ← Facade.runIngestion
      idle : Routine Unit).Minds Charter.served.remit := by
    refine starts.bind fun _ => (carries.runIngestion (Charter.storage_reads _)).bind fun _ => ?_
    exact Minds.bind (.query trivial) fun _ => .fail _
  refine (settings_alone silent quiet lone).andThen fun result c settled => ?_
  cases result with
  | error => exact settled
  | ok s =>
    have unnamed : Settings.Unnamed { s with ingestion := { s.ingestion with scheduled := .bool true } } :=
      ⟨settled.1.graph, settled.1.classes, settled.1.methods⟩
    refine (withGraph_founds env unnamed body settled.2).andThen fun result c after => ?_
    split <;> exact after

end Command

/-- An ingestion that a command starts works on storage that the deployment in force has no say in, as long as
neither a variable nor a file names it: on one graph, and on the collections of the deployment that serves real
queries. -/
theorem Command.storage_shared {ω : Type} {w : World ω} {env : Environment} {config : Option String} {world : ω} {hasLoop : Bool}
    {command : Routine Ending} {ends : Except Fault Ending → Except Fault Yield} {a : Shift ω} (silent : env.Silent)
    (quiet : Quiet w config) (ingests : command = ingest env config ∨ command = schedule env config)
    (leads : Shift.Leads w (.solo (command.andThen fun result => .done (ends result)) default world hasLoop) a) :
    (∀ time k name, (time, k, .asks (.selectGraph name)) ∈ a.crew.log → name = .str "astkg_dev" ∧
      ∀ d : Deployment, name ≠ d.names.graph) ∧
    (∀ time k collection size, (time, k, .asks (.createCollection collection size)) ∈ a.crew.log →
      (Deployment.names .prod).Has collection) ∧
    ∀ time k collection points, (time, k, .asks (.upsert collection points)) ∈ a.crew.log →
      (Deployment.names .prod).Has collection := by
  have founds : ∀ c : Crew ω, c.Lone .served (· = default) → (command.andThen fun result => .done (ends result)).Keeps w
      (charter ω .served default) (.caller 0) (fun _ c' => c'.Chartered .served) c := by
    intro c lone
    rcases ingests with rfl | rfl
    · exact (ingest_chartered silent quiet lone).andThen fun _ _ after => after
    · exact (schedule_chartered silent quiet lone).andThen fun _ _ after => after
  have chartered := leads.chartered (fun _ => rfl) (Charter.storage_carries _).job founds
  refine ⟨fun time k name noted => ?_, fun time k collection size noted => ?_, fun time k collection points noted => ?_⟩
  · have named : name = .str "astkg_dev" := chartered.asked _ noted
    refine ⟨named, fun d same => ?_⟩
    cases d <;> simp [named, Deployment.names] at same
  · exact chartered.asked _ noted
  · exact chartered.asked _ noted

theorem Crew.mem_exchange {ω : Type} (k : Who) (question : Ask) (r : Reaction ω question) (c : Crew ω) :
    (c.clock, k, .asks question) ∈ (c.exchange k question r).log :=
  List.mem_append_left _ (List.mem_append_right _ (List.mem_singleton_self _))

/-- Surroundings in which a graph can be connected to, and nothing else is to be had. -/
def World.bare : World Unit where
  answer
    | .openGraph .., _, _ | .selectGraph _, _, _ => ⟨(), 0, .ok ()⟩
    | _, _, _ => ⟨(), 0, .error .cancelled⟩

/-- Variables that choose the deployment for tests. -/
def Environment.testing : Environment := ⟨[("ASTKG_ENV", "test")]⟩

/-- The graph of neither deployment is selected where tests are asked for. -/
theorem Command.storage_testing : ∃ ends : Except Fault Ending → Except Fault Yield, ∃ a : Shift Unit,
    Shift.Leads World.bare (.solo ((ingest .testing none).andThen fun result => .done (ends result)) default () false) a ∧
    ∃ time k name, (time, k, .asks (.selectGraph name)) ∈ a.crew.log ∧ Deployment.current .testing .prod = .test ∧
      name ≠ (Deployment.names .test).graph := by
  have loads : (Settings.ofEnvironment .testing).toOption.isSome = true := by decide +kernel
  obtain ⟨s, made⟩ : ∃ s, Settings.ofEnvironment .testing = .ok s := by
    cases made : Settings.ofEnvironment .testing with
    | ok s => exact ⟨s, rfl⟩
    | error => simp [made, Except.toOption] at loads
  have soon : ¬(0 : Float) < 0 := by decide
  let ends : Except Fault Ending → Except Fault Yield := fun _ => .ok .nothing
  have ingests : ingest .testing none = reporting "Ingestion could not start" (do
      let status ← withGraph .testing s Facade.runIngestion
      return ingestEnding status) := by
    simp only [ingest, settings, made]
    rfl
  have r : Shift.Leads World.bare (.solo ((ingest .testing none).andThen fun result => .done (ends result)) default () false) _ := .refl
  rw [ingests] at r
  have r := (r.tail .look).tail .store
  have r := r.tail .look
  have r := ((r.tail .look).tail .look).tail .store
  have r := (r.tail .look).tail .store
  have r := r.tail .look
  have r := r.tail (.exchange soon)
  have r := r.tail (.exchange soon)
  rw [← ingests] at r
  have all := storage_shared ⟨by decide, by decide, by decide⟩ nofun (.inl rfl) r
  exact ⟨ends, _, r, _, _, _, Crew.mem_exchange .., by decide +kernel, (all.1 _ _ _ (Crew.mem_exchange ..)).2 .test⟩

end CodeAtlas
