import CodeAtlas.Proofs.Settings.Usable
import CodeAtlas.Proofs.Turns.Regime

namespace CodeAtlas

open Routine

/-- A graph server can be opened and has every graph, and it can be said whether there is an accelerator. -/
def Ask.Opens : (question : Ask) → Except Fault question.Reply → Prop
  | .openGraph .., reply => reply = .ok ()
  | .selectGraph _, reply => reply = .ok ()
  | .hasAccelerator, reply => ∃ accelerated : Bool, reply = .ok accelerated
  | _, _ => True

/-- The facade is not connected yet, and there may be an embedding service that all share. -/
structure Memory.Unconnected (shared : Bool) (m : Memory) : Prop where
  apart : m.facade.connected = false
  shared : m.shared.isSome = shared

/-- The facade is not connected yet, and a graph client is. -/
structure Memory.Reaching (graph : Nat) (m : Memory) : Prop where
  apart : m.facade.connected = false
  client : (m.graph graph).connected = true

/-- A connected facade with its coordinator, its registry, and the client of the graph that this one reads. -/
structure Memory.Standing (n r g : Nat) (m : Memory) : Prop where
  connected : m.facade.connected = true
  coordinator : m.facade.coordinator = some n
  registry : m.facade.registry = some r
  link : (m.registry r).graph = some g
  client : (m.graph g).connected = true

variable {m : Memory} {shared : Bool} {graph : Nat}

theorem Memory.Reaching.same {m' : Memory} (reaching : m.Reaching graph) (facade : m'.facade.connected = m.facade.connected)
    (graphs : m'.graphs = m.graphs) : m'.Reaching graph := by
  refine ⟨facade.trans reaching.apart, ?_⟩
  rw [Memory.graph, graphs]
  exact reaching.client

namespace Facade

/-- A part is added, and gets the next number. -/
theorem add_comes {α β : Type} {parts : Memory → List α} {put : List α → Memory → Memory} {new : α} (stays : Nat → Memory → Prop)
    {next : Nat → Routine β} {post : Except Fault β → Memory → Prop} (kept : stays (parts m).length (put (parts m ++ [new]) m))
    (rest : ∀ n m', stays n m' → (next n).Comes (.alone Ask.Opens) m' post) :
    (add parts put new >>= next).Comes (.alone Ask.Opens) m post :=
  comes_look (comes_look (rest _ _ kept))

theorem connect_comes {n : Nat} (apart : m.Unconnected shared) (present : n < m.graphs.length) :
    (GraphClient.connect n).Comes (.alone Ask.Opens) m fun r m' => r = .ok () ∧ m'.Unconnected shared ∧ m'.Reaching n := by
  refine comes_view_bind ?_
  split
  next connected => exact comes_done ⟨rfl, apart, apart.apart, connected⟩
  next =>
    refine comes_query_bind ⟨.ok (), rfl⟩ (fun _ _ => ?_) nofun
    refine comes_query_bind ⟨.ok (), rfl⟩ (fun _ _ => ?_) nofun
    exact comes_change ⟨rfl, ⟨apart.apart, apart.shared⟩, apart.apart, by simp [Memory.graph, Memory.onGraph, part, present]⟩

theorem connectGraph_comes (settings : GraphSettings) (apart : m.Unconnected shared) :
    (connectGraph settings).Comes (.alone Ask.Opens) m fun r m' => ∃ n, r = .ok n ∧ m'.Unconnected shared ∧ m'.Reaching n := by
  refine add_comes (fun n m' => n < m'.graphs.length ∧ m'.Unconnected shared) ⟨by simp, apart.apart, apart.shared⟩ fun n m added => ?_
  have noted : (m.onFacade fun f => { f with graph := some n }).Unconnected shared := ⟨added.2.apart, added.2.shared⟩
  refine comes_change_bind (Comes.bind (connect_comes noted added.1) ?_ (by simp))
  exact fun _ _ connected => comes_done ⟨n, rfl, connected.2⟩

/-- A new embedding service is had unless it cannot read how many texts it is to take at a time. -/
theorem create_comes {env : Environment} (unset : env.get? "EMBEDDING_BATCH_SIZE" = none) (o : EmbeddingOptions)
    (reaching : m.Reaching graph) : (EmbeddingService.create env o).Comes (.alone Ask.Opens) m fun r m' =>
      ((∃ n, r = .ok n) ↔ ∃ n, readInt o.batchSize.display = .ok n) ∧ m'.Reaching graph := by
  refine comes_query_bind ⟨.ok false, false, rfl⟩ (fun accelerated _ => ?_) ?_
  · rw [← EmbeddingService.configure_ok_iff unset accelerated o]
    refine comes_compute (fun service made => ?_) fun fault made => ⟨by simp [made], reaching⟩
    exact comes_view_bind (comes_change_bind (comes_done ⟨by simp [made], reaching.same rfl rfl⟩))
  · rintro _ ⟨_, ⟨⟩⟩

theorem takeEmbedding_comes {env : Environment} (unset : env.get? "EMBEDDING_BATCH_SIZE" = none) (settings : EmbeddingSettings)
    (apart : m.Unconnected shared) (reaching : m.Reaching graph) : (takeEmbedding env settings).Comes (.alone Ask.Opens) m fun r m' =>
      ((∃ n, r = .ok n) ↔ (shared = false → ∃ n, readInt settings.batchSize.display = .ok n)) ∧ m'.Reaching graph := by
  let options : EmbeddingOptions := ⟨settings.modelName, settings.device, settings.batchSize, .bool true,
    .str "query: ", .str "passage: "⟩
  have made : embeddingOptions.build env [(.str "model_name", settings.modelName), (.str "device", settings.device),
      (.str "batch_size", settings.batchSize)] = .ok options := rfl
  have shares : (EmbeddingService.sharedService env options).Comes (.alone Ask.Opens) m fun r m' =>
      ((∃ n, r = .ok n) ↔ (shared = false → ∃ n, readInt settings.batchSize.display = .ok n)) ∧ m'.Reaching graph := by
    refine comes_view_bind ?_
    cases present : m.shared with
    | some n =>
      have there : shared = true := by rw [← apart.shared, present]; rfl
      exact comes_done ⟨by simp [there], reaching⟩
    | none =>
      have absent : shared = false := by rw [← apart.shared, present]; rfl
      refine (create_comes unset options reaching).bind (fun n m holds => ?_) fun _ _ holds => ⟨?_, holds.2⟩
      · exact comes_change_bind (comes_done ⟨by simpa [absent] using holds.1, holds.2.same rfl rfl⟩)
      · simpa [absent] using holds.1
  unfold takeEmbedding
  rw [made]
  refine shares.bind (fun n m holds => ?_) fun _ _ holds => ⟨?_, holds.2⟩
  · exact comes_change_bind (comes_done ⟨by simpa using holds.1, holds.2.same rfl rfl⟩)
  · simpa using holds.1

/-- How a facade that is not connected comes out of it. -/
def Connects (usable : Prop) (r : Except Fault Unit) (m : Memory) : Prop :=
  (usable ∧ r = .ok () ∧ ∃ n r g, m.Standing n r g) ∨ (¬usable ∧ (∃ fault, r = .error fault) ∧ m.facade.connected = false)

end Facade

/-- A registry of a graph was made, while the facade is not connected yet. -/
structure Memory.Registered (r g : Nat) (m : Memory) : Prop extends m.Reaching g where
  registry : m.facade.registry = some r
  link : (m.registry r).graph = some g

theorem Memory.Registered.same {m' : Memory} {r g : Nat} (registered : m.Registered r g)
    (connected : m'.facade.connected = m.facade.connected) (graphs : m'.graphs = m.graphs)
    (registry : m'.facade.registry = m.facade.registry) (registries : m'.registries = m.registries) : m'.Registered r g := by
  refine ⟨registered.toReaching.same connected graphs, registry.trans registered.registry, ?_⟩
  rw [Memory.registry, registries]
  exact registered.link

/-- Settings that were accepted connect, as far as a graph server can be reached, just when they are usable. -/
theorem connect_iff_usable {env : Environment} {data : Value} {s : Settings} (accepted : Settings.ofData env data = .ok s)
    (unset : env.get? "EMBEDDING_BATCH_SIZE" = none) (apart : m.Unconnected shared) (settings : m.facade.settings = s) :
    (Facade.connect env).Comes (.alone Ask.Opens) m (Facade.Connects (s.Usable shared)) := by
  have counted := IngestionSettings.counted (Settings.ofData_checked accepted)
  have sized : atLeastOne "batch_size" s.ingestion.batchSize = .ok () := atLeastOne_eq_ok.mpr counted.batchSize
  unfold Facade.connect
  refine comes_view_bind ?_
  rw [settings, apart.apart]
  refine (Facade.connectGraph_comes s.graph apart).bind ?_ (by simp)
  rintro graph m ⟨_, ⟨⟩, apart, reaching⟩
  refine (Facade.takeEmbedding_comes unset s.embedding apart reaching).bind (fun embedding m holds => ?_) fun fault m holds => ?_
  · obtain ⟨batch, reaching⟩ := holds
    have batch := batch.mp ⟨_, rfl⟩
    have completes : (Facade.newCompletion s.completion).Comes (.alone Ask.Opens) m fun r m' => (∃ n, r = .ok n) ∧ m'.Reaching graph :=
      Facade.add_comes (fun _ m => m.Reaching graph) (reaching.same rfl rfl) fun n _ reaching =>
        comes_change_bind (comes_done ⟨⟨n, rfl⟩, reaching.same rfl rfl⟩)
    refine completes.bind (fun completion m made => ?_) (by simp)
    have registers : (Facade.newRegistry graph).Comes (.alone Ask.Opens) m fun r m' => r = .ok () ∧ ∃ n, m'.Registered n graph :=
      Facade.add_comes (fun n m => m.Reaching graph ∧ (m.registry n).graph = some graph)
        ⟨made.2.same rfl rfl, by simp [Memory.registry, part]⟩ fun n _ made =>
          comes_change ⟨rfl, n, made.1.same rfl rfl, rfl, made.2⟩
    refine registers.bind ?_ (by simp)
    rintro _ m ⟨_, registry, registered⟩
    have indexes : (Facade.newIndex s.vectors s.ingestion.batchSize).Comes (.alone Ask.Opens) m fun r m' =>
        (∃ n, r = .ok n) ∧ m'.Registered registry graph := by
      refine comes_compute (fun _ _ => ?_) fun fault refused => by cases sized.symm.trans refused
      exact Facade.add_comes (fun _ m => m.Registered registry graph) (registered.same rfl rfl rfl rfl) fun n _ registered =>
        comes_change_bind (comes_done ⟨⟨n, rfl⟩, registered.same rfl rfl rfl rfl⟩)
    refine indexes.bind (fun index m made => ?_) (by simp)
    have pipelines := Facade.newPipeline_ok_iff counted graph index embedding completion
    refine comes_compute (fun pipeline given => ?_) fun fault refused => ?_
    · obtain ⟨polls, root⟩ := pipelines.mp ⟨pipeline, given⟩
      have coordinates : (Facade.newCoordinator s.ingestion pipeline).Comes (.alone Ask.Opens) m fun r m' =>
          r = .ok () ∧ m'.Registered registry graph ∧ ∃ n, m'.facade.coordinator = some n :=
        Facade.add_comes (fun _ m => m.Registered registry graph) (made.2.same rfl rfl rfl rfl) fun n _ registered =>
          comes_change ⟨rfl, registered.same rfl rfl rfl rfl, n, rfl⟩
      refine coordinates.bind ?_ (by simp)
      rintro _ m ⟨_, registered, coordinator, given⟩
      exact comes_change (.inl ⟨⟨polls, root, batch⟩, rfl, coordinator, registry, graph, rfl, given, registered.registry,
        registered.link, registered.client⟩)
    · refine .inr ⟨fun usable => ?_, ⟨fault, rfl⟩, made.2.apart⟩
      simpa [refused] using pipelines.mpr ⟨usable.pollInterval, usable.sourceRoot⟩
  · refine .inr ⟨fun usable => ?_, ⟨fault, rfl⟩, holds.2.apart⟩
    simpa using holds.1.mpr usable.batchSize

/-- A settings file whose time between polls is below zero. -/
def hasty : Value := .dict [(.str "ingestion", .dict [(.str "poll_interval_seconds", .int (-1))])]

/-- Whether the time between polls is below zero, where nothing else is unusable. -/
def Settings.hastyOnly? (s : Settings) : Option Bool :=
  if s.ingestion.sourceRoot.truthy || (readInt s.embedding.batchSize.display).toOption.isNone then none
  else (Value.compare .below s.ingestion.pollInterval (.int 0)).toOption

theorem Settings.usable_iff_of_hastyOnly? {s : Settings} {below : Bool} (only : s.hastyOnly? = some below) :
    s.Usable false ↔ below = false := by
  unfold hastyOnly? at only
  split at only
  · cases only
  next fine =>
    simp only [Bool.or_eq_true, not_or, Bool.not_eq_true] at fine
    cases compared : Value.compare .below s.ingestion.pollInterval (.int 0) with
    | error => simp [compared, Except.toOption] at only
    | ok b =>
      obtain rfl : b = below := by simpa [compared, Except.toOption] using only
      cases read : readInt s.embedding.batchSize.display with
      | error => simp [read, Except.toOption] at fine
      | ok n =>
        refine ⟨fun usable => Except.ok.inj (compared.symm.trans usable.pollInterval), fun above => ?_⟩
        exact ⟨above ▸ compared, by simp [fine.1], fun _ => ⟨n, read⟩⟩

/-- A facade with settings that is not connected. -/
def Memory.poised (s : Settings) : Memory := (default : Memory).onFacade fun f => { f with settings := s }

/-- The settings that nobody lays anything over connect; with a time between polls below zero they are accepted
and do not. -/
theorem hasty_accepted_refused :
    (∃ s, Settings.ofData ⟨[]⟩ (.dict []) = .ok s ∧ (Facade.connect ⟨[]⟩).Comes (.alone Ask.Opens) (.poised s) fun r m =>
      r = .ok () ∧ ∃ n r g, m.Standing n r g) ∧
    ∃ s, Settings.ofData ⟨[]⟩ hasty = .ok s ∧ (Facade.connect ⟨[]⟩).Comes (.alone Ask.Opens) (.poised s) fun r m =>
      (∃ fault, r = .error fault) ∧ m.facade.connected = false := by
  have made : ∀ data below, (Settings.ofData ⟨[]⟩ data).toOption.bind Settings.hastyOnly? = some below →
      ∃ s, Settings.ofData ⟨[]⟩ data = .ok s ∧ (s.Usable false ↔ below = false) := by
    intro data below only
    cases accepted : Settings.ofData ⟨[]⟩ data with
    | error => simp [accepted, Except.toOption] at only
    | ok s => exact ⟨s, rfl, Settings.usable_iff_of_hastyOnly? (by simpa [accepted, Except.toOption] using only)⟩
  obtain ⟨s, accepted, usable⟩ := made (.dict []) false (by decide +kernel)
  obtain ⟨t, accepted', usable'⟩ := made hasty true (by decide +kernel)
  have apart : ∀ s, (Memory.poised s).Unconnected false := fun _ => ⟨rfl, rfl⟩
  refine ⟨⟨s, accepted, ?_⟩, t, accepted', ?_⟩
  · refine (connect_iff_usable accepted rfl (apart s) rfl).imp fun r m connects => ?_
    rcases connects with ⟨_, whole⟩ | ⟨unusable, _⟩
    · exact whole
    · exact absurd (usable.mpr rfl) unusable
  · refine (connect_iff_usable accepted' rfl (apart t) rfl).imp fun r m connects => ?_
    rcases connects with ⟨whole, _⟩ | ⟨_, refused⟩
    · exact nomatch usable'.mp whole
    · exact refused

end CodeAtlas
