import CodeAtlas.Facade
import CodeAtlas.Proofs.Ingestion.Rounds

namespace CodeAtlas

open Routine

/-- What is asked in a run, apart from what names a graph or a collection. -/
def Ask.Mild : Ask → Prop
  | .selectGraph _ | .createCollection .. | .upsert .. => False
  | _ => True

/-- Whoever has this remit may do the work of a stage and look up what is needed. -/
structure Remit.Hosts (r : Remit) : Prop where
  asks : ∀ question : Ask, question.Mild → r.asks question
  aside : ∀ m m', m.Aside m' → r.writes m m'
  requests : ∀ request, Remit.beside.requests request → r.requests request

/-- Besides, it may replace a population. -/
structure Remit.Reads (r : Remit) : Prop extends r.Hosts where
  loads : ∀ m n classes methods, r.writes m (m.onRegistry n (Registry.load classes methods))

/-- Besides the work of a stage, it may run the stages of a coordinator, and start and stop its schedule. -/
structure Remit.Carries (r : Remit) : Prop extends r.Hosts where
  change : ∀ m n {f : Coordinator → Coordinator}, (∀ x, (f x).stages = x.stages) → r.writes m (m.onCoordinator n f)
  all : ∀ request, r.requests request
  vectorize : ∀ m n p, r.finds m → (m.coordinator n).stages = .pipeline p → (vectorize p.graph p.index p.embedding).Minds r

theorem Remit.beside_hosts : Remit.beside.Hosts where
  asks _ _ := trivial
  aside _ _ aside := aside.beside
  requests _ := id

namespace Remit.Hosts

variable {α : Type} {r : Remit} {asks : Ask → Prop} {p : Routine α}

theorem shared (hosts : r.Hosts) (minds : p.Minds (.shares asks)) (mild : ∀ question, asks question → question.Mild) :
    p.Minds r :=
  minds.mono (fun question allowed => hosts.asks question (mild question allowed)) hosts.aside
    fun request shares => hosts.requests request (Remit.beside_of_shares request shares)

theorem works (hosts : r.Hosts) (minds : p.Minds (.works asks)) (mild : ∀ question, asks question → question.Mild) :
    p.Minds r := hosts.shared minds.shares mild

theorem query (hosts : r.Hosts) {question : Ask} (mild : question.Mild) : (query question).Minds r :=
  .query (hosts.asks question mild)

theorem now (hosts : r.Hosts) : now.Minds r := .request (hosts.requests .now trivial)

theorem change (hosts : r.Hosts) {f : Memory → Memory} (aside : ∀ m : Memory, m.Aside (f m)) : (change f).Minds r :=
  .change fun m => hosts.aside m (f m) (aside m)

theorem send (hosts : r.Hosts) (graph : Nat) (statement : Statement) (parameters : Value) :
    (GraphClient.send graph statement parameters).Minds r :=
  have minds : (GraphClient.send graph statement parameters).Minds (.works Ask.Mild) := GraphClient.send_minds graph trivial
  hosts.works minds fun _ => id

theorem closeService (hosts : r.Hosts) (n : Nat) : (CompletionService.close n).Minds r := by
  refine (Minds.view _).bind fun service => .ite (fun _ => ?_) fun _ => .pure _
  exact Minds.bind (hosts.query trivial) fun _ => hosts.change fun _ => ⟨rfl, rfl, rfl, fun _ => rfl, rfl⟩

theorem closeIndex (hosts : r.Hosts) (n : Nat) : (VectorIndex.close n).Minds r := by
  refine (Minds.view _).bind fun index => .ite (fun _ => ?_) fun _ => .pure _
  refine Minds.bind (hosts.query trivial) fun _ => hosts.change fun m => ⟨rfl, rfl, rfl, fun i => ?_, rfl⟩
  exact m.settings_onIndex n i fun _ => rfl

theorem encodeQuery (hosts : r.Hosts) (n : Nat) (text : Value) : (EmbeddingService.encodeQuery n text).Minds r := by
  have loads : (EmbeddingService.load n).Minds (.works Ask.Mild) := EmbeddingService.load_minds n fun _ _ => trivial
  have loads := hosts.works loads fun _ => id
  refine (Minds.ofExcept _).bind fun _ => loads.bind fun _ => ?_
  exact (Minds.view _).bind fun service => hosts.query trivial

/-- The two searches of an analysis are parts of it. -/
theorem searchBoth (hosts : r.Hosts) (s : FunnelSettings) (sources : Sources) (vector : Value) :
    (searchBoth s sources vector).Minds r := by
  have parts : ∀ limit threshold, (request (.gather .unlimited
      [.search sources.search vector limit threshold .classes, .search sources.search vector limit threshold .methods])).Minds
      r := by
    intro limit threshold
    refine .request (hosts.requests _ fun job inside => ?_)
    simp only [List.mem_cons, List.not_mem_nil, or_false] at inside
    rcases inside with rfl | rfl <;> trivial
  refine (parts _ _).bind fun left => ?_
  split <;> exact .pure _

/-- An analysis does what is done to embed its query and to complete its prompt, and searches. -/
theorem analyzeEntities (hosts : r.Hosts) {sources : Sources} (s : FunnelSettings) (query : Value)
    (classes : sources.classes.Minds r) (methods : sources.methods.Minds r) (embeds : ∀ text, (sources.embed text).Minds r)
    (completes : ∀ prompt, (sources.complete prompt).Minds r) : (analyzeEntities s sources query).Minds r := by
  have asks : ∀ q classes methods, (selectByModel s sources q classes methods).Minds r := by
    intro q classes methods
    refine (Minds.ofExcept _).bind fun classText => (Minds.ofExcept _).bind fun methodText => ?_
    exact (completes _).bind fun answer => .ofExcept _
  refine Minds.rescue ((Minds.ofExcept _).bind fun blank => .ite (fun _ => .pure _) fun _ => ?_) fun _ => .pure _
  refine classes.bind fun classes => methods.bind fun methods => ?_
  refine .ite (fun _ => Minds.bind (Minds.rescue ?_ fun _ => .pure _) fun p => asks _ _ _) fun _ => asks _ _ _
  refine (embeds _).bind fun vector => (hosts.searchBoth s _ vector).bind fun found => ?_
  obtain ⟨classMatches, methodMatches⟩ := found
  exact .ofExcept _

end Remit.Hosts

theorem Remit.Reads.refresh {r : Remit} (reads : r.Reads) (registry : Nat) : (Registry.refresh registry).Minds r := by
  refine (Minds.view _).bind fun registered => ?_
  cases registered.graph with
  | none => exact .fail _
  | some graph =>
    refine (reads.send graph _ _).bind fun classes => (reads.send graph _ _).bind fun methods => ?_
    refine (Minds.ofExcept _).bind fun _ => (Minds.ofExcept _).bind fun _ => ?_
    exact Minds.bind (.change fun m => reads.loads m registry _ _) fun _ => .pure _

theorem Remit.beside_reads : Remit.beside.Reads where
  toHosts := beside_hosts
  loads _ _ _ _ := ⟨fun _ => rfl, fun _ _ => id, Nat.le_refl _, fun ⟨there, joined⟩ => ⟨there, joined⟩⟩

namespace Facade

variable {r : Remit}

theorem required_minds : required.Minds r :=
  (Minds.view _).bind fun _ => .ite (fun _ => .pure _) fun _ => .fail _

theorem refresh_minds (reads : r.Reads) : refresh.Minds r := required_minds.bind fun _ => reads.refresh _

theorem status_minds (hosts : r.Hosts) : status.Minds r := by
  refine required_minds.bind fun f => ?_
  exact (Coordinator.Conduct.status_minds _).mono (fun _ => False.elim) (fun _ _ => False.elim)
    fun request patient => hosts.requests request (Remit.beside_of_patient request patient)

theorem whenPresent_minds {n : Option Nat} {p : Nat → Routine Unit} (minds : ∀ n, (p n).Minds r) : (whenPresent n p).Minds r := by
  cases n with
  | none => exact .pure _
  | some n => exact minds n

/-- Whoever may connect to the graph server may ask whether it answers. -/
theorem healthCheck_minds (hosts : r.Hosts) (connects : ∀ n, (GraphClient.connect n).Minds r) : healthCheck.Minds r := by
  refine required_minds.bind fun f => Minds.rescue ?_ fun _ => .pure _
  have probes : (do
      let _ ← GraphClient.run (number f.graph) .probe
      return true : Routine Bool).Minds r := (hosts.send _ _ _).bind fun _ => .pure _
  refine (Minds.view _).bind fun client => .ite (fun _ => ?_) fun _ => probes
  exact (connects _).bind fun _ => probes

theorem analyze_minds (reads : r.Reads) (query usePrefilter : Value) : (analyze query usePrefilter).Minds r := by
  have completes : ∀ n prompt system, (CompletionService.generate n prompt system).Minds r := fun n prompt system =>
    reads.works (CompletionService.generate_minds n prompt system) fun question describes => by cases question <;> trivial
  have rest : ∀ f : Facade, (do
      let s ← funnelFor f usePrefilter
      analyzeEntities s f.sources query : Routine Selection).Minds r :=
    fun f => (Minds.ofExcept _).bind fun s => reads.analyzeEntities s query (.view _) (.view _) (reads.encodeQuery _) fun _ => completes _ _ _
  refine required_minds.bind fun f => (Minds.view _).bind fun loaded => .ite (fun _ => ?_) fun _ => rest f
  exact (refresh_minds reads).bind fun _ => rest f

end Facade

namespace Remit.Carries

open Coordinator

variable {r : Remit} {n : Nat}

theorem onRun (carries : r.Carries) (f : RunState → RunState) : (onRun n f).Minds r :=
  .change fun m => carries.change m n fun _ => rfl

theorem request (carries : r.Carries) (request : Control) : (Routine.request request).Minds r := .request (carries.all request)

theorem stagesInOrder (carries : r.Carries) {source : StageSource} (endpoint : Value) (start : Float)
    (vectorizes : ∀ p, source = .pipeline p → (CodeAtlas.vectorize p.graph p.index p.embedding).Minds r) :
    (stagesInOrder n source endpoint start).Minds r := by
  have fetches : (source.fetch endpoint).Minds r := by
    cases source with
    | pipeline p => exact carries.works (fetchSnapshot_minds _ _) fun question _ => by cases question <;> trivial
    | outside => exact carries.query trivial
  have builds : ∀ snapshot, (source.build snapshot).Minds r := by
    intro snapshot
    cases source with
    | pipeline p =>
      have minds := carries.works (buildGraph_minds p.graph p.graphBatch snapshot) fun question _ => by cases question <;> trivial
      exact minds.bind fun _ => .pure _
    | outside => exact carries.query trivial
  have enriches : source.enrich.Minds r := by
    cases source with
    | pipeline p =>
      have minds := carries.shared (enrichMethods_minds p.enricher) fun question _ => by cases question <;> trivial
      exact minds.bind fun _ => .pure _
    | outside => exact carries.query trivial
  have indexes : source.vectorize.Minds r := by
    cases source with
    | pipeline p => exact (vectorizes p rfl).bind fun _ => .pure _
    | outside => exact carries.query trivial
  refine (carries.onRun _).bind fun _ => fetches.bind fun snapshot => ?_
  cases snapshot with
  | none => exact .pure _
  | some snapshot =>
    refine .ite (fun _ => .pure _) fun _ => (carries.onRun _).bind fun _ => (builds snapshot).bind fun _ => ?_
    refine (carries.onRun _).bind fun _ => enriches.bind fun _ => (carries.onRun _).bind fun _ => indexes.bind fun _ => ?_
    exact carries.now.bind fun stop => carries.onRun _

theorem runStages (carries : r.Carries) (n : Nat) (id : String) : (runStages n id).Minds r := by
  refine carries.now.bind fun start => (carries.onRun _).bind fun _ => Minds.look fun m found => ?_
  have stages : (Coordinator.stagesInOrder n (m.coordinator n).stages (m.coordinator n).endpoint start).Minds r :=
    carries.stagesInOrder _ start fun p own => carries.vectorize m n p found own
  exact (stages.rescue fun _ => carries.onRun _).ensuring (carries.onRun _)

theorem tryAcquire (carries : r.Carries) (n : Nat) : (tryAcquire n).Minds r :=
  (Minds.view _).bind fun _ => .ite (fun _ => .pure _) fun _ => (carries.onRun _).bind fun _ => .pure _

theorem drawRunId (carries : r.Carries) : drawRunId.Minds r := by
  have draws : (Routine.query .drawId).Minds r := carries.query trivial
  exact draws.bind fun _ => .pure _

theorem runPipeline (carries : r.Carries) (n : Nat) : (runPipeline n).Minds r :=
  (carries.tryAcquire n).bind fun _ => .ite (fun _ => carries.drawRunId.bind fun id => carries.runStages n id) fun _ => .pure _

theorem scheduleRound (carries : r.Carries) (n : Nat) : (scheduleRound n).Minds r := by
  refine (Minds.view _).bind fun c => Minds.bind ?_ fun _ => carries.runPipeline n
  exact (Minds.ofExcept _).bind fun _ => (Minds.ofExcept _).bind fun _ => carries.request _

theorem job (carries : r.Carries) (job : Job) : job.routine.Minds r := by
  cases job with
  | ingest n id => exact (carries.runStages n id).bind fun _ => .pure _
  | schedule n => exact (carries.scheduleRound n).bind fun _ => .pure _
  | describe e method =>
    have minds := carries.works (enrichWithPermit_minds e method) fun question _ => by cases question <;> trivial
    exact minds.bind fun _ => .pure _
  | search source vector limit threshold kind =>
    have minds := carries.works (source.find_minds vector limit threshold kind) fun question _ => by cases question <;> trivial
    exact minds.bind fun _ => .pure _

theorem noted (carries : r.Carries) {f : Coordinator → Coordinator} (stages : ∀ x, (f x).stages = x.stages) :
    (Routine.change (Memory.onCoordinator n f)).Minds r := .change fun m => carries.change m n stages

theorem startScheduler (carries : r.Carries) (n : Nat) : (startScheduler n).Minds r := by
  have begins : ∀ interval : Value, (do
      let hasLoop : Bool ← Routine.request .hasLoop
      if !hasLoop then Routine.fail (.failure .noLoop)
      let task : Nat ← Routine.request (.spawn (.schedule n))
      Routine.change (Memory.onCoordinator n fun c => { c with scheduler := some task })
      let _ ← interval.fixed 0
      return true : Routine Bool).Minds r := by
    intro interval
    refine (carries.request .hasLoop).bind fun hasLoop => ?_
    cases hasLoop with
    | false => exact .fail _
    | true =>
      refine (carries.request (.spawn (.schedule n))).bind fun task => Minds.bind (carries.noted fun _ => rfl) fun _ => ?_
      exact (Minds.ofExcept _).bind fun _ => .pure _
  refine (Minds.view _).bind fun c => .ite (fun _ => .pure _) fun _ => ?_
  cases c.scheduler with
  | none => exact begins _
  | some task =>
    refine (carries.request (.ended task)).bind fun ended => ?_
    cases ended with
    | false => exact .pure _
    | true => exact begins _

theorem stopScheduler (carries : r.Carries) (n : Nat) : (stopScheduler n).Minds r := by
  refine (Minds.view _).bind fun c => Minds.bind (carries.noted fun _ => rfl) fun _ => ?_
  cases c.scheduler with
  | none => exact .pure _
  | some task =>
    refine (carries.request (.cancel task)).bind fun _ => (carries.request (.join task)).andThen fun result => ?_
    split <;> exact .done _

theorem trigger (carries : r.Carries) (n : Nat) : (trigger n).Minds r := by
  have refusal : ∀ message, (refusal n message).Minds r := fun message =>
    (Coordinator.Conduct.refusal_minds n message).mono (fun _ => False.elim) (fun _ _ => False.elim) fun request _ => carries.all request
  have starts : ∀ id, (startRun n id).Minds r := by
    intro id
    refine (carries.request .hasLoop).bind fun hasLoop => ?_
    cases hasLoop with
    | true => exact (carries.request (.spawn (.ingest n id))).bind fun _ => carries.noted fun _ => rfl
    | false =>
      refine Minds.bind (carries.query trivial) fun _ => ?_
      exact (carries.request (.dispatch (.ingest n id))).bind fun _ => carries.noted fun _ => rfl
  refine (carries.tryAcquire n).bind fun taken => .ite (fun _ => ?_) fun _ => refusal _
  refine carries.drawRunId.bind fun id => Minds.bind ((starts id).andThen fun _ => .done _) fun result => ?_
  cases result with
  | ok => exact carries.now.bind fun _ => .pure _
  | error fault =>
    dsimp only
    split
    · exact (carries.onRun _).bind fun _ => refusal _
    · exact .fail _

theorem runIngestion (carries : r.Carries) (reads : r.Reads) : Facade.runIngestion.Minds r := by
  have statuses : ∀ n, (Coordinator.status n).Minds r := fun n =>
    (Coordinator.Conduct.status_minds n).mono (fun _ => False.elim) (fun _ _ => False.elim) fun request _ => carries.all request
  refine Facade.required_minds.bind fun f => (carries.runPipeline _).bind fun _ => (statuses _).bind fun status => ?_
  exact .ite (fun _ => (Facade.refresh_minds reads).bind fun _ => .pure _) fun _ => .pure _

end Remit.Carries

end CodeAtlas
