import CodeAtlas.Proofs.Crew.Remit
import CodeAtlas.Proofs.Graph.Descriptions
import CodeAtlas.Proofs.Graph.Rebuild
import CodeAtlas.Ingestion

namespace CodeAtlas

/-- Neither the coordinators nor the facade nor the clients of the graph nor the populations are touched, nor the
settings of any index. -/
structure Memory.Aside (m m' : Memory) : Prop where
  coordinators : m'.coordinators = m.coordinators
  facade : m'.facade = m.facade
  graphs : m'.graphs = m.graphs
  settings : ∀ i, (m'.index i).settings = (m.index i).settings
  registries : m'.registries = m.registries

/-- Work in a stage that asks certain questions, and may take its time. -/
def Remit.works (asks : Ask → Prop) : Remit where
  asks
  writes m m' := m.Aside m'
  requests
    | .now | .pause _ | .takePermit | .givePermit => True
    | _ => False

/-- Work of which parts may be done by others. -/
def Remit.shares (asks : Ask → Prop) : Remit where
  asks
  writes m m' := m.Aside m'
  requests
    | .gather _ jobs => ∃ e methods, jobs = List.map (Job.describe e) methods
    | request => (works asks).requests request

/-- What is asked for a snapshot. -/
def Ask.fetches : Ask → Prop
  | .openSession _ | .closeSession | .requestAnalysis .. => True
  | _ => False

def Statement.builds : Statement → Prop
  | .createIndex _ | .mergeClasses | .mergeMethods | .mergeEndpoints | .mergeContains | .mergeCalls | .mergeHandledBy
  | .mergeExtends => True
  | _ => False

/-- What is asked to build the graph. Each method that is written has an identity. -/
def Ask.builds : Ask → Prop
  | .query statement parameters => statement.builds ∧ ∀ w ∈ statement.writes (sentRows parameters), w.Neat
  | _ => False

/-- What is asked to complete a text. -/
def Ask.completes (prompt system : Value) : Ask → Prop
  | .openSession _ => True
  | .requestCompletion _ body _ => ∃ settings, body = CompletionService.requestBody settings prompt system
  | .complete prompt' system' => .str prompt' = prompt ∧ Value.ofText? system' = system
  | _ => False

/-- The language model is asked to describe a method, given some code. -/
def Ask.About (m : PendingMethod) (question : Ask) : Prop :=
  ∃ code, question.completes (.str (enrichmentPrompt m code)) (Value.ofText? (some enrichmentSystem))

/-- What is asked to come to the description of a method. -/
def Ask.inquires (m : PendingMethod) : Ask → Prop
  | .contentAt _ | .drawId => True
  | question => question.About m

/-- What is asked to describe methods. -/
def Ask.describes : Ask → Prop
  | .openSession _ | .requestCompletion .. | .complete .. | .contentAt _ | .drawId | .query .createDescription _ => True
  | _ => False

theorem Ask.describes_of_inquires {question : Ask} {m : PendingMethod} (inquires : question.inquires m) : question.describes := by
  cases question <;> first | trivial | exact inquires.choose_spec.elim

/-- What is asked to describe what has no description yet, apart from describing it. -/
def Ask.lists : Ask → Prop
  | .query .undescribedMethods _ => True
  | _ => False

/-- What is asked to write vectors. -/
def Ask.indexes : Ask → Prop
  | .openVectors .. | .listCollections | .createCollection .. | .upsert .. | .loadModel .. | .encodeBatch ..
  | .query .describedMethods _ | .query .classesToIndex _ => True
  | _ => False

/-- What is asked to find similar entities. -/
def Ask.searches : Ask → Prop
  | .openVectors .. | .closeVectors | .searchPoints .. | .search .. => True
  | _ => False

namespace Routine

variable {α : Type} {asks : Ask → Prop}

theorem works_now : now.Minds (.works asks) := Minds.request (c := .now) trivial

theorem works_pauseFor (seconds : Value) : (pauseFor seconds).Minds (.works asks) := by
  have pauses : ∀ s, (Routine.request (.pause s)).Minds (.works asks) := fun s => Minds.request (c := .pause s) trivial
  exact (Minds.ofExcept _).bind fun _ => (Minds.ofExcept _).bind fun _ => pauses _

/-- What nobody else is needed for. -/
theorem Minds.shares {p : Routine α} (minds : p.Minds (.works asks)) : p.Minds (.shares asks) := by
  refine minds.mono (fun _ => id) (fun _ _ => id) fun request works => ?_
  cases request <;> first | exact works | exact works.elim

theorem works_change {f : Memory → Memory} (aside : ∀ m : Memory, m.Aside (f m)) : (change f).Minds (.works asks) :=
  Minds.change aside

end Routine

open Routine

section Fetch

theorem requestData_minds (verb url : String) (body : Value) : (requestData verb url body).Minds (.works Ask.fetches) := by
  refine (Minds.query (q := .requestAnalysis verb url body) trivial).bind fun reply => ?_
  exact .ite (fun _ => .fail _) fun _ => .ofExcept _

theorem startAnalysis_minds (endpoint : String) : (startAnalysis endpoint).Minds (.works Ask.fetches) := by
  refine (requestData_minds _ _ _).bind fun body => (Minds.ofExcept _).bind fun data => ?_
  refine .ite (fun _ => .fail _) fun _ => (Minds.ofExcept _).bind fun _ => ?_
  exact .ite (fun _ => .fail _) fun _ => (Minds.ofExcept _).bind fun _ => .pure _

theorem awaitAnalysis_minds (settings : PollingSettings) (endpoint id : String) (left : Nat) :
    (awaitAnalysis settings endpoint id left).Minds (.works Ask.fetches) := by
  induction left with
  | zero => exact (Minds.ofExcept _).bind fun _ => (Minds.ofExcept _).bind fun _ => .fail _
  | succ left ih =>
    refine (requestData_minds _ _ _).bind fun body => (Minds.ofExcept _).bind fun data => ?_
    refine .ite (fun _ => .fail _) fun _ => (Minds.ofExcept _).bind fun status => ?_
    cases Progress.ofStatus status with
    | completed => exact .pure _
    | failed => exact (Minds.ofExcept _).bind fun _ => .fail _
    | running => exact (works_pauseFor _).bind fun _ => ih

theorem analyseCode_minds (settings : PollingSettings) (endpoint : String) :
    (analyseCode settings endpoint).Minds (.works Ask.fetches) := by
  refine (startAnalysis_minds _).bind fun id => (Minds.ofExcept _).bind fun polls => ?_
  exact (awaitAnalysis_minds _ _ _ _).bind fun _ => (requestData_minds _ _ _).bind fun _ => .ofExcept _

theorem fetchSnapshot_minds (settings : PollingSettings) (endpoint : Value) :
    (fetchSnapshot settings endpoint).Minds (.works Ask.fetches) := by
  have opens : (query (.openSession settings.requestTimeout)).Minds (.works Ask.fetches) := .query trivial
  have closes : (query .closeSession).Minds (.works Ask.fetches) := .query trivial
  refine (Minds.ofExcept _).bind fun address => opens.bind fun _ => ?_
  refine ((analyseCode_minds _ _).ensuring closes).bind fun data => ?_
  exact .ite (fun _ => .pure _) fun _ => (Minds.ofExcept _).bind fun _ => .pure _

end Fetch

section Graph

variable {asks : Ask → Prop} {statement : Statement}

theorem GraphClient.send_minds (graph : Nat) {parameters : Value}
    (allowed : asks (.query statement (parameters.orElse (.dict [])))) :
    (send graph statement parameters).Minds (.works asks) := by
  refine (Minds.view _).bind fun client => .ite (fun _ => .fail _) fun _ => ?_
  refine (Minds.query allowed).bind fun table => (Minds.ofExcept _).bind fun records => ?_
  exact (Minds.ofExcept _).bind fun _ => .pure _

/-- The rows that are sent in groups. -/
theorem GraphClient.sendGroups_minds (graph : Nat) (sent : Nat) {groups : List (List Value)}
    (allowed : ∀ group ∈ groups, asks (.query statement (.dict [(.str "rows", .list group)]))) :
    (sendGroups graph statement (.str "rows") sent groups).Minds (.works asks) := by
  induction groups generalizing sent with
  | nil => exact .pure _
  | cons group rest ih =>
    have first : asks (.query statement ((Value.dict [(.str "rows", .list group)]).orElse (.dict []))) :=
      allowed group (List.mem_cons_self ..)
    exact (send_minds graph first).bind fun _ => ih _ fun group inside => allowed group (List.mem_cons_of_mem _ inside)

/-- Rows that are written may be asked to be. -/
theorem writeRows_minds (graph : Nat) (size : Value) {merge : Graph.Merge} (merges : statement.merge? = some merge)
    (builds : statement.builds) {rows : List Value} (neat : ∀ row ∈ rows, Graph.Write.Neat ⟨merge, row⟩) :
    (writeRows graph size statement rows).Minds (.works Ask.builds) := by
  refine .ite (fun _ => .pure _) fun _ => Minds.compute fun groups grouped => ?_
  refine GraphClient.sendGroups_minds graph _ fun group inside => ⟨builds, fun w written => ?_⟩
  simp only [Statement.writes, merges, List.mem_map] at written
  obtain ⟨row, member, rfl⟩ := written
  exact neat row (mem_of_groupsBy grouped inside member)

theorem createIndexes_minds (graph : Nat) (indexes : List GraphIndex) :
    (createIndexes graph indexes).Minds (.works Ask.builds) := by
  induction indexes with
  | nil => exact .pure _
  | cons index rest ih =>
    refine Minds.bind (Minds.rescue ?_ fun _ => .pure _) fun _ => ih
    exact (GraphClient.send_minds graph ⟨trivial, nofun⟩).bind fun _ => .pure _

theorem buildGraph_minds (graph : Nat) (size : Value) (s : Snapshot) :
    (buildGraph graph size s).Minds (.works Ask.builds) := by
  have others : ∀ (statement : Statement) {merge : Graph.Merge}, statement.merge? = some merge → statement.builds →
      (∀ row, Graph.Write.Neat ⟨merge, row⟩) → ∀ rows, (writeRows graph size statement rows).Minds (.works Ask.builds) :=
    fun statement _ merges builds neat rows => writeRows_minds graph size merges builds fun row _ => neat row
  have apart : ∀ {label : String}, label ≠ "Method" → ∀ row : Value, label = "Method" → (row.field "id").Identifies :=
    fun other _ same => absurd same other
  have joins : ∀ {source type target : String}, type ≠ "HAS_DESCRIPTION" → ∀ row, Graph.Write.Neat ⟨.edge source type target, row⟩ :=
    fun other _ => other
  refine works_now.bind fun start => (createIndexes_minds graph _).bind fun _ => (Minds.ofExcept _).bind fun index => ?_
  refine (Minds.ofExcept _).bind fun classRows => Minds.compute fun methodRows made => Minds.compute fun ids keys => ?_
  refine (others .mergeClasses rfl trivial (fun row => ⟨by decide, apart (by decide) row⟩) _).bind fun classes => ?_
  have identify := methodRows_identify made keys
  have writes : (writeRows graph size .mergeMethods methodRows).Minds (.works Ask.builds) :=
    @writeRows_minds .mergeMethods graph size _ rfl trivial _ fun row inside => ⟨by decide, fun _ => identify row inside⟩
  refine writes.bind fun methods => (Minds.ofExcept _).bind fun endpointRows => ?_
  refine (others .mergeEndpoints rfl trivial (fun row => ⟨by decide, apart (by decide) row⟩) _).bind fun endpoints => ?_
  refine (Minds.ofExcept _).bind fun containsRows => ?_
  refine (others .mergeContains rfl trivial (joins (by decide)) _).bind fun contains => (Minds.ofExcept _).bind fun calls => ?_
  refine (others .mergeCalls rfl trivial (joins (by decide)) _).bind fun calls => (Minds.ofExcept _).bind fun handledRows => ?_
  refine (others .mergeHandledBy rfl trivial (joins (by decide)) _).bind fun handled => ?_
  refine (Minds.ofExcept _).bind fun extendsRows => ?_
  exact (others .mergeExtends rfl trivial (joins (by decide)) _).bind fun inherits => works_now.bind fun stop => .pure _

end Graph

section Enrich

theorem CompletionService.openSession_minds (n : Nat) (prompt system : Value) :
    (openSession n).Minds (.works (Ask.completes prompt system)) := by
  refine (Minds.view _).bind fun service => .ite (fun _ => .pure _) fun _ => ?_
  refine (Minds.query (q := .openSession service.settings.timeout) trivial).bind fun _ => ?_
  exact works_change fun _ => ⟨rfl, rfl, rfl, fun _ => rfl, rfl⟩

theorem CompletionService.generate_minds (n : Nat) (prompt system : Value) :
    (generate n prompt system).Minds (.works (Ask.completes prompt system)) := by
  refine (Minds.view _).bind fun service => .ite (fun _ => .fail _) fun _ => (openSession_minds n prompt system).bind fun _ => ?_
  have asks : (Ask.requestCompletion completionUrl (requestBody service.settings prompt system)
      (requestHeaders service.settings)).completes prompt system := ⟨service.settings, rfl⟩
  have asked : (query (.requestCompletion completionUrl (requestBody service.settings prompt system)
      (requestHeaders service.settings))).Minds (.works (Ask.completes prompt system)) := .query asks
  refine asked.bind fun reply => .ite (fun _ => .fail _) fun _ => ?_
  refine (Minds.ofExcept _).bind fun data => (Minds.ofExcept _).bind fun read => ?_
  obtain ⟨completion, usage⟩ := read
  refine Minds.bind (works_change fun _ => ⟨rfl, rfl, rfl, fun _ => rfl, rfl⟩) fun _ => ?_
  exact (Minds.ofExcept _).bind fun _ => .pure _

theorem CompletionSource.complete_minds (source : CompletionSource) (prompt : String) (system : Option String) :
    (source.complete prompt system).Minds (.works (Ask.completes (.str prompt) (Value.ofText? system))) := by
  cases source with
  | service n => exact CompletionService.generate_minds n _ _
  | outside => exact .query ⟨rfl, rfl⟩

/-- What may be asked may be asked by those who may ask more. -/
theorem Routine.Minds.asking {α : Type} {p : Routine α} {asks asks' : Ask → Prop} (minds : p.Minds (.works asks))
    (wider : ∀ question, asks question → asks' question) : p.Minds (.works asks') :=
  minds.mono wider (fun _ _ aside => aside) fun _ allowed => allowed

theorem readCode_minds (e : Enricher) (m : PendingMethod) : (readCode e m).Minds (.works (Ask.inquires m)) := by
  unfold readCode
  split
  · exact .pure _
  · split
    · refine Minds.bind (.query trivial) fun content => ?_
      split <;> first | exact .pure _ | exact .fail _
    · exact .fail _

theorem describe_minds (e : Enricher) (m : PendingMethod) (code : String) :
    (describe e m code).Minds (.works (Ask.inquires m)) := by
  refine Minds.rescue ?_ fun _ => .pure _
  have inquires : ∀ question : Ask, question.completes (.str (enrichmentPrompt m code)) (Value.ofText? (some enrichmentSystem)) →
      question.inquires m := by
    intro question about
    cases question <;> first | exact ⟨code, about⟩ | exact about.elim
  have completes := (e.completion.complete_minds (enrichmentPrompt m code) (some enrichmentSystem)).asking inquires
  exact completes.bind fun _ => (Minds.ofExcept _).bind fun _ => .pure _

theorem writeDescription_minds (e : Enricher) (m : PendingMethod) (content : String) :
    (writeDescription e m content).Minds (.works Ask.describes) := by
  refine (Minds.query (q := .drawId) trivial).bind fun drawn => ?_
  refine (GraphClient.send_minds _ trivial).bind fun records => (Minds.ofExcept _).bind fun created => ?_
  exact .ite (fun _ => .pure _) fun _ => .fail _

theorem enrichOne_minds (e : Enricher) (m : PendingMethod) : (enrichOne e m).Minds (.works Ask.describes) := by
  refine Minds.rescue ?_ fun _ => .pure _
  have inquires : ∀ {α : Type} {p : Routine α}, p.Minds (.works (Ask.inquires m)) → p.Minds (.works Ask.describes) :=
    fun minds => minds.asking fun _ => Ask.describes_of_inquires
  refine (inquires (readCode_minds e m)).bind fun code => (inquires (describe_minds e m code)).bind fun content => ?_
  cases content with
  | none => exact (writeDescription_minds e m _).bind fun _ => .pure _
  | some content => exact (writeDescription_minds e m content).bind fun _ => .pure _

theorem enrichWithPermit_minds (e : Enricher) (m : PendingMethod) :
    (enrichWithPermit e m).Minds (.works Ask.describes) := by
  have takes : (request .takePermit).Minds (.works Ask.describes) := .request trivial
  have gives : (request .givePermit).Minds (.works Ask.describes) := .request trivial
  exact takes.bind fun _ => (enrichOne_minds e m).ensuring gives

theorem enrichMethods_minds (e : Enricher) : (enrichMethods e).Minds (.shares Ask.lists) := by
  refine works_now.shares.bind fun start => (GraphClient.send_minds _ trivial).shares.bind fun records => ?_
  refine (Minds.ofExcept _).bind fun methods => .ite (fun _ => .pure _) fun _ => ?_
  have gathers : (request (.gather e.permits (methods.map (.describe e)))).Minds (.shares Ask.lists) :=
    .request ⟨e, methods, rfl⟩
  exact gathers.bind fun left => works_now.shares.bind fun stop => .pure _

end Enrich

section Vectorize

theorem VectorIndex.openClient_minds (n : Nat) : (openClient n).Minds (.works Ask.indexes) := by
  refine (Minds.view _).bind fun index => .ite (fun _ => .pure _) fun _ => ?_
  refine (Minds.query (q := .openVectors ..) trivial).bind fun _ => works_change fun m => ⟨rfl, rfl, rfl, fun i => ?_, rfl⟩
  exact m.settings_onIndex n i fun _ => rfl

theorem VectorIndex.ensureCollection_minds (n : Nat) (collection : Value) :
    (ensureCollection n collection).Minds (.works Ask.indexes) := by
  refine (openClient_minds n).bind fun _ => (Minds.query (q := .listCollections) trivial).bind fun existing => ?_
  exact .ite (fun _ => .pure _) fun _ => (Minds.view _).bind fun index => .query trivial

theorem EmbeddingService.load_minds {asks : Ask → Prop} (n : Nat) (loads : ∀ name device, asks (.loadModel name device)) :
    (load n).Minds (.works asks) := by
  refine (Minds.view _).bind fun service => .ite (fun _ => .pure _) fun _ => ?_
  refine Minds.bind (Minds.rescue (.query (loads _ _)) fun _ => .fail _) fun _ => ?_
  exact works_change fun _ => ⟨rfl, rfl, rfl, fun _ => rfl, rfl⟩

theorem EmbeddingService.encodeBatch_minds (n : Nat) (texts : Value) (isQuery : Bool) (progress : Value) :
    (encodeBatch n texts isQuery progress).Minds (.works Ask.indexes) := by
  refine .ite (fun _ => .pure _) fun _ => (load_minds n fun _ _ => trivial).bind fun _ => (Minds.view _).bind fun service => ?_
  exact (Minds.ofExcept _).bind fun items => .query trivial

theorem VectorIndex.writeGroups_minds (n embedding : Nat) (kind : Kind) (collection : Value) (written : Nat)
    (groups : List (List Value)) : (writeGroups n embedding kind collection written groups).Minds (.works Ask.indexes) := by
  induction groups generalizing written with
  | nil => exact .pure _
  | cons group rest ih =>
    refine (Minds.ofExcept _).bind fun texts => (EmbeddingService.encodeBatch_minds _ _ _ _).bind fun vectors => ?_
    refine (Minds.ofExcept _).bind fun points => (openClient_minds n).bind fun _ => ?_
    exact (Minds.query (q := .upsert ..) trivial).bind fun _ => ih _

theorem VectorIndex.writeRecords_minds (n embedding : Nat) (kind : Kind) (collection : Value) (records : List Value) :
    (writeRecords n embedding kind collection records).Minds (.works Ask.indexes) := by
  refine (Minds.ofExcept _).bind fun indexable => (Minds.view _).bind fun index => (Minds.ofExcept _).bind fun groups => ?_
  exact writeGroups_minds _ _ _ _ _ _

theorem vectorize_minds (graph index embedding : Nat) : (vectorize graph index embedding).Minds (.works Ask.indexes) := by
  refine works_now.bind fun start => (Minds.view _).bind fun settings => ?_
  refine (VectorIndex.ensureCollection_minds _ _).bind fun _ => (VectorIndex.ensureCollection_minds _ _).bind fun _ => ?_
  refine (GraphClient.send_minds _ trivial).bind fun methodRecords => ?_
  refine (VectorIndex.writeRecords_minds _ _ _ _ _).bind fun methods => ?_
  refine (GraphClient.send_minds _ trivial).bind fun classRecords => ?_
  exact (VectorIndex.writeRecords_minds _ _ _ _ _).bind fun classes => works_now.bind fun stop => .pure _

end Vectorize

theorem SearchSource.find_minds (source : SearchSource) (vector limit threshold : Value) (kind : Kind) :
    (source.find vector limit threshold kind).Minds (.works Ask.searches) := by
  cases source with
  | server settings addressed =>
    have opens : ∀ host port, (query (.openVectors host port)).Minds (.works Ask.searches) := fun _ _ => .query trivial
    have searches : (query (.searchPoints (settings.collectionFor kind) vector limit threshold)).Minds (.works Ask.searches) :=
      .query trivial
    have closes : (query .closeVectors).Minds (.works Ask.searches) := .query trivial
    refine (opens _ _).bind fun _ => (searches.ensuring closes).bind fun points => ?_
    exact (Minds.ofExcept _).bind fun found => (Minds.ofExcept _).bind fun ranked => .ofExcept _
  | outside => exact .query trivial

end CodeAtlas
