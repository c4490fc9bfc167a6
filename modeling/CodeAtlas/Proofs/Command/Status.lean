import CodeAtlas.Command
import CodeAtlas.Proofs.Graph.Connection
import CodeAtlas.Proofs.Retrieval.Concord
import CodeAtlas.Proofs.Storage.Snapshots

namespace CodeAtlas

open Routine GraphClient

variable {around : (question : Ask) → Except Fault question.Reply → Prop} {m m' : Memory} {log : List Event}
  {t : Memory × List Event}

/-- A connected facade whose parts are as they were made, apart from its client of the graph. -/
structure Memory.Furnished (g r : Nat) (m : Memory) : Prop where
  connected : m.facade.connected = true
  graph : m.facade.graph = some g
  present : g < m.graphs.length
  client : (m.graph g).connected = true
  registry : m.facade.registry = some r
  link : (m.registry r).graph = some g
  idle : ∀ n, m.facade.coordinator = some n → (m.coordinator n).scheduler = none
  silent : ∀ n, m.facade.completion = some n → (m.completion n).session ≠ .open
  shut : ∀ n, m.facade.index = some n → (m.index n).isOpen = false

theorem part_last {α : Type} [Inhabited α] (parts : List α) (new : α) : part (parts ++ [new]) parts.length = new := by
  rw [part_snoc, if_pos rfl]

namespace Facade

theorem add_arrives {α : Type} {parts : Memory → List α} {put : List α → Memory → Memory} {new : α} {r : Except Fault Nat}
    (arrives : (add parts put new).Arrives (.recorded around) (m, log) r t) :
    r = .ok (parts m).length ∧ t = (put (parts m ++ [new]) m, log) := by
  obtain ⟨_, rfl, _, rfl, rfl, rfl⟩ := arrives
  exact ⟨rfl, rfl⟩

theorem note_arrives {f : Facade → Facade} {r : Except Fault Unit}
    (arrives : (note f).Arrives (.recorded around) (m, log) r t) : r = .ok () ∧ t = (m.onFacade f, log) := by
  obtain ⟨_, rfl, rfl, rfl⟩ := arrives
  exact ⟨rfl, rfl⟩

/-- The new client of the graph is connected when connecting ends well. -/
theorem connectGraph_arrives (plain : Plain around) {settings : GraphSettings} {n : Nat}
    (arrives : (connectGraph settings).Arrives (.recorded around) (m, log) (.ok n) t) :
    n = m.graphs.length ∧ t.1 = turned n true
      (({ m with graphs := m.graphs ++ [⟨settings, false⟩] } : Memory).onFacade fun f => { f with graph := some n }) := by
  obtain ⟨_, _, added, arrives⟩ := arrives.bind_ok
  obtain ⟨⟨⟩, rfl⟩ := add_arrives added
  obtain ⟨_, _, noted, arrives⟩ := arrives.bind_ok
  obtain ⟨_, rfl⟩ := note_arrives noted
  obtain ⟨_, _, joins, ended⟩ := arrives.bind_ok
  obtain ⟨⟨⟩, rfl⟩ := ended
  refine ⟨rfl, ?_⟩
  rcases connect_takes plain joins with ⟨connected, _⟩ | ⟨_, _, _, _, rfl⟩
  · simp [Memory.graph, Memory.onFacade, part] at connected
  · rfl

theorem sharedService_arrives {env : Environment} {o : EmbeddingOptions} {n : Nat}
    (arrives : (EmbeddingService.sharedService env o).Arrives (.recorded around) (m, log) (.ok n) t) :
    ∃ embeddings shared, t.1 = { m with embeddings, shared } := by
  replace arrives := arrives_view_bind arrives
  split at arrives
  next =>
    obtain ⟨_, rfl⟩ := arrives
    exact ⟨m.embeddings, m.shared, rfl⟩
  next =>
    obtain ⟨_, _, created, rest⟩ := arrives.bind_ok
    obtain ⟨_, _, ⟨_, _, ⟨_, rfl⟩, _, rfl⟩, created⟩ := created.bind_ok
    obtain ⟨service, _, ⟨_, rfl⟩, created⟩ := created.bind_ok
    obtain ⟨_, rfl, _, rfl, _, rfl⟩ := created
    obtain ⟨_, rfl, _, rfl⟩ := rest
    exact ⟨_, _, rfl⟩

/-- Taking the embedding service changes nothing but what there is of such services. -/
theorem takeEmbedding_arrives {env : Environment} {settings : EmbeddingSettings} {n : Nat}
    (arrives : (takeEmbedding env settings).Arrives (.recorded around) (m, log) (.ok n) t) :
    ∃ embeddings shared embedding, t.1 = { m with embeddings, shared, facade := { m.facade with embedding } } := by
  obtain ⟨options, _, ⟨_, rfl⟩, arrives⟩ := arrives.bind_ok
  obtain ⟨_, ⟨_, _⟩, shares, arrives⟩ := arrives.bind_ok
  obtain ⟨embeddings, shared, rfl⟩ := sharedService_arrives shares
  obtain ⟨_, _, noted, _, rfl⟩ := arrives.bind_ok
  obtain ⟨_, rfl⟩ := note_arrives noted
  exact ⟨embeddings, shared, some _, rfl⟩

theorem newCompletion_arrives {settings : CompletionSettings} {n : Nat}
    (arrives : (newCompletion settings).Arrives (.recorded around) (m, log) (.ok n) t) :
    t.1 = { m with
      completions := m.completions ++ [⟨settings, .none, []⟩]
      facade := { m.facade with completion := some m.completions.length } } := by
  obtain ⟨_, _, added, arrives⟩ := arrives.bind_ok
  obtain ⟨⟨⟩, rfl⟩ := add_arrives added
  obtain ⟨_, _, noted, _, rfl⟩ := arrives.bind_ok
  exact congrArg Prod.fst (note_arrives noted).2

theorem newRegistry_arrives {graph : Nat} (arrives : (newRegistry graph).Arrives (.recorded around) (m, log) (.ok ()) t) :
    t.1 = { m with
      registries := m.registries ++ [⟨some graph, [], [], false⟩]
      facade := { m.facade with registry := some m.registries.length } } := by
  obtain ⟨_, _, added, noted⟩ := arrives.bind_ok
  obtain ⟨⟨⟩, rfl⟩ := add_arrives added
  exact congrArg Prod.fst (note_arrives noted).2

theorem newIndex_arrives {settings : VectorSettings} {batchSize : Value} {n : Nat}
    (arrives : (newIndex settings batchSize).Arrives (.recorded around) (m, log) (.ok n) t) :
    t.1 = { m with
      indexes := m.indexes ++ [⟨settings, batchSize, false⟩]
      facade := { m.facade with index := some m.indexes.length } } := by
  obtain ⟨_, _, ⟨_, rfl⟩, arrives⟩ := arrives.bind_ok
  obtain ⟨_, _, added, arrives⟩ := arrives.bind_ok
  obtain ⟨⟨⟩, rfl⟩ := add_arrives added
  obtain ⟨_, _, noted, _, rfl⟩ := arrives.bind_ok
  exact congrArg Prod.fst (note_arrives noted).2

theorem newCoordinator_arrives {settings : IngestionSettings} {p : Pipeline}
    (arrives : (newCoordinator settings p).Arrives (.recorded around) (m, log) (.ok ()) t) :
    t.1 = { m with
      coordinators := m.coordinators ++
        [⟨.pipeline p, settings.endpoint, settings.scheduled, settings.interval, default, none, none, none⟩]
      facade := { m.facade with coordinator := some m.coordinators.length } } := by
  obtain ⟨_, _, added, noted⟩ := arrives.bind_ok
  obtain ⟨⟨⟩, rfl⟩ := add_arrives added
  exact congrArg Prod.fst (note_arrives noted).2

/-- A facade that has connected has new parts. -/
theorem connect_furnishes (plain : Plain around) {env : Environment}
    (arrives : (connect env).Arrives (.recorded around) (m, log) (.ok ()) t) (apart : m.facade.connected = false) :
    ∃ g r, t.1.Furnished g r := by
  replace arrives := arrives_view_bind arrives
  rw [apart] at arrives
  obtain ⟨graph, ⟨m₁, _⟩, connects, arrives⟩ := arrives.bind_ok
  obtain ⟨rfl, joined⟩ := connectGraph_arrives plain connects
  obtain ⟨embedding, ⟨m₂, _⟩, takes, arrives⟩ := arrives.bind_ok
  obtain ⟨_, _, _, taken⟩ := takeEmbedding_arrives takes
  obtain ⟨completion, ⟨m₃, _⟩, completes, arrives⟩ := arrives.bind_ok
  have completed := newCompletion_arrives completes
  obtain ⟨_, ⟨m₄, _⟩, registers, arrives⟩ := arrives.bind_ok
  have registered := newRegistry_arrives registers
  obtain ⟨index, ⟨m₅, _⟩, indexes, arrives⟩ := arrives.bind_ok
  have indexed := newIndex_arrives indexes
  obtain ⟨pipeline, _, ⟨_, rfl⟩, arrives⟩ := arrives.bind_ok
  obtain ⟨_, ⟨m₆, _⟩, coordinates, arrives⟩ := arrives.bind_ok
  have coordinated := newCoordinator_arrives coordinates
  obtain ⟨_, rfl⟩ := note_arrives arrives
  clear arrives coordinates indexes registers completes takes connects
  dsimp only at joined taken completed registered indexed coordinated
  subst coordinated indexed registered completed taken joined
  refine ⟨m.graphs.length, m.registries.length, ?_⟩
  have present : m.graphs.length < (m.graphs ++ [(⟨m.facade.settings.graph, false⟩ : GraphClient)]).length := by simp
  constructor
  case connected | graph | registry => rfl
  case present =>
    refine Nat.lt_of_lt_of_eq present ?_
    exact (List.length_modify ..).symm
  case client => exact turned_connected present true
  case link => exact congrArg Registry.graph (part_last ..)
  case idle =>
    rintro _ ⟨⟩
    exact congrArg Coordinator.scheduler (part_last ..)
  case silent =>
    rintro _ ⟨⟩
    have session := congrArg CompletionService.session (part_last m.completions ⟨m.facade.settings.completion, .none, []⟩)
    exact fun opened => by cases session.symm.trans opened
  case shut =>
    rintro _ ⟨⟩
    exact congrArg VectorIndex.isOpen (part_last ..)

theorem stopScheduler_arrives {number : Option Nat} {r : Except Fault Unit}
    (arrives : (whenPresent number Coordinator.stopScheduler).Arrives (.recorded around) (m, log) r t)
    (idle : ∀ n, number = some n → (m.coordinator n).scheduler = none) :
    r = .ok () ∧ ∃ coordinators, t = ({ m with coordinators }, log) := by
  cases number with
  | none =>
    obtain ⟨rfl, rfl⟩ := arrives
    exact ⟨rfl, m.coordinators, rfl⟩
  | some n =>
    replace arrives := arrives_view_bind arrives
    rw [idle n rfl] at arrives
    obtain ⟨_, rfl, rfl, rfl⟩ := arrives
    exact ⟨rfl, _, rfl⟩

theorem closeCompletion_arrives {number : Option Nat} {r : Except Fault Unit}
    (arrives : (whenPresent number CompletionService.close).Arrives (.recorded around) (m, log) r t)
    (silent : ∀ n, number = some n → (m.completion n).session ≠ .open) :
    r = .ok () ∧ t = (m, log) := by
  cases number with
  | none => exact arrives
  | some n =>
    replace arrives := arrives_view_bind arrives
    rw [if_neg (silent n rfl)] at arrives
    exact arrives

theorem closeIndex_arrives {number : Option Nat} {r : Except Fault Unit}
    (arrives : (whenPresent number VectorIndex.close).Arrives (.recorded around) (m, log) r t)
    (shut : ∀ n, number = some n → (m.index n).isOpen = false) :
    r = .ok () ∧ t = (m, log) := by
  cases number with
  | none => exact arrives
  | some n =>
    replace arrives := arrives_view_bind arrives
    rw [if_neg (by rw [shut n rfl]; nofun)] at arrives
    exact arrives

/-- A facade with new parts closes without a fault, and asks for nothing. -/
theorem close_arrives {g r : Nat} (furnished : m.Furnished g r) {result : Except Fault Unit}
    (arrives : close.Arrives (.recorded around) (m, log) result t) :
    result = .ok () ∧ t.1.facade.connected = false ∧ t.2 = log := by
  replace arrives := arrives_view_bind arrives
  rcases arrives_bind.mp arrives with ⟨_, stops, rfl⟩ | ⟨_, _, stops, arrives⟩
  · cases (stopScheduler_arrives stops furnished.idle).1
  obtain ⟨_, coordinators, rfl⟩ := stopScheduler_arrives stops furnished.idle
  rcases arrives_bind.mp arrives with ⟨_, closes, rfl⟩ | ⟨_, _, closes, arrives⟩
  · cases (closeCompletion_arrives closes furnished.silent).1
  obtain ⟨_, rfl⟩ := closeCompletion_arrives closes furnished.silent
  rcases arrives_bind.mp arrives with ⟨_, closes, rfl⟩ | ⟨_, _, closes, arrives⟩
  · cases (closeIndex_arrives closes furnished.shut).1
  obtain ⟨_, rfl⟩ := closeIndex_arrives closes furnished.shut
  rw [furnished.graph] at arrives
  obtain ⟨_, rfl, arrives⟩ := arrives
  obtain ⟨rfl, rfl⟩ := note_arrives arrives
  exact ⟨rfl, rfl, rfl⟩

end Facade

/-- What is heard when a population is read, and what it amounts to. -/
inductive Registry.Reads : List Event → Except Fault (List ClassEntity × List MethodEntity) → Prop
  | stopped {first fault} : read .allClasses (.dict []) first = .error fault → Reads [asked .allClasses .null first] (.error fault)
  | whole {first second records found} : read .allClasses (.dict []) first = .ok records → population first second = found →
      Reads [asked .allClasses .null first, asked .allMethods .null second] found

section Readings

theorem Value.given_civil (record : Value) (key : String) (other : Value) : Civil (record.given key other) :=
  (record.getD_civil key .null).bind fun _ => .ok _

theorem sortOfRecord_civil (v : Value) : Civil (sortOfRecord v) := (Value.text_civil _ _).bind fun _ => .ok _

theorem ClassEntity.ofRecord_civil (record : Value) : Civil (ofRecord record) := by
  refine (record.getD_civil "name" _).bind fun name => (record.given_civil _ _).bind fun full => ?_
  refine (record.given_civil _ _).bind fun id => (record.getD_civil "type" _).bind fun kind => ?_
  refine (sortOfRecord_civil kind).bind fun sort => (record.given_civil _ _).bind fun methods => ?_
  refine methods.elements_civil.bind fun names => (record.given_civil _ _).bind fun _ => (record.given_civil _ _).bind fun _ => ?_
  refine (record.given_civil _ _).bind fun _ => (record.given_civil _ _).bind fun _ => ?_
  exact (record.getD_civil "description" _).bind fun _ => (record.getD_civil "super_class" _).bind fun _ => .ok _

theorem MethodEntity.ofRecord_civil (record : Value) : Civil (ofRecord record) := by
  refine (record.getD_civil "name" _).bind fun name => (record.given_civil _ _).bind fun signature => ?_
  refine (record.given_civil _ _).bind fun id => (record.given_civil _ _).bind fun types => ?_
  refine types.elements_civil.bind fun names => (record.given_civil _ _).bind fun _ => (record.given_civil _ _).bind fun _ => ?_
  refine (record.given_civil _ _).bind fun _ => (record.given_civil _ _).bind fun _ => (record.given_civil _ _).bind fun _ => ?_
  exact (record.getD_civil "description" _).bind fun _ => (record.given_civil _ _).bind fun _ => .ok _

theorem Registry.population_civil {first second : Except Fault Table} (one : Civil first) (other : Civil second) :
    Civil (population first second) := by
  refine (read_civil _ _ one).bind fun classRecords => (read_civil _ _ other).bind fun methodRecords => ?_
  exact (Civil.mapM ClassEntity.ofRecord_civil).bind fun _ => (Civil.mapM MethodEntity.ofRecord_civil).bind fun _ => .ok _

end Readings

namespace Registry

variable {g r : Nat}

/-- Reading a population asks for the classes, and for the methods unless the classes cannot be read. -/
theorem fetch_arrives (plain : Plain around) (link : (m.registry r).graph = some g) (client : (m.graph g).connected = true)
    {found : Except Fault (List ClassEntity × List MethodEntity)}
    (arrives : (fetch r).Arrives (.recorded around) (m, log) found t) :
    ∃ reads, Reads reads found ∧ Civil found ∧ t = (m, log ++ reads) := by
  have asks {statement : Statement} {records : Except Fault (List Value)} {log : List Event} {t : Memory × List Event}
      (sent : (run g statement).Arrives (.recorded around) (m, log) records t) :
      ∃ reply, Civil reply ∧ records = GraphClient.read statement (.dict []) reply ∧
        t = (m, log ++ [asked statement .null reply]) := by
    rcases send_takes sent with ⟨closed, _⟩ | ⟨_, reply, admitted, read, rfl⟩
    · cases client.symm.trans closed
    · exact ⟨reply, plain.civil _ _ admitted, read, rfl⟩
  replace arrives := arrives_view_bind arrives
  rw [link] at arrives
  rcases arrives_bind.mp arrives with ⟨fault, sent, rfl⟩ | ⟨classRecords, _, sent, arrives⟩
  · obtain ⟨first, civil, failed, rfl⟩ := asks sent
    exact ⟨_, .stopped failed.symm, .error (read_civil _ _ civil fault failed.symm), rfl⟩
  obtain ⟨first, civil, read, rfl⟩ := asks sent
  have whole {second : Except Fault Table} (civil' : Civil second) (same : found = population first second)
      (place : t = (m, log ++ [asked .allClasses .null first] ++ [asked .allMethods .null second])) :
      ∃ reads, Reads reads found ∧ Civil found ∧ t = (m, log ++ reads) := by
    subst same
    exact ⟨_, .whole read.symm rfl, population_civil civil civil', by rw [place, List.append_assoc]; rfl⟩
  rcases arrives_bind.mp arrives with ⟨fault, sent, rfl⟩ | ⟨methodRecords, _, sent, arrives⟩
  · obtain ⟨second, civil', failed, rfl⟩ := asks sent
    refine whole civil' ?_ rfl
    simp only [population, ← read, ← failed, Bind.bind, Except.bind]
  obtain ⟨second, civil', read', rfl⟩ := asks sent
  have made : found = (do
      let classes ← classRecords.mapM ClassEntity.ofRecord
      let methods ← methodRecords.mapM MethodEntity.ofRecord
      return (classes, methods)) ∧ t = (m, log ++ [asked .allClasses .null first] ++ [asked .allMethods .null second]) := by
    rcases arrives_bind.mp arrives with ⟨fault, ⟨made, rfl⟩, rfl⟩ | ⟨classes, _, ⟨made, rfl⟩, arrives⟩
    · exact ⟨by rw [← made]; rfl, rfl⟩
    rcases arrives_bind.mp arrives with ⟨fault, ⟨made', rfl⟩, rfl⟩ | ⟨methods, _, ⟨made', rfl⟩, rfl, rfl⟩
    · exact ⟨by rw [← made, ← made']; rfl, rfl⟩
    · exact ⟨by rw [← made, ← made']; rfl, rfl⟩
  refine whole civil' ?_ made.2
  rw [made.1]
  simp only [population, ← read, ← read', Bind.bind, Except.bind]

end Registry

/-- What is made of reading a population: the numbers of its classes and methods. -/
def sizes (found : Except Fault (List ClassEntity × List MethodEntity)) : Except Fault (Nat × Nat) :=
  found.map fun p => (p.1.length, p.2.length)

theorem Memory.Furnished.load {g r : Nat} (furnished : m.Furnished g r) (classes : List ClassEntity)
    (methods : List MethodEntity) : (m.onRegistry r (Registry.load classes methods)).Furnished g r := by
  have link : ((m.onRegistry r (Registry.load classes methods)).registry r).graph = (m.registry r).graph :=
    part_modify_same (p := Registry.graph) fun _ => rfl
  exact { furnished with link := link.trans furnished.link }

namespace Facade

/-- What is told about the ingestion is told of the time that the clock shows. -/
theorem status_arrives (connected : m.facade.connected = true) {r : Except Fault Status}
    (arrives : status.Arrives (Regime.recorded around).clocked (m, log) r t) :
    ∃ time status, r = .ok status ∧ t = (m, log ++ [.granted .now (.ok time)]) := by
  unfold status at arrives
  rw [required_bind] at arrives
  obtain ⟨_, rfl, arrives⟩ := arrives
  beta_reduce at arrives
  rw [if_pos connected] at arrives
  obtain ⟨_, rfl, reply, _, ⟨⟨_, rfl⟩, timely⟩, arrives⟩ := arrives
  cases reply with
  | error => exact timely.elim
  | ok time =>
    obtain ⟨rfl, rfl⟩ := arrives
    exact ⟨time, _, rfl, rfl⟩

variable {g n : Nat}

theorem healthCheck_arrives (plain : Plain around) (furnished : m.Furnished g n) {r : Except Fault Bool}
    (arrives : healthCheck.Arrives (.recorded around) (m, log) r t) :
    ∃ probe, r = .ok (read .probe (.dict []) probe).isOk ∧ t = (m, log ++ [asked .probe .null probe]) := by
  unfold healthCheck at arrives
  rw [required_bind] at arrives
  obtain ⟨_, rfl, arrives⟩ := arrives
  beta_reduce at arrives
  rw [if_pos furnished.connected, furnished.graph] at arrives
  rcases healthCheck_takes plain furnished.present arrives with ⟨closed, _⟩ | ⟨probe, rfl, ⟨_, rfl⟩ | ⟨closed, _⟩⟩
  · cases furnished.client.symm.trans closed
  · exact ⟨probe, rfl, rfl⟩
  · cases furnished.client.symm.trans closed

theorem refresh_arrives (plain : Plain around) (furnished : m.Furnished g n) {r : Except Fault (Nat × Nat)}
    (arrives : refresh.Arrives (.recorded around) (m, log) r t) :
    ∃ reads found, Registry.Reads reads found ∧ Civil found ∧ t.2 = log ++ reads ∧ r = sizes found ∧ t.1.Furnished g n := by
  unfold refresh at arrives
  rw [required_bind] at arrives
  obtain ⟨_, rfl, arrives⟩ := arrives
  beta_reduce at arrives
  rw [if_pos furnished.connected, furnished.registry] at arrives
  change (Registry.refresh n).Arrives _ _ _ _ at arrives
  rw [Registry.refresh_eq] at arrives
  obtain ⟨found, _, fetched, kept⟩ := arrives_andThen.mp arrives
  obtain ⟨reads, read, civil, rfl⟩ := Registry.fetch_arrives plain furnished.link furnished.client fetched
  refine ⟨reads, found, read, civil, ?_⟩
  cases found with
  | error fault =>
    obtain ⟨rfl, rfl⟩ := kept
    exact ⟨rfl, rfl, furnished⟩
  | ok population =>
    obtain ⟨_, rfl, rfl, rfl⟩ := kept
    exact ⟨rfl, rfl, furnished.load _ _⟩

end Facade

namespace Command

/-- What precedes a command's own work: its settings are read, and the facade connects. -/
def joining (env : Environment) (config : Option String) : Routine Unit := do
  let s ← settings env config
  Facade.note fun f => { f with settings := s }
  Facade.connect env

/-- What a report on the ingestion and the graph is made from. -/
def looking : Routine (List (String × Value)) := do
  let status ← Facade.status
  let healthy ← Facade.healthCheck
  let entities ← Facade.refresh
  return reportFields status healthy entities

theorem status_eq (env : Environment) (config : Option String) : status env config =
    reporting "Error reading status" (do
      let s ← settings env config
      let fields ← withGraph env s looking
      return .success ((Value.record fields).indented ++ "\n")) := rfl

/-- The report is made when a population can be read, whether the probe before it succeeds or not. -/
theorem looking_arrives (plain : Plain around) {g n : Nat} (furnished : m.Furnished g n) {r : Except Fault (List (String × Value))}
    (arrives : looking.Arrives (Regime.recorded around).clocked (m, log) r t) :
    ∃ time status probe reads found, Registry.Reads reads found ∧ Civil found ∧
      t.2 = log ++ .granted .now (.ok time) :: asked .probe .null probe :: reads ∧
      r = (sizes found).map (reportFields status (read .probe (.dict []) probe).isOk) ∧ t.1.Furnished g n := by
  rcases arrives_bind.mp arrives with ⟨_, told, rfl⟩ | ⟨status, _, told, arrives⟩
  · obtain ⟨_, _, ⟨⟩, _⟩ := Facade.status_arrives furnished.connected told
  obtain ⟨time, _, _, rfl⟩ := Facade.status_arrives furnished.connected told
  rcases arrives_bind.mp arrives with ⟨_, checks, rfl⟩ | ⟨healthy, _, checks, arrives⟩
  · obtain ⟨_, ⟨⟩, _⟩ := Facade.healthCheck_arrives plain furnished checks.of_clocked
  obtain ⟨probe, ⟨⟩, rfl⟩ := Facade.healthCheck_arrives plain furnished checks.of_clocked
  obtain ⟨entities, u, refreshes, ends⟩ := arrives_andThen.mp arrives
  obtain ⟨reads, found, read, civil, heard, rfl, kept⟩ := Facade.refresh_arrives plain furnished refreshes.of_clocked
  have ended : r = (sizes found).map (reportFields status (GraphClient.read .probe (.dict []) probe).isOk) ∧ t = u := by
    cases found with
    | error | ok => exact ends
  obtain ⟨rfl, rfl⟩ := ended
  exact ⟨time, status, probe, reads, found, read, civil, by simpa using heard, rfl, kept⟩

/-- Reading the settings changes nothing. -/
theorem settings_arrives {env : Environment} {config : Option String} {r : Except Fault Settings}
    (arrives : (settings env config).Arrives (.recorded around) (m, log) r t) : t.1 = m := by
  have load (path : String) (arrives : (Settings.load env path).Arrives (.recorded around) (m, log) r t) : t.1 = m := by
    rcases arrives_query_bind arrives with ⟨_, _, _, rfl⟩ | ⟨content, _, arrives⟩
    · rfl
    · cases content with
      | missing | directory | bytes =>
        obtain ⟨_, rfl⟩ := arrives
        rfl
  unfold settings at arrives
  split at arrives
  · obtain ⟨_, rfl⟩ := arrives
    rfl
  · obtain ⟨_, rfl⟩ := arrives
    rfl
  · exact load _ arrives

/-- How a command that reports the status ends, by what is heard once the graph is connected. -/
inductive Reports : List Event → Ending → Prop
  | shown {time status probe reads classes methods} : Registry.Reads reads (.ok (classes, methods)) →
      Reports (.granted .now (.ok time) :: asked .probe .null probe :: reads) (.success ((Value.record (reportFields status
        (read .probe (.dict []) probe).isOk (classes.length, methods.length))).indented ++ "\n"))
  | refused {time probe reads fault} : Registry.Reads reads (.error fault) →
      Reports (.granted .now (.ok time) :: asked .probe .null probe :: reads)
        (.refusal ("Error reading status: " ++ fault.message))

/-- Work with a connected graph, where connecting ends well: afterwards the graph is closed, and nothing is asked for
that. -/
theorem withGraph_arrives (plain : Plain around) {env : Environment} {config : Option String} {s : Settings} {m₁ : Memory}
    (apart : m.facade.connected = false)
    (joins : (joining env config).Comes (Regime.recorded around).clocked (m, []) fun r _ => r = .ok ())
    (reads : (settings env config).Arrives (Regime.recorded around).clocked (m, []) (.ok s) (m₁, log))
    {r : Except Fault (List (String × Value))}
    (arrives : (withGraph env s looking).Arrives (Regime.recorded around).clocked (m₁, log) r t) :
    ∃ u begun time status probe reads found, (joining env config).Arrives (Regime.recorded around).clocked (m, []) (.ok ()) (u, begun) ∧
      Registry.Reads reads found ∧ Civil found ∧ t.2 = begun ++ .granted .now (.ok time) :: asked .probe .null probe :: reads ∧
      r = (sizes found).map (reportFields status (read .probe (.dict []) probe).isOk) ∧ t.1.facade.connected = false := by
  obtain rfl : m₁ = m := settings_arrives reads.of_clocked
  rcases arrives_bind.mp arrives with ⟨_, notes, rfl⟩ | ⟨_, _, notes, arrives⟩
  · cases (Facade.note_arrives notes.of_clocked).1
  obtain ⟨_, rfl⟩ := Facade.note_arrives notes.of_clocked
  rcases arrives_bind.mp arrives with ⟨_, connects, rfl⟩ | ⟨_, ⟨u, begun⟩, connects, arrives⟩
  · cases joins.2 _ _ (reads.seq (notes.seq connects))
  obtain ⟨g, n, furnished⟩ := Facade.connect_furnishes plain connects.of_clocked apart
  obtain ⟨result, ⟨u', log'⟩, looks, ends⟩ := arrives_andThen.mp arrives
  obtain ⟨time, status, probe, heard, found, reading, civil, rfl, rfl, kept⟩ := looking_arrives plain furnished looks
  rcases arrives_bind.mp ends with ⟨_, closes, rfl⟩ | ⟨_, _, closes, rfl, rfl⟩
  · cases (Facade.close_arrives kept closes.of_clocked).1
  obtain ⟨_, closed, same⟩ := Facade.close_arrives kept closes.of_clocked
  exact ⟨u, begun, time, status, probe, heard, found, reads.seq (notes.seq connects), reading, civil, same, rfl, closed⟩

/-- A command that reports the status, for settings that connect: however the graph behaves afterwards, it ends. It
shows a report that tells whether the probe has succeeded, but only when the population can be read, too; and the
graph is closed in any case. -/
theorem status_reports (plain : Plain around) {env : Environment} {config : Option String} (apart : m.facade.connected = false)
    (joins : (joining env config).Comes (Regime.recorded around).clocked (m, []) fun r _ => r = .ok ()) :
    (status env config).Comes (Regime.recorded around).clocked (m, []) fun r t => ∃ begun later ending u,
      (joining env config).Arrives (Regime.recorded around).clocked (m, []) (.ok ()) (u, begun) ∧ t.2 = begun ++ later ∧
      Reports later ending ∧ r = .ok ending ∧ t.1.facade.connected = false := by
  refine ⟨exists_arrives plain.answers _ _, fun r t arrives => ?_⟩
  rw [status_eq] at arrives
  obtain ⟨mid, t', first, handled⟩ := arrives_andThen.mp arrives
  rcases arrives_bind.mp first with ⟨_, fails, rfl⟩ | ⟨s, ⟨m₁, log₁⟩, reads, first⟩
  · cases joins.2 _ _ (fails.stop _)
  obtain ⟨result, u', works, shows⟩ := arrives_andThen.mp first
  obtain ⟨u, begun, time, status, probe, heard, found, joined, reading, civil, log, rfl, closed⟩ :=
    withGraph_arrives plain apart joins reads works
  cases found with
  | ok population =>
    obtain ⟨rfl, rfl⟩ := shows
    obtain ⟨rfl, rfl⟩ := handled
    exact ⟨begun, _, _, u, joined, log, .shown reading, rfl, closed⟩
  | error fault =>
    obtain ⟨rfl, rfl⟩ := shows
    dsimp only at handled
    rw [if_pos (civil fault rfl)] at handled
    obtain ⟨rfl, rfl⟩ := handled
    exact ⟨begun, _, _, u, joined, log, .refused reading, rfl, closed⟩

/-- What a routine that needs nothing of the loop comes to when every question is answered in one way. -/
def outcome? {α : Type} (answers : (question : Ask) → Except Fault question.Reply) : Routine α → Memory → Option (Except Fault α)
  | .done result, _ => some result
  | .look next, m => outcome? answers (next m) m
  | .store m next, _ => outcome? answers next m
  | .ask question next, m => outcome? answers (next (answers question)) m
  | .control .., _ => none

/-- What is computed beforehand is what happens. -/
theorem comes_of_outcome? (answers : (question : Ask) → Except Fault question.Reply) {p : Routine Unit}
    (only : ∀ question reply, around question reply ↔ reply = answers question)
    (outcome : (outcome? answers p m).map Except.isOk = some true) :
    p.Comes (Regime.recorded around).clocked (m, log) fun r _ => r = .ok () := by
  refine ⟨exists_arrives (fun question => ⟨_, (only question _).mpr rfl⟩) _ _, fun r t arrives => ?_⟩
  replace arrives := arrives.of_clocked
  induction p generalizing m log with
  | done result =>
    obtain ⟨rfl, _⟩ := arrives
    cases r with
    | ok => rfl
    | error => cases outcome
  | look next ih =>
    obtain ⟨_, rfl, arrives⟩ := arrives
    exact ih _ outcome arrives
  | store m next ih => exact ih outcome arrives
  | ask question next ih =>
    obtain ⟨reply, _, ⟨admitted, rfl⟩, arrives⟩ := arrives
    obtain rfl := (only question reply).mp admitted
    exact ih _ outcome arrives
  | control => cases outcome

/-- A graph that can be opened, and does not answer from then on. -/
def dropped : (question : Ask) → Except Fault question.Reply
  | .openGraph .. => .ok ()
  | .selectGraph _ => .ok ()
  | .hasAccelerator => .ok false
  | _ => .error (.foreign .connection (some "down"))

/-- The graph answers in no other way. -/
def Drops (question : Ask) (reply : Except Fault question.Reply) : Prop := reply = dropped question

/-- When the graph is lost after connecting, the status is not reported, although the probe may fail without harm. -/
theorem status_reports_dropped : (status ⟨[]⟩ none).Comes (Regime.recorded Drops).clocked (default, []) fun r t =>
    r = .ok (.refusal "Error reading status: down") ∧ t.1.facade.connected = false := by
  have plain : Plain Drops := by
    refine ⟨fun question => ⟨_, rfl⟩, ?_⟩
    rintro question _ rfl
    cases question <;> first | exact .ok _ | exact .error rfl
  have joins : (joining ⟨[]⟩ none).Comes (Regime.recorded Drops).clocked (default, []) fun r _ => r = .ok () :=
    comes_of_outcome? dropped (fun _ _ => Iff.rfl) (by decide +kernel)
  have apart : (default : Memory).facade.connected = false := rfl
  generalize (⟨[]⟩ : Environment) = env, (default : Memory) = m at joins apart ⊢
  refine ⟨exists_arrives plain.answers _ _, fun r t arrives => ?_⟩
  obtain ⟨begun, later, ending, u, _, heard, reports, rfl, closed⟩ := (status_reports plain apart joins).2 r t arrives
  refine ⟨?_, closed⟩
  have unread {first : Except Fault Table} (inside : asked .allClasses .null first ∈ later) :
      read .allClasses (.dict []) first = .error (.foreign .connection (some "down")) := by
    have told : asked .allClasses .null first ∈ t.2 := heard ▸ List.mem_append_right _ inside
    obtain rfl := (arrives.of_clocked.admitted _ _ told).elim nofun id
    rfl
  cases reports with
  | shown reads =>
    cases reads with
    | whole read => cases (unread (.tail _ (.tail _ (.head _)))).symm.trans read
  | refused reads =>
    cases reads with
    | stopped failed =>
      cases (unread (.tail _ (.tail _ (.head _)))).symm.trans failed
      rfl
    | whole read => cases (unread (.tail _ (.tail _ (.head _)))).symm.trans read

end Command

end CodeAtlas
