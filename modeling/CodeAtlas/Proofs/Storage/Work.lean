import CodeAtlas.Command
import CodeAtlas.Proofs.Crew.Founding
import CodeAtlas.Proofs.Ingestion.Work
import CodeAtlas.Proofs.Retrieval.Indexing
import CodeAtlas.Proofs.Storage.Names

namespace CodeAtlas

open Routine

/-- The collections of a deployment. -/
def DeploymentNames.Has (names : DeploymentNames) (collection : Value) : Prop :=
  collection = names.classCollection ∨ collection = names.methodCollection

/-- The graph that nobody named is selected, and nothing is written but in collections of a deployment. -/
def Charter.storage (names : DeploymentNames) : Charter where
  keeps m := names.Has (m.index 0).settings.classCollection ∧ names.Has (m.index 0).settings.methodCollection ∧
    ∀ n p, (m.coordinator n).stages = .pipeline p → p.index = 0
  asks
    | .selectGraph name => name = .str "astkg_dev"
    | .createCollection collection _ => names.Has collection
    | .upsert collection _ => names.Has collection
    | _ => True
  requests _ := True

variable {names : DeploymentNames}

theorem Memory.Aside.storage {m m' : Memory} (aside : m.Aside m') (keeps : (Charter.storage names).keeps m) :
    (Charter.storage names).keeps m' := by
  have same : ∀ n, m'.coordinator n = m.coordinator n := fun n => by
    rw [Memory.coordinator, Memory.coordinator, aside.coordinators]
  obtain ⟨classes, methods, pipelines⟩ := keeps
  rw [← aside.settings 0] at classes methods
  exact ⟨classes, methods, fun n p stages => pipelines n p (same n ▸ stages)⟩

/-- The stages of the coordinators stay. -/
theorem Memory.stages_onCoordinator (m : Memory) (n i : Nat) {f : Coordinator → Coordinator} (same : ∀ x, (f x).stages = x.stages) :
    ((m.onCoordinator n f).coordinator i).stages = (m.coordinator i).stages := part_modify_same same

theorem Charter.storage_hosts (names : DeploymentNames) : (Charter.storage names).remit.Hosts where
  asks question mild := by cases question <;> trivial
  aside _ _ aside := aside.storage
  requests _ _ := trivial

theorem Charter.storage_reads (names : DeploymentNames) : (Charter.storage names).remit.Reads where
  toHosts := storage_hosts names
  loads _ _ _ _ keeps := keeps

theorem Charter.storage_indexes (names : DeploymentNames) (embedding : Nat) : (Charter.storage names).Indexes 0 embedding where
  opens _ _ := trivial
  lists := trivial
  loads _ _ := trivial
  encodes _ _ _ _ := trivial
  opened m keeps := by
    have settings := m.settings_onIndex 0 0 (f := fun i => { i with isOpen := true }) fun _ => rfl
    obtain ⟨classes, methods, pipelines⟩ := keeps
    rw [← settings] at classes methods
    exact ⟨classes, methods, pipelines⟩
  loaded _ keeps := keeps

/-- The vectors go to the collections that the index names. -/
theorem vectorize_storage (graph embedding : Nat) : (vectorize graph 0 embedding).Minds (Charter.storage names).remit := by
  have indexes := Charter.storage_indexes names embedding
  have hosts := Charter.storage_hosts names
  refine hosts.now.bind fun start => Minds.look fun m keeps => ?_
  have ensures : ∀ {collection}, names.Has collection → (VectorIndex.ensureCollection 0 collection).Minds (Charter.storage names).remit :=
    fun has => (VectorIndex.ensureCollection_abides indexes fun _ _ => has).minds
  have writes : ∀ {kind collection} records, names.Has collection →
      (VectorIndex.writeRecords 0 embedding kind collection records).Minds (Charter.storage names).remit :=
    fun records has => (VectorIndex.writeRecords_abides indexes fun _ _ => has).minds
  refine (ensures keeps.2.1).bind fun _ => (ensures keeps.1).bind fun _ => ?_
  refine (hosts.send graph _ _).bind fun methodRecords => (writes _ keeps.2.1).bind fun methods => ?_
  refine (hosts.send graph _ _).bind fun classRecords => (writes _ keeps.1).bind fun classes => ?_
  exact hosts.now.bind fun stop => .pure _

/-- A run keeps to the storage that its index names. -/
theorem Charter.storage_carries (names : DeploymentNames) : (Charter.storage names).remit.Carries where
  toHosts := storage_hosts names
  change m n _ stages keeps :=
    ⟨keeps.1, keeps.2.1, fun i p own => keeps.2.2 i p ((m.stages_onCoordinator n i stages).symm.trans own)⟩
  all _ := trivial
  vectorize _ n p keeps own := keeps.2.2 n p own ▸ vectorize_storage p.graph p.embedding

namespace Facade

theorem change_storage {f : Memory → Memory} (coordinators : ∀ m, (f m).coordinators = m.coordinators)
    (indexes : ∀ m, (f m).indexes = m.indexes) : (change f).Minds (Charter.storage names).remit := by
  refine .change fun m keeps => ?_
  have same : (f m).index 0 = m.index 0 := by rw [Memory.index, Memory.index, indexes m]
  obtain ⟨classes, methods, pipelines⟩ := keeps
  rw [← same] at classes methods
  refine ⟨classes, methods, fun n p stages => pipelines n p ?_⟩
  rwa [Memory.coordinator, coordinators m] at stages

theorem note_storage (f : Facade → Facade) : (note f).Minds (Charter.storage names).remit :=
  change_storage (fun _ => rfl) fun _ => rfl

theorem close_storage : close.Minds (Charter.storage names).remit := by
  have hosts := Charter.storage_hosts names
  have client : ∀ n, (GraphClient.close n).Minds (Charter.storage names).remit :=
    fun n => change_storage (fun _ => rfl) fun _ => rfl
  refine (Minds.view _).bind fun f => (whenPresent_minds (Charter.storage_carries names).stopScheduler).bind fun _ => ?_
  refine (whenPresent_minds hosts.closeService).bind fun _ => (whenPresent_minds hosts.closeIndex).bind fun _ => ?_
  exact (whenPresent_minds client).bind fun _ => note_storage _

/-- A coordinator is added whose pipeline writes to the first index. -/
theorem newCoordinator_storage (s : IngestionSettings) {p : Pipeline} (first : p.index = 0) :
    (newCoordinator s p).Minds (Charter.storage names).remit := by
  refine Minds.bind ?_ fun _ => note_storage _
  intro m found
  refine ⟨fun keeps => ⟨keeps.1, keeps.2.1, fun n q stages => ?_⟩, trivial⟩
  simp only [Memory.coordinator, part_snoc] at stages
  split at stages
  · cases stages
    exact first
  · exact keeps.2.2 n q stages

theorem newPipeline_index {s : IngestionSettings} {graph index embedding completion : Nat} {p : Pipeline}
    (made : newPipeline s graph index embedding completion = .ok p) : p.index = index := by
  obtain ⟨_, _, made⟩ := exists_of_bind_ok made
  obtain ⟨_, _, made⟩ := exists_of_bind_ok made
  obtain ⟨_, _, made⟩ := exists_of_bind_ok made
  obtain ⟨_, _, made⟩ := exists_of_bind_ok made
  cases made
  rfl

end Facade

end CodeAtlas
