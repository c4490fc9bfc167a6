import CodeAtlas.Proofs.Ingestion.Work

namespace CodeAtlas

open Routine

/-- What a caller does who uses one facade, in any order and with any pauses. -/
inductive Facade.User : Routine Yield → Prop
  | done {result} : User (.done result)
  | connect {env f} : (∀ answer, User (f answer)) → User ((connect env).andThen f)
  | close {f} : (∀ answer, User (f answer)) → User (close.andThen f)
  | healthCheck {f} : (∀ answer, User (f answer)) → User (healthCheck.andThen f)
  | trigger {f} : (∀ answer, User (f answer)) → User (trigger.andThen f)
  | runIngestion {f} : (∀ answer, User (f answer)) → User (runIngestion.andThen f)
  | status {f} : (∀ answer, User (f answer)) → User (status.andThen f)
  | startScheduler {f} : (∀ answer, User (f answer)) → User (startScheduler.andThen f)
  | refresh {f} : (∀ answer, User (f answer)) → User (refresh.andThen f)
  | analyze {query usePrefilter f} : (∀ answer, User (f answer)) → User ((analyze query usePrefilter).andThen f)
  | pause {seconds f} : (∀ answer, User (f answer)) → User ((Routine.request (.pause seconds)).andThen f)

section Beside

variable {m m' : Memory}

/-- What is changed beside the coordinators, and is no change of the coordinator that the facade has. -/
theorem Memory.Beside.of_same (coordinators : m'.coordinators = m.coordinators)
    (linked : m'.facade.coordinator = m.facade.coordinator)
    (connected : m'.facade.connected = true → m.facade.connected = true) : m.Beside m' := by
  have same : ∀ n, m'.coordinator n = m.coordinator n := fun n => by
    rw [Memory.coordinator, Memory.coordinator, coordinators]
  refine ⟨fun n => by rw [same], fun n t plans => same n ▸ plans, Nat.le_of_eq (by rw [coordinators]), ?_⟩
  rintro ⟨there, joined⟩
  exact ⟨by rwa [linked, coordinators], fun now => linked ▸ joined (connected now)⟩

/-- A coordinator with nothing under way is added. -/
theorem Memory.Beside.add {new : Coordinator} (run : new.run = default) (scheduler : new.scheduler = none) :
    m.Beside { m with coordinators := m.coordinators ++ [new] } := by
  have either : ∀ n, ({ m with coordinators := m.coordinators ++ [new] } : Memory).coordinator n = m.coordinator n ∨
      ({ m with coordinators := m.coordinators ++ [new] } : Memory).coordinator n = new ∧ m.coordinator n = default := by
    intro n
    simp only [Memory.coordinator, part_snoc]
    split
    next last => exact .inr ⟨rfl, by rw [part, List.getElem?_eq_none (Nat.le_of_eq last.symm), Option.getD_none]⟩
    next => exact .inl rfl
  refine ⟨fun n => ?_, fun n t plans => ?_, by simp, fun joined => ⟨fun n linked => ?_, joined.joined⟩⟩
  · rcases either n with same | ⟨added, before⟩
    · rw [same]
    · rw [added, before, run]
      rfl
  · rcases either n with same | ⟨added, _⟩
    · rwa [same] at plans
    · rw [added, scheduler] at plans
      cases plans
  · have there := joined.there n linked
    simp only [List.length_append, List.length_singleton]
    omega

/-- The facade takes the coordinator that was added last. -/
theorem Memory.Beside.link {f : Facade → Facade} {n : Nat} (there : n < m.coordinators.length)
    (linked : (f m.facade).coordinator = some n) : m.Beside (m.onFacade f) := by
  refine ⟨fun _ => rfl, fun _ _ => id, Nat.le_refl _, fun _ => ⟨fun i link => ?_, fun _ => ?_⟩⟩
  · cases linked.symm.trans link
    exact there
  · exact Option.isSome_iff_exists.mpr ⟨n, linked⟩

end Beside

namespace Facade

theorem note_minds {f : Facade → Facade} (linked : ∀ x, (f x).coordinator = x.coordinator)
    (connected : ∀ x, (f x).connected = true → x.connected = true) : (note f).Minds .beside :=
  .change fun _ => .of_same rfl (linked _) (connected _)

theorem add_minds {α : Type} {parts : Memory → List α} {put : List α → Memory → Memory} {new : α}
    (coordinators : ∀ xs m, (put xs m).coordinators = m.coordinators) (facade : ∀ xs m, (put xs m).facade = m.facade) :
    (add parts put new).Minds .beside := by
  refine (Minds.view _).bind fun present => Minds.bind (.change fun m => ?_) fun _ => .pure _
  exact .of_same (coordinators _ m) (by rw [facade]) (by rw [facade]; exact id)

theorem connectClient_minds (graph : Nat) : (GraphClient.connect graph).Minds .beside := by
  have opens : ∀ host port password, (query (.openGraph host port password)).Minds .beside := fun _ _ _ => .query trivial
  have selects : ∀ name, (query (.selectGraph name)).Minds .beside := fun _ => .query trivial
  refine (Minds.view _).bind fun client => .ite (fun _ => .pure _) fun _ => (opens _ _ _).bind fun _ => ?_
  exact (selects _).bind fun _ => .change fun _ => .of_same rfl rfl id

theorem connectGraph_minds (settings : GraphSettings) : (connectGraph settings).Minds .beside := by
  refine Minds.bind (add_minds (fun _ _ => rfl) fun _ _ => rfl) fun graph => ?_
  refine Minds.bind (note_minds (fun _ => rfl) fun _ => id) fun _ => ?_
  exact (connectClient_minds graph).bind fun _ => .pure _

theorem takeEmbedding_minds (env : Environment) (settings : EmbeddingSettings) :
    (takeEmbedding env settings).Minds .beside := by
  have shared : ∀ options, (EmbeddingService.sharedService env options).Minds .beside := by
    intro options
    have creates : (EmbeddingService.create env options).Minds .beside := by
      refine Minds.bind (.query trivial) fun accelerated => (Minds.ofExcept _).bind fun service => ?_
      exact (Minds.view _).bind fun n => Minds.bind (.change fun _ => .of_same rfl rfl id) fun _ => .pure _
    refine (Minds.view _).bind fun shared => ?_
    cases shared with
    | some n => exact .pure _
    | none => exact creates.bind fun n => Minds.bind (.change fun _ => .of_same rfl rfl id) fun _ => .pure _
  refine (Minds.ofExcept _).bind fun options => (shared options).bind fun embedding => ?_
  exact Minds.bind (note_minds (fun _ => rfl) fun _ => id) fun _ => .pure _

theorem newCompletion_minds (settings : CompletionSettings) : (newCompletion settings).Minds .beside := by
  refine Minds.bind (add_minds (fun _ _ => rfl) fun _ _ => rfl) fun _ => ?_
  exact Minds.bind (note_minds (fun _ => rfl) fun _ => id) fun _ => .pure _

theorem newRegistry_minds (graph : Nat) : (newRegistry graph).Minds .beside :=
  Minds.bind (add_minds (fun _ _ => rfl) fun _ _ => rfl) fun _ => note_minds (fun _ => rfl) fun _ => id

theorem newIndex_minds (settings : VectorSettings) (batchSize : Value) : (newIndex settings batchSize).Minds .beside := by
  refine (Minds.ofExcept _).bind fun _ => Minds.bind (add_minds (fun _ _ => rfl) fun _ _ => rfl) fun _ => ?_
  exact Minds.bind (note_minds (fun _ => rfl) fun _ => id) fun _ => .pure _

/-- The facade is connected as soon as it has its coordinator. -/
theorem joins_minds (s : IngestionSettings) (p : Pipeline) (f : Facade → Facade)
    (linked : ∀ x, (f x).coordinator = x.coordinator) :
    (newCoordinator s p >>= fun _ => note f).Minds .beside := by
  intro m _
  refine ⟨.add rfl rfl, .link (n := m.coordinators.length) ?_ rfl, .link (n := m.coordinators.length) ?_ (linked _), trivial⟩
  all_goals
    simp only [Memory.onFacade, List.length_append, List.length_singleton]
    exact Nat.lt_succ_self _

theorem connect_minds (env : Environment) : (connect env).Minds .beside := by
  refine (Minds.view _).bind fun f => .ite (fun _ => .pure _) fun _ => ?_
  refine (connectGraph_minds _).bind fun graph => (takeEmbedding_minds _ _).bind fun embedding => ?_
  refine (newCompletion_minds _).bind fun completion => (newRegistry_minds _).bind fun _ => ?_
  refine (newIndex_minds _ _).bind fun index => (Minds.ofExcept _).bind fun pipeline => ?_
  exact joins_minds _ _ _ fun _ => rfl

/-- All that is closed once the schedule has stopped. -/
theorem disconnect_minds (f : Facade) : (do
      whenPresent f.completion CompletionService.close
      whenPresent f.index VectorIndex.close
      whenPresent f.graph GraphClient.close
      note fun f => { f with connected := false } : Routine Unit).Minds .beside := by
  have client : ∀ n, (GraphClient.close n).Minds .beside := fun _ => .change fun _ => .of_same rfl rfl id
  refine (whenPresent_minds Remit.beside_hosts.closeService).bind fun _ => ?_
  refine (whenPresent_minds Remit.beside_hosts.closeIndex).bind fun _ => (whenPresent_minds client).bind fun _ => ?_
  exact note_minds (fun _ => rfl) fun _ => nofun

section Keeps

open Crew

variable {ω : Type} {w : World ω} {m : Memory} {k : Who} {c : Crew ω}

/-- What is done beside the runs is done in order. -/
theorem orderly {α : Type} {p : Routine α} (minds : p.Minds .beside) (on : c.OnTurn m k) :
    p.Keeps w (order ω m) k (fun _ c' => c'.OnTurn m k) c := by
  have frame : Upkeep w (order ω m) k .beside fun c => c.OnTurn m k ∧ True := OnTurn.frame w m k fun _ _ => trivial
  exact (minds.keeps frame ⟨on, trivial⟩).imp fun _ _ after => after.1

/-- A connected facade has a coordinator to work with. -/
theorem withCoordinator {α : Type} {p : Nat → Routine α}
    (keeps : ∀ n, c.Idles m n k → (p n).Keeps w (order ω m) k (fun _ c' => c'.OnTurn m k) c) (on : c.OnTurn m k) :
    (do p (number (← required).coordinator)).Keeps w (order ω m) k (fun _ c' => c'.OnTurn m k) c := by
  have looked : required.Keeps w (order ω m) k
      (fun result c' => c' = c ∧ ∀ f, result = .ok f → number f.coordinator < c.memory.coordinators.length) c := by
    unfold required
    rw [keeps_view_bind]
    split
    next connected =>
      refine ⟨rfl, ?_⟩
      rintro _ ⟨⟩
      obtain ⟨n, linked⟩ := Option.isSome_iff_exists.mp (on.regular.facade.joined connected)
      rw [linked]
      exact on.regular.facade.there n linked
    · exact ⟨rfl, nofun⟩
  refine looked.bind ?_ ?_
  · rintro f _ ⟨rfl, there⟩
    exact keeps _ ⟨on, there f rfl⟩
  · rintro fault _ ⟨rfl, _⟩
    exact on

theorem close_orderly (on : c.OnTurn m k) : close.Keeps w (order ω m) k (fun _ c' => c'.OnTurn m k) c := by
  unfold close
  rw [keeps_view_bind]
  have stops : (whenPresent c.memory.facade.coordinator Coordinator.stopScheduler).Keeps w (order ω m) k
      (fun _ c' => c'.OnTurn m k) c := by
    cases linked : c.memory.facade.coordinator with
    | none => exact on
    | some n =>
      exact ((Coordinator.order_conduct w m n k).stopScheduler Idles.stop ⟨on, on.regular.facade.there n linked⟩).imp
        fun _ _ after => after.1
  exact stops.bind (fun _ _ on => orderly (disconnect_minds _) on) fun _ _ on => on

theorem runIngestion_orderly (on : c.OnTurn m k) :
    runIngestion.Keeps w (order ω m) k (fun _ c' => c'.OnTurn m k) c := by
  refine withCoordinator (p := fun coordinator => do
    Coordinator.runPipeline coordinator
    let status ← Coordinator.status coordinator
    if isFresh status then let _ ← refresh
    return status) (fun n idles => ?_) on
  refine ((Coordinator.order_conduct w m n k).runPipeline idles).bind (fun _ _ idles => ?_) fun _ _ idles => idles.1
  have told := (Coordinator.order_conduct w m n k).waits (Coordinator.Conduct.status_minds n) idles
  refine told.bind (fun status _ idles => ?_) fun _ _ idles => idles.1
  split
  · exact (orderly (refresh_minds Remit.beside_reads) idles.1).bind (fun _ _ on => on) fun _ _ on => on
  · exact idles.1

/-- Users of a facade keep a crew in order, whatever they call in whatever order. -/
theorem User.orderly {program : Routine Yield} (calls : User program) (on : c.OnTurn m k) :
    program.Keeps w (order ω m) k ((order ω m).Closes k) c := by
  have conduct := fun n => Coordinator.order_conduct w m n k
  induction calls generalizing c with
  | done => exact on.closes
  | connect _ ih => exact (Facade.orderly (connect_minds _) on).andThen fun answer _ on => ih answer on
  | close _ ih => exact (close_orderly on).andThen fun answer _ on => ih answer on
  | healthCheck _ ih => exact (Facade.orderly (healthCheck_minds Remit.beside_hosts connectClient_minds) on).andThen fun answer _ on => ih answer on
  | trigger _ ih =>
    have keeps := withCoordinator (p := Coordinator.trigger)
      (fun n idles => ((conduct n).trigger idles).imp fun _ _ after => after.1) on
    exact keeps.andThen fun answer _ on => ih answer on
  | runIngestion _ ih => exact (runIngestion_orderly on).andThen fun answer _ on => ih answer on
  | status _ ih => exact (Facade.orderly (status_minds Remit.beside_hosts) on).andThen fun answer _ on => ih answer on
  | startScheduler _ ih =>
    have keeps := withCoordinator (p := Coordinator.startScheduler)
      (fun n idles => ((conduct n).startScheduler idles).imp fun _ _ after => after.1) on
    exact keeps.andThen fun answer _ on => ih answer on
  | refresh _ ih => exact (Facade.orderly (refresh_minds Remit.beside_reads) on).andThen fun answer _ on => ih answer on
  | analyze _ ih => exact (Facade.orderly (analyze_minds Remit.beside_reads _ _) on).andThen fun answer _ on => ih answer on
  | @pause seconds _ _ ih =>
    exact (Facade.orderly (Minds.request (c := .pause seconds) trivial) on).andThen fun answer _ on => ih answer on

end Keeps

open Crew in
/-- At any time a coordinator has one run in its stages at most, which is that of whoever has its lock. Two runs
at once belong to different coordinators, so that there are two only if a connection replaced the coordinator of
a run that went on. -/
theorem runs_apart {ω : Type} {w : World ω} {m : Memory} {world : ω} {hasLoop : Bool} {a : Shift ω} (resting : m.Resting)
    (reach : Shift.Reach w User m world hasLoop a) :
    (∀ n k stage, a.crew.stageBy n k = some stage → n < a.crew.memory.coordinators.length ∧ a.crew.owner n = some k ∧
      (a.crew.memory.coordinator n).run.locked = true ∧ (a.crew.memory.coordinator n).run.stage = some stage) ∧
    (∀ n j k, a.crew.stageBy n j ≠ none → a.crew.stageBy n k ≠ none → j = k) ∧
    (a.crew.memory.coordinators.length ≤ 1 → ∀ i n j k, a.crew.stageBy i j ≠ none → a.crew.stageBy n k ≠ none →
      i = n ∧ j = k) := by
  have regular := reach.regular (fun calls on => calls.orderly on) resting
  have recorded := reach.recorded resting.unlocked
  have shows : ∀ n k stage, a.crew.stageBy n k = some stage → a.crew.owner n = some k ∧
      (a.crew.memory.coordinator n).run.stage = some stage := by
    intro n k stage shown
    rw [regular.shown] at shown
    split at shown
    next own => exact ⟨own, shown⟩
    next => cases shown
  have present : ∀ n k stage, a.crew.stageBy n k = some stage → n < a.crew.memory.coordinators.length := by
    intro n k stage shown
    refine Nat.lt_of_not_le fun beyond => ?_
    have unset := (shows n k stage shown).2
    rw [Memory.coordinator, part, List.getElem?_eq_none beyond] at unset
    cases unset
  have alone : ∀ n j k, a.crew.stageBy n j ≠ none → a.crew.stageBy n k ≠ none → j = k := by
    intro n j k first second
    obtain ⟨_, first⟩ := Option.ne_none_iff_exists'.mp first
    obtain ⟨_, second⟩ := Option.ne_none_iff_exists'.mp second
    exact Option.some.inj ((shows n j _ first).1.symm.trans (shows n k _ second).1)
  refine ⟨fun n k stage shown => ?_, alone, fun single i n j k first second => ?_⟩
  · obtain ⟨own, stage⟩ := shows n k stage shown
    refine ⟨present n k _ shown, own, ?_, stage⟩
    rw [recorded.locked, own]
    rfl
  · obtain ⟨_, first'⟩ := Option.ne_none_iff_exists'.mp first
    obtain ⟨_, second'⟩ := Option.ne_none_iff_exists'.mp second
    have both : i = n := by
      have := present i j _ first'
      have := present n k _ second'
      omega
    subst both
    exact ⟨rfl, alone i j k first second⟩

end Facade

/-- A memory with a connected facade, whose coordinator has its stages carried out outside. -/
def Memory.attached : Memory :=
  { Memory.coordinated with facade := { (default : Facade) with coordinator := some 0, connected := true } }

theorem Memory.attached_resting : Memory.attached.Resting := by
  have resting := Memory.coordinated_resting
  refine ⟨resting.unlocked, resting.unset, resting.unscheduled, ⟨fun n there => ?_, fun _ => rfl⟩⟩
  cases there
  decide

/-- Surroundings in which everything but an identifier takes a second. -/
def World.slow : World Unit where
  answer
    | .drawId, _, _ => ⟨(), 0, .ok (7 : Nat)⟩
    | _, _, _ => ⟨(), 1, .error .cancelled⟩

/-- A run that was triggered through the facade and fetches its snapshot. -/
theorem Facade.runs_apart_fetching : ∃ a, Shift.Reach World.slow User .attached () true a ∧
    a.crew.stageBy 0 (.job 0) = some .fetch ∧ (a.crew.memory.coordinator 0).run.locked = true ∧
    ∀ n k, a.crew.stageBy n k ≠ none → n = 0 ∧ k = .job 0 := by
  have caller : User (trigger.andThen fun _ => .done (.ok .nothing)) := .trigger fun _ => .done
  have soon : ¬(0 : Float) < 0 := by decide
  have slow : (0 : Float) < 1 := by decide
  have r : Shift.Reach World.slow User .attached () true _ := .next .start (.call caller)
  have r := r.next (.begin (k := .caller 0) (h := .new (.caller _) none) rfl rfl rfl)
  have r := (r.next .look).next .look
  have r := (r.next .look).next .store
  have r := r.next (.exchange soon)
  have r := r.next (.grant ⟨rfl, rfl⟩)
  have r := r.next (.grant ⟨rfl, rfl⟩)
  have r := (r.next .look).next .store
  have r := r.next (.grant ⟨rfl, rfl⟩)
  have r := r.next .close
  have r := r.next (.begin (k := .job 0) (h := .new (.job (.ingest 0 _)) none) rfl rfl rfl)
  have r := r.next (.grant ⟨rfl, rfl⟩)
  have r := (r.next .look).next .store
  have r := (r.next .look).next .look
  have r := r.next .store
  have r := r.next (.ask slow)
  have apart := runs_apart Memory.attached_resting r
  refine ⟨_, r, rfl, (apart.1 0 (.job 0) .fetch rfl).2.2.1, fun n k shown => ?_⟩
  exact apart.2.2 (by decide) n 0 k (.job 0) shown nofun


end CodeAtlas
