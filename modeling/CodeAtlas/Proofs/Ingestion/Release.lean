import CodeAtlas.Proofs.Crew.Solo
import CodeAtlas.Proofs.Ingestion.Facade

namespace CodeAtlas

open Routine

variable {ω : Type}

/-- What the facade works with has no open session of the language model and no open client of the vector server. -/
structure Memory.Released (m : Memory) : Prop where
  session : ∀ n, m.facade.completion = some n → (m.completion n).session ≠ .open
  client : ∀ n, m.facade.index = some n → (m.index n).isOpen = false

/-- Neither what can be open nor which of it the facade works with is touched. -/
structure Memory.Apart (m m' : Memory) : Prop where
  connected : m'.facade.connected = m.facade.connected
  completion : m'.facade.completion = m.facade.completion
  index : m'.facade.index = m.facade.index
  completions : m'.completions = m.completions
  indexes : m'.indexes = m.indexes

namespace Deed

/-- The facade is left as it is. -/
def Spares : Deed → Prop
  | .stores before after => after.facade = before.facade
  | _ => True

/-- The facade is not connected again, and whoever works beside the caller opens nothing. -/
def Abstains (k : Who) : Deed → Prop
  | .stores before after =>
    after.facade.connected = false ∧ (k ≠ .caller 0 → before.Released → after.Released)
  | _ => True

/-- A connected facade is let go of. -/
def Parts : Deed → Prop
  | .stores before after => before.facade.connected = true ∧ after.facade.connected = false
  | _ => False

end Deed

namespace Log

/-- The facade was let go of, and nothing was opened since. -/
def LetGo (log : List Noted) : Prop :=
  ∃ earlier time k deed later, log = earlier ++ (time, k, deed) :: later ∧ deed.Parts ∧
    ∀ noted ∈ later, noted.2.2.Abstains noted.2.1

theorem letGo_snoc {log : List Noted} {noted : Noted} (letGo : LetGo (log ++ [noted])) :
    noted.2.2.Parts ∨ (LetGo log ∧ noted.2.2.Abstains noted.2.1) := by
  obtain ⟨earlier, time, k, deed, later, same, parts, abstain⟩ := letGo
  rcases List.eq_nil_or_concat later with rfl | ⟨later, last, rfl⟩
  · obtain ⟨_, last⟩ := List.append_inj' same rfl
    cases last
    exact .inl parts
  · rw [List.concat_eq_append, ← List.cons_append, ← List.append_assoc] at same
    obtain ⟨rfl, last⟩ := List.append_inj' same rfl
    cases last
    rw [List.concat_eq_append, List.forall_mem_append, List.forall_mem_singleton] at abstain
    exact .inr ⟨⟨earlier, time, k, deed, later, rfl, parts, abstain.1⟩, abstain.2⟩

/-- What is stored by those who spare the facade leaves it as it was. -/
theorem facade_spared {m : Memory} {log : List Noted} (chained : Chained m log) (spare : ∀ noted ∈ log, noted.2.2.Spares) :
    (memoryFrom m log).facade = m.facade := by
  induction log generalizing m with
  | nil => rfl
  | cons noted rest ih =>
    obtain ⟨time, k, deed⟩ := noted
    have later : ∀ noted ∈ rest, noted.2.2.Spares := fun noted inside => spare noted (List.mem_cons_of_mem _ inside)
    cases deed with
    | stores before after =>
      obtain ⟨rfl, chained⟩ := chained
      have first : after.facade = before.facade := spare _ (List.mem_cons_self ..)
      exact (ih chained later).trans first
    | _ => exact ih chained later

end Log

namespace Crew

/-- Those beside the caller spare the facade, and nothing is open as long as nobody opens anything after the caller
has let go of it. -/
structure Parted (c : Crew ω) : Prop where
  spared : ∀ noted ∈ c.log, noted.2.1 ≠ .caller 0 → noted.2.2.Spares
  released : Log.LetGo c.log → c.memory.Released

/-- The session of a facade that is let go of is closed. -/
structure Closing (f : Facade) (c : Crew ω) : Prop where
  parted : c.Parted
  facade : c.memory.facade = f
  session : ∀ n, f.completion = some n → (c.memory.completion n).session ≠ .open

/-- The rules under which connections are let go of. -/
def parting (ω : Type) (m : Memory) : Rules ω where
  known c := c.Recorded m ∧ c.Solo ∧ ∀ k h, c.hand? k = some h → h.origin.Fits k
  inv := Parted
  may _ _ _ := True

variable {w : World ω} {m : Memory} {c c' d : Crew ω} {k : Who} {r : Remit}

namespace Parted

/-- Something is noted, but nothing is stored. -/
theorem noted (parted : c.Parted) {noted : Noted} (log : c'.log = c.log ++ [noted]) (memory : c'.memory = c.memory)
    (spares : noted.2.2.Spares) (stays : ¬noted.2.2.Parts) : c'.Parted where
  spared := by
    rw [log]
    exact List.forall_mem_append.mpr ⟨parted.spared, List.forall_mem_singleton.mpr fun _ => spares⟩
  released := by
    rw [log, memory]
    intro letGo
    rcases Log.letGo_snoc letGo with parts | ⟨before, _⟩
    · exact absurd parts stays
    · exact parted.released before

theorem same (parted : c.Parted) (memory : c'.memory = c.memory) (log : c'.log = c.log) : c'.Parted :=
  ⟨log ▸ parted.spared, log ▸ memory ▸ parted.released⟩

theorem store {m' : Memory} (parted : c.Parted) (spares : k ≠ .caller 0 → m'.facade = c.memory.facade)
    (parts : c.memory.facade.connected = true → m'.facade.connected = false → m'.Released)
    (abstains : m'.facade.connected = false → (k ≠ .caller 0 → c.memory.Released → m'.Released) → c.memory.Released → m'.Released) :
    (c.store k m').Parted where
  spared := List.forall_mem_append.mpr ⟨parted.spared, List.forall_mem_singleton.mpr spares⟩
  released letGo := by
    rcases Log.letGo_snoc letGo with apart | ⟨before, apart, opens⟩
    · exact parts apart.1 apart.2
    · exact abstains apart opens (parted.released before)

end Parted

/-- What is left to the caller while it waits. -/
theorem facade_since (before : d.Recorded m) (since : Since (.caller 0) d c) (recorded : c.Recorded m) (parted : c.Parted) :
    c.memory.facade = d.memory.facade := by
  obtain ⟨new, log, others⟩ := since.log
  have chained := recorded.chained
  rw [log, Log.chained_append, ← before.memory] at chained
  have spare : ∀ noted ∈ new, noted.2.2.Spares :=
    fun noted added => parted.spared noted (log ▸ List.mem_append_right _ added) (others noted added)
  rw [recorded.memory, log, Log.memoryFrom_append, ← before.memory]
  exact Log.facade_spared chained.2 spare

/-- Whoever keeps to a remit keeps to the rules if what is stored does. -/
theorem Parted.upkeep (w : World ω)
    (stores : ∀ {c : Crew ω} {m'}, c.Parted → r.finds c.memory → r.writes c.memory m' → (c.store k m').Parted)
    (finds : ∀ {m m' : Memory}, (k = .caller 0 → m'.facade = m.facade) → r.finds m → r.finds m') :
    Upkeep w (parting ω m) k r fun c => c.Parted ∧ r.finds c.memory where
  finds holds := holds.2
  may _ _ := trivial
  store := by
    intro c m' holds writes _
    have parted := stores holds.1 holds.2 writes
    exact ⟨parted, parted, r.leaves holds.2 writes⟩
  exchange := by
    intro c question holds _ _ _
    have asked : (c.note k (.asks question)).Parted := holds.1.noted rfl rfl trivial id
    have parted : (c.exchange k question (c.reaction w question)).Parted := asked.noted rfl rfl trivial id
    exact ⟨parted, parted, holds.2⟩
  ask := by
    intro c question rest holds _ _ known
    have parted : (c.ask k question (c.reaction w question) rest).Parted := holds.1.noted rfl rfl trivial id
    refine ⟨parted, fun c' h known' parted' _ since _ _ _ => ?_⟩
    have heard : (c'.hear k question (h.heard (c.reaction w question).reply)).Parted := parted'.noted rfl rfl trivial id
    refine ⟨heard, heard, finds (m := c.memory) ?_ holds.2⟩
    rintro rfl
    have kept : c'.memory.facade = (c.ask (.caller 0) question (c.reaction w question) rest).memory.facade :=
      facade_since known.1 since known'.1 parted'
    exact kept
  grant := by
    intro c request reply c' holds _ granted _
    rcases granted.noted with ⟨memory, log⟩ | ⟨job, rfl⟩
    · have parted := holds.1.same memory log
      exact ⟨parted, parted, memory ▸ holds.2⟩
    · have parted : (c.spawn k job).Parted := holds.1.noted rfl rfl trivial id
      exact ⟨parted, parted, holds.2⟩
  wait := by
    intro c request await read c' rest holds _ waits known
    obtain ⟨memory, log⟩ := waits.noted
    have parted : (c'.rest k await rest).Parted := holds.1.same memory log
    refine ⟨parted, fun d h waited d' known' parted' _ since _ _ wakes _ => ?_⟩
    have woken : (d'.goOn k).Parted := parted'.same wakes.noted.1 wakes.noted.2
    refine ⟨woken, woken, finds (m := c.memory) ?_ holds.2⟩
    rintro rfl
    have kept : d.memory.facade = (c'.rest (.caller 0) await rest).memory.facade := facade_since known.1 since known'.1 parted'
    show d'.memory.facade = c.memory.facade
    rw [wakes.noted.1, kept]
    exact congrArg Memory.facade memory

end Crew

/-- Work that leaves the facade as it is. -/
def Remit.sparing (finds : Facade → Prop) : Remit where
  asks _ := True
  writes m m' := m'.facade = m.facade
  requests _ := True
  finds m := finds m.facade
  leaves found same := same ▸ found

/-- Work that leaves the facade as it is, and opens nothing. -/
def Remit.calm (f : Facade) : Remit where
  asks _ := True
  writes m m' := m'.facade = m.facade ∧ (m.Released → m'.Released)
  requests _ := True
  finds m := m.facade = f
  leaves found writes := writes.1.trans found

/-- Work towards a connected facade, in which nothing is opened. -/
def Remit.joining : Remit where
  asks _ := True
  writes m m' := m'.facade.connected = true ∨
    (m'.facade.connected = m.facade.connected ∧ (m.Released → m'.Released))
  requests _ := True

theorem Remit.sparing_carries (finds : Facade → Prop) : (Remit.sparing finds).Carries where
  asks _ _ := trivial
  aside _ _ aside := aside.facade
  requests _ _ := trivial
  change _ _ _ _ := rfl
  all _ := trivial
  vectorize _ _ p _ _ :=
    (vectorize_minds p.graph p.index p.embedding).mono (fun _ _ => trivial) (fun _ _ aside => aside.facade) fun _ _ => trivial

theorem Remit.sparing_reads (finds : Facade → Prop) : (Remit.sparing finds).Reads where
  toHosts := (sparing_carries finds).toHosts
  loads _ _ _ _ := rfl

section Keeps

open Crew

variable {w : World ω} {m : Memory} {c : Crew ω} {k : Who} {α : Type} {p : Routine α}

/-- Jobs leave the facade as it is. -/
theorem Routine.Minds.sparing (minds : p.Minds (.sparing fun _ => True)) (other : k ≠ .caller 0) (parted : c.Parted) :
    p.Keeps w (parting ω m) k (fun _ c' => c'.Parted) c := by
  have frame : Upkeep w (parting ω m) k (.sparing fun _ => True) fun c => c.Parted ∧ True :=
    Parted.upkeep w (fun parted _ same => parted.store (fun _ => same)
      (fun was apart => absurd (same ▸ was) (by simp [apart])) fun _ opens => opens other) fun _ _ => trivial
  exact (minds.keeps frame ⟨parted, trivial⟩).imp fun _ _ after => after.1

theorem Routine.Minds.connected (minds : p.Minds (.sparing (·.connected = true))) (parted : c.Parted)
    (connected : c.memory.facade.connected = true) :
    p.Keeps w (parting ω m) (.caller 0) (fun _ c' => c'.Parted) c := by
  have frame : Upkeep w (parting ω m) (.caller 0) (.sparing (·.connected = true)) fun c =>
      c.Parted ∧ c.memory.facade.connected = true := by
    refine Parted.upkeep w (r := .sparing (·.connected = true)) (fun {c m'} parted was same => ?_) fun {m m'} same found => ?_
    · have goesOn : m'.facade.connected = true := (congrArg Facade.connected same).trans was
      refine parted.store (fun not => absurd rfl not) (fun _ apart => ?_) fun apart => ?_
      all_goals rw [goesOn] at apart; cases apart
    · exact (congrArg Facade.connected (same rfl)).trans found
  exact (minds.keeps frame ⟨parted, connected⟩).imp fun _ _ after => after.1

theorem Routine.Minds.joins (minds : p.Minds .joining) (parted : c.Parted) :
    p.Keeps w (parting ω m) (.caller 0) (fun _ c' => c'.Parted) c := by
  have frame : Upkeep w (parting ω m) (.caller 0) .joining fun c => c.Parted ∧ True := by
    refine Parted.upkeep w (fun parted _ writes => ?_) fun _ _ => trivial
    refine parted.store (fun not => absurd rfl not) (fun was apart => ?_) fun apart _ released => ?_
    · rcases writes with joined | ⟨same, _⟩
      · simp [joined] at apart
      · simp [same, was] at apart
    · rcases writes with joined | ⟨_, opens⟩
      · simp [joined] at apart
      · exact opens released
  exact (minds.keeps frame ⟨parted, trivial⟩).imp fun _ _ after => after.1

theorem Routine.Minds.calmly {f : Facade} (minds : p.Minds (.calm f)) (parted : c.Parted) (same : c.memory.facade = f) :
    p.Keeps w (parting ω m) (.caller 0) (fun _ c' => c'.Parted ∧ c'.memory.facade = f) c := by
  have frame : Upkeep w (parting ω m) (.caller 0) (.calm f) fun c => c.Parted ∧ c.memory.facade = f :=
    Parted.upkeep w (fun parted _ writes => parted.store (fun not => absurd rfl not)
      (fun was apart => absurd (writes.1 ▸ was) (by simp [apart])) fun _ _ => writes.2) fun same found => (same rfl).trans found
  exact minds.keeps frame ⟨parted, same⟩

/-- Whoever needs a connection works on it, or is turned down. -/
theorem Facade.requiring {p : Facade → Routine α} (minds : (required >>= p).Minds (.sparing (·.connected = true)))
    (parted : c.Parted) : (required >>= p).Keeps w (parting ω m) (.caller 0) (fun _ c' => c'.Parted) c := by
  cases connected : c.memory.facade.connected with
  | true => exact minds.connected parted connected
  | false =>
    show Routine.Keeps w _ _ _
      ((if c.memory.facade.connected = true then pure c.memory.facade else Routine.fail (.failure .notConnected)) >>= p) c
    rw [connected]
    exact parted

end Keeps

namespace Memory

variable {m : Memory}

/-- Nothing else is looked at, and nothing was opened. -/
theorem Released.of_same {m' : Memory} (released : m.Released) (completion : m'.facade.completion = m.facade.completion)
    (index : m'.facade.index = m.facade.index)
    (sessions : ∀ n, (m'.completion n).session = .open → (m.completion n).session = .open)
    (clients : ∀ n, (m'.index n).isOpen = true → (m.index n).isOpen = true) : m'.Released where
  session n has isOpen := released.session n (completion ▸ has) (sessions n isOpen)
  client n has := by
    refine Bool.eq_false_iff.mpr fun isOpen => ?_
    have closed := released.client n (index ▸ has)
    rw [clients n isOpen] at closed
    cases closed

theorem Released.apart {m' : Memory} (released : m.Released) (apart : m.Apart m') : m'.Released := by
  refine released.of_same apart.completion apart.index (fun n => ?_) fun n => ?_
  · rw [Memory.completion, Memory.completion, apart.completions]
    exact id
  · rw [Memory.index, Memory.index, apart.indexes]
    exact id

theorem Released.closeSession (released : m.Released) (n : Nat) :
    (m.onCompletion n fun s => { s with session := .closed }).Released := by
  refine released.of_same rfl rfl (fun i isOpen => ?_) fun _ => id
  rcases part_modify m.completions n i fun s => { s with session := .closed } with kept | ⟨_, changed⟩
  · exact (congrArg CompletionService.session kept).symm.trans isOpen
  · cases (congrArg CompletionService.session changed).symm.trans isOpen

theorem Released.closeClient (released : m.Released) (n : Nat) : (m.onIndex n fun i => { i with isOpen := false }).Released := by
  refine released.of_same rfl rfl (fun _ => id) fun i isOpen => ?_
  rcases part_modify m.indexes n i fun i => { i with isOpen := false } with kept | ⟨_, changed⟩
  · exact (congrArg VectorIndex.isOpen kept).symm.trans isOpen
  · cases (congrArg VectorIndex.isOpen changed).symm.trans isOpen

theorem closed_session (m : Memory) (n : Nat) :
    ((m.onCompletion n fun s => { s with session := .closed }).completion n).session ≠ .open := by
  intro isOpen
  by_cases there : n < m.completions.length
  · simp [completion, onCompletion, part, there] at isOpen
  · simp [completion, onCompletion, part, there] at isOpen
    cases isOpen

theorem closed_client (m : Memory) (n : Nat) : ((m.onIndex n fun i => { i with isOpen := false }).index n).isOpen = false := by
  by_cases there : n < m.indexes.length
  · simp [index, onIndex, part, there]
  · simp [index, onIndex, part, there]
    rfl

end Memory

namespace Facade

theorem joins_change {f : Memory → Memory} (apart : ∀ m : Memory, m.Apart (f m)) : (change f).Minds .joining :=
  .change fun m => .inr ⟨(apart m).connected, fun released => released.apart (apart m)⟩

/-- The service is taken as it was made. -/
theorem newCompletion_joins (settings : CompletionSettings) : (newCompletion settings).Minds .joining := by
  intro m _
  refine ⟨.inr ⟨rfl, fun released => ?_⟩, .inr ⟨rfl, fun released => ?_⟩, trivial⟩
  · refine released.of_same rfl rfl (fun n isOpen => ?_) fun _ => id
    rw [Memory.completion, part_snoc] at isOpen
    split at isOpen
    · cases isOpen
    · exact isOpen
  · refine ⟨fun n has => ?_, released.client⟩
    cases has
    simp [Memory.completion, part_snoc, Memory.onFacade]

theorem newIndex_joins (settings : VectorSettings) (batchSize : Value) : (newIndex settings batchSize).Minds .joining := by
  refine (Minds.ofExcept _).bind fun _ => ?_
  intro m _
  refine ⟨.inr ⟨rfl, fun released => ?_⟩, .inr ⟨rfl, fun released => ?_⟩, trivial⟩
  · refine released.of_same rfl rfl (fun _ => id) fun n isOpen => ?_
    rw [Memory.index, part_snoc] at isOpen
    split at isOpen
    · cases isOpen
    · exact isOpen
  · refine ⟨released.session, fun n has => ?_⟩
    cases has
    simp [Memory.index, part_snoc, Memory.onFacade]

theorem connectClient_joins (graph : Nat) : (GraphClient.connect graph).Minds .joining := by
  refine (Minds.view _).bind fun client => .ite (fun _ => .pure _) fun _ => Minds.bind (.query trivial) fun _ => ?_
  exact Minds.bind (.query trivial) fun _ => joins_change fun _ => ⟨rfl, rfl, rfl, rfl, rfl⟩

theorem connectGraph_joins (settings : GraphSettings) : (connectGraph settings).Minds .joining := by
  have adds := (Minds.view (·.graphs)).bind fun present => Minds.bind
    (joins_change (f := fun m => { m with graphs := present ++ [{ settings, connected := false }] })
      fun _ => ⟨rfl, rfl, rfl, rfl, rfl⟩) fun _ => .pure present.length
  refine adds.bind fun graph => Minds.bind (joins_change fun _ => ⟨rfl, rfl, rfl, rfl, rfl⟩) fun _ => ?_
  exact (connectClient_joins graph).bind fun _ => .pure _

theorem takeEmbedding_joins (env : Environment) (settings : EmbeddingSettings) : (takeEmbedding env settings).Minds .joining := by
  have creates : ∀ options, (EmbeddingService.create env options).Minds .joining := by
    intro options
    refine Minds.bind (.query trivial) fun accelerated => (Minds.ofExcept _).bind fun service => (Minds.view _).bind fun n => ?_
    exact Minds.bind (joins_change fun _ => ⟨rfl, rfl, rfl, rfl, rfl⟩) fun _ => .pure _
  refine (Minds.ofExcept _).bind fun options => Minds.bind ?_ fun embedding => ?_
  · refine (Minds.view _).bind fun shared => ?_
    cases shared with
    | some n => exact .pure _
    | none => exact (creates options).bind fun n => Minds.bind (joins_change fun _ => ⟨rfl, rfl, rfl, rfl, rfl⟩) fun _ => .pure _
  · exact Minds.bind (joins_change fun _ => ⟨rfl, rfl, rfl, rfl, rfl⟩) fun _ => .pure _

theorem newRegistry_joins (graph : Nat) : (newRegistry graph).Minds .joining := by
  refine Minds.bind ?_ fun registry => joins_change fun _ => ⟨rfl, rfl, rfl, rfl, rfl⟩
  exact (Minds.view _).bind fun _ => Minds.bind (joins_change fun _ => ⟨rfl, rfl, rfl, rfl, rfl⟩) fun _ => .pure _

theorem newCoordinator_joins (s : IngestionSettings) (p : Pipeline) : (newCoordinator s p).Minds .joining := by
  refine Minds.bind ?_ fun coordinator => joins_change fun _ => ⟨rfl, rfl, rfl, rfl, rfl⟩
  exact (Minds.view _).bind fun _ => Minds.bind (joins_change fun _ => ⟨rfl, rfl, rfl, rfl, rfl⟩) fun _ => .pure _

theorem connect_joins (env : Environment) : (connect env).Minds .joining := by
  refine (Minds.view _).bind fun f => .ite (fun _ => .pure _) fun _ => ?_
  refine (connectGraph_joins _).bind fun graph => (takeEmbedding_joins _ _).bind fun embedding => ?_
  refine (newCompletion_joins _).bind fun completion => (newRegistry_joins _).bind fun _ => ?_
  refine (newIndex_joins _ _).bind fun index => (Minds.ofExcept _).bind fun pipeline => ?_
  exact (newCoordinator_joins _ _).bind fun _ => .change fun _ => .inl rfl

section Close

open Crew

variable {w : World ω} {m : Memory} {c : Crew ω} {f : Facade}

theorem calm_change {g : Memory → Memory} (same : ∀ m, (g m).facade = m.facade)
    (opens : ∀ m : Memory, m.Released → (g m).Released) : (change g).Minds (.calm f) :=
  .change fun m => ⟨same m, opens m⟩

theorem stopScheduler_calm (n : Nat) : (Coordinator.stopScheduler n).Minds (.calm f) := by
  refine (Minds.view _).bind fun c => Minds.bind (calm_change (fun _ => rfl) fun m released => ?_) fun _ => ?_
  · exact released.apart ⟨rfl, rfl, rfl, rfl, rfl⟩
  · cases c.scheduler with
    | none => exact .pure _
    | some task =>
      have cancels : (request (.cancel task)).Minds (.calm f) := .request trivial
      have joins : (request (.join task)).Minds (.calm f) := .request trivial
      refine cancels.bind fun _ => joins.andThen fun result => ?_
      split <;> exact .done _

/-- The caller stores something in which nothing is opened. -/
theorem store_calm {m' : Memory} (parted : c.Parted) (same : m'.facade = c.memory.facade)
    (opens : c.memory.Released → m'.Released) : (c.store (.caller 0) m').Parted := by
  refine parted.store (fun not => absurd rfl not) (fun was apart => ?_) fun _ _ => opens
  rw [same, was] at apart
  cases apart

/-- The session is closed when the service has closed. -/
theorem closeService_closes (parted : c.Parted) (same : c.memory.facade = f) :
    (whenPresent f.completion CompletionService.close).Keeps w (parting ω m) (.caller 0) (Routine.Ends (fun _ c' => c'.Closing f) Parted) c := by
  cases has : f.completion with
  | none => exact ⟨parted, same, fun n present => by simp [has] at present⟩
  | some n =>
    show (CompletionService.close n).Keeps ..
    unfold CompletionService.close
    rw [keeps_view_bind]
    split
    · have asks : (query .closeSession).Minds (.calm f) := .query trivial
      refine (asks.calmly parted same).bind (fun _ c' after => ?_) fun _ _ after => after.1
      intro _
      have closes : (c'.store (.caller 0) (c'.memory.onCompletion n fun s => { s with session := .closed })).Parted :=
        store_calm after.1 rfl fun released => released.closeSession n
      refine ⟨closes, closes, after.2, fun i present => ?_⟩
      cases has.symm.trans present
      exact c'.memory.closed_session n
    next closed =>
      refine ⟨parted, same, fun i present => ?_⟩
      cases has.symm.trans present
      exact closed

/-- The client is closed when the index has closed, which takes no time. -/
theorem closeIndex_closes (soon : ∀ time world, ¬0 < (w.answer .closeVectors time world).delay) (closing : c.Closing f) :
    (whenPresent f.index VectorIndex.close).Keeps w (parting ω m) (.caller 0)
      (Routine.Ends (fun _ c' => c'.Parted ∧ c'.memory.Released) Parted) c := by
  have session : ∀ n, c.memory.facade.completion = some n → (c.memory.completion n).session ≠ .open := closing.facade ▸ closing.session
  cases has : f.index with
  | none => exact ⟨closing.parted, session, fun n present => by rw [closing.facade, has] at present; cases present⟩
  | some n =>
    have only : ∀ {i}, c.memory.facade.index = some i → i = n := fun present => by
      rw [closing.facade, has] at present
      exact (Option.some.inj present).symm
    show (VectorIndex.close n).Keeps ..
    unfold VectorIndex.close
    rw [keeps_view_bind]
    split
    · have asks : (query .closeVectors).Keeps w (parting ω m) (.caller 0) (fun _ c' => c'.Parted ∧ c'.memory = c.memory) c := by
        refine ⟨trivial, fun _ _ => ?_, fun slow => absurd slow (soon _ _)⟩
        have asked : (c.note (.caller 0) (.asks .closeVectors)).Parted := closing.parted.noted rfl rfl trivial id
        have exchanged : (c.exchange (.caller 0) .closeVectors (c.reaction w .closeVectors)).Parted := asked.noted rfl rfl trivial id
        exact ⟨exchanged, exchanged, rfl⟩
      refine asks.bind (fun _ c' after => ?_) fun _ _ after => after.1
      obtain ⟨parted, same⟩ := after
      intro _
      have closes : (c'.store (.caller 0) (c'.memory.onIndex n fun i => { i with isOpen := false })).Parted :=
        store_calm parted rfl fun released => released.closeClient n
      refine ⟨closes, closes, ?_⟩
      show (c'.memory.onIndex n fun i => { i with isOpen := false }).Released
      rw [same]
      refine ⟨session, fun i present => ?_⟩
      rw [only present]
      exact c.memory.closed_client n
    next closed =>
      refine ⟨closing.parted, session, fun i present => ?_⟩
      rw [only present]
      exact Bool.eq_false_iff.mpr closed

theorem close_parts (soon : ∀ time world, ¬0 < (w.answer .closeVectors time world).delay) (parted : c.Parted) :
    close.Keeps w (parting ω m) (.caller 0) (fun _ c' => c'.Parted) c := by
  unfold close
  rw [keeps_view_bind]
  have stops : (whenPresent c.memory.facade.coordinator Coordinator.stopScheduler).Minds (.calm c.memory.facade) :=
    whenPresent_minds stopScheduler_calm
  refine (stops.calmly parted rfl).bind (fun _ c' after => ?_) fun _ _ after => after.1
  refine (closeService_closes after.1 after.2).bind (fun _ c' closing => ?_) fun _ _ parted => parted
  refine (closeIndex_closes soon closing).bind (fun _ c' after => ?_) fun _ _ parted => parted
  have client : (whenPresent c.memory.facade.graph GraphClient.close).Keeps w (parting ω m) (.caller 0)
      (fun _ c' => c'.Parted ∧ c'.memory.Released) c' := by
    cases c.memory.facade.graph with
    | none => exact after
    | some n =>
      intro _
      have released : (c'.memory.onGraph n fun g => { g with connected := false }).Released := after.2.apart ⟨rfl, rfl, rfl, rfl, rfl⟩
      have stored : (c'.store (.caller 0) (c'.memory.onGraph n fun g => { g with connected := false })).Parted :=
        store_calm after.1 rfl fun _ => released
      exact ⟨stored, stored, released⟩
  refine client.bind (fun _ c' after => ?_) fun _ _ after => after.1
  intro _
  have released : (c'.memory.onFacade fun f => { f with connected := false }).Released := ⟨after.2.session, after.2.client⟩
  have stored : (c'.store (.caller 0) (c'.memory.onFacade fun f => { f with connected := false })).Parted :=
    after.1.store (fun not => absurd rfl not) (fun _ _ => released) fun _ _ _ => released
  exact ⟨stored, stored⟩

end Close

section User

open Crew

variable {w : World ω} {m : Memory} {c : Crew ω}

/-- Whatever a caller does with the facade, nothing is left open when it is let go of. -/
theorem User.parts (soon : ∀ time world, ¬0 < (w.answer .closeVectors time world).delay) {program : Routine Yield}
    (calls : User program) (parted : c.Parted) :
    program.Keeps w (parting ω m) (.caller 0) ((parting ω m).Closes (.caller 0)) c := by
  have carries := Remit.sparing_carries (·.connected = true)
  have reads := Remit.sparing_reads (·.connected = true)
  have connects : ∀ n, (GraphClient.connect n).Minds (.sparing (·.connected = true)) := by
    intro n
    refine (Minds.view _).bind fun client => .ite (fun _ => .pure _) fun _ => Minds.bind (.query trivial) fun _ => ?_
    exact Minds.bind (.query trivial) fun _ => .change fun _ => rfl
  induction calls generalizing c with
  | done =>
    intro _
    exact ⟨parted.same rfl rfl, trivial⟩
  | connect _ ih => exact ((connect_joins _).joins parted).andThen fun answer _ parted => ih answer parted
  | close _ ih => exact (close_parts soon parted).andThen fun answer _ parted => ih answer parted
  | healthCheck _ ih =>
    exact (requiring (healthCheck_minds carries.toHosts connects) parted).andThen fun answer _ parted => ih answer parted
  | trigger _ ih =>
    exact (requiring (required_minds.bind fun _ => carries.trigger _) parted).andThen fun answer _ parted => ih answer parted
  | runIngestion _ ih => exact (requiring (carries.runIngestion reads) parted).andThen fun answer _ parted => ih answer parted
  | status _ ih => exact (requiring (status_minds carries.toHosts) parted).andThen fun answer _ parted => ih answer parted
  | startScheduler _ ih =>
    exact (requiring (required_minds.bind fun _ => carries.startScheduler _) parted).andThen fun answer _ parted => ih answer parted
  | refresh _ ih => exact (requiring (refresh_minds reads) parted).andThen fun answer _ parted => ih answer parted
  | analyze _ ih => exact (requiring (analyze_minds reads _ _) parted).andThen fun answer _ parted => ih answer parted
  | @pause seconds _ _ ih =>
    have waits : (Routine.request (.pause seconds)).Minds .joining := .request trivial
    exact (waits.joins parted).andThen fun answer _ parted => ih answer parted

end User

end Facade

section Leads

open Crew

variable {ω : Type} {w : World ω} {m : Memory} {world : ω} {hasLoop : Bool} {program : Routine Yield} {a : Shift ω}

theorem Shift.Leads.parting (free : ∀ n, (m.coordinator n).run.locked = false)
    (soon : ∀ time world, ¬0 < (w.answer .closeVectors time world).delay) (calls : Facade.User program)
    (leads : Leads w (Shift.solo program m world hasLoop) a) : a.crew.Parted := by
  have closes : ∀ {k result} {c : Crew ω}, c.Parted → (Crew.parting ω m).Closes k result c :=
    fun parted _ => ⟨parted.same rfl rfl, trivial⟩
  have guards : (Crew.parting ω m).Guards w (· = program) := by
    refine ⟨⟨?call, ?drop, ?begin⟩, ?pass⟩
    case call => exact fun known _ _ known' => absurd known'.2.1 (known.2.1.not_call _)
    case pass => exact fun _ parted => parted.same rfl rfl
    case drop => exact fun _ parted _ _ _ _ => closes parted
    case begin =>
      intro c k h known parted _ found fresh _ _ _
      cases k with
      | caller i => exact absurd fresh (known.2.1.begun found)
      | job j =>
        have begun : (c.begin (.job j) h.origin).Parted := parted.noted rfl rfl trivial id
        refine ⟨begun, ?_⟩
        have works : h.origin.routine.Minds (.sparing fun _ => True) := by
          cases origin : h.origin with
          | job job => exact (Remit.sparing_carries _).job job
          | caller program => exact absurd (known.2.2 _ h found) (by simp [origin, Origin.Fits])
        have other : Who.job j ≠ .caller 0 := by rintro ⟨⟩
        exact (works.sparing other begun).imp fun _ _ parted => closes parted
  have start : (Shift.solo program m world hasLoop).crew.Parted := by
    have empty : (Crew.start m world hasLoop).Parted := by
      refine ⟨List.forall_mem_nil _, ?_⟩
      rintro ⟨earlier, time, k, deed, later, log, _⟩
      simp [Crew.start] at log
    have called : ((Crew.start m world hasLoop).call program).Parted := empty.same rfl rfl
    have begun : (((Crew.start m world hasLoop).call program).begin (.caller 0) (.caller program)).Parted :=
      called.noted rfl rfl trivial id
    exact begun
  have known : ∀ {a}, Leads w (Shift.solo program m world hasLoop) a → (Crew.parting ω m).known a.crew :=
    fun leads => ⟨leads.reach.recorded free, leads.solo, leads.reach.knows.fits⟩
  exact (leads.sound guards known start (calls.parts soon start)).holds

end Leads

namespace Facade

/-- Once a caller has let go of a connected facade, and until it is connected again, the session and the client that
it worked with are closed, unless somebody beside the caller opens one of them again. -/
theorem reopened_beside {ω : Type} {w : World ω} {m : Memory} {world : ω} {hasLoop : Bool} {program : Routine Yield} {a : Shift ω}
    (free : ∀ n, (m.coordinator n).run.locked = false)
    (soon : ∀ time world, ¬0 < (w.answer .closeVectors time world).delay) (calls : User program)
    (leads : Shift.Leads w (.solo program m world hasLoop) a) {earlier later : List Noted} {time : Float} {k : Who}
    {before after : Memory} (log : a.crew.log = earlier ++ (time, k, .stores before after) :: later)
    (was : before.facade.connected = true) (letGo : after.facade.connected = false)
    (apart : ∀ time k before after, (time, k, .stores before after) ∈ later → after.facade.connected = false) :
    a.crew.memory.Released ∨
      ∃ time k before after, (time, k, .stores before after) ∈ later ∧ k ≠ .caller 0 ∧ before.Released ∧ ¬after.Released := by
  have parted : a.crew.Parted := leads.parting free soon calls
  by_cases opened : ∃ time k before after, (time, k, .stores before after) ∈ later ∧ k ≠ .caller 0 ∧ before.Released ∧ ¬after.Released
  · exact .inr opened
  · refine .inl (parted.released ⟨earlier, time, k, .stores before after, later, log, ⟨was, letGo⟩, ?_⟩)
    rintro ⟨time, k, deed⟩ inside
    cases deed with
    | stores before after =>
      refine ⟨apart _ _ _ _ inside, fun other released => Classical.byContradiction fun open_ => ?_⟩
      exact opened ⟨time, k, before, after, inside, other, released, open_⟩
    | _ => trivial

end Facade

/-- A memory with a connected facade that has a session and a client open. -/
def Memory.engaged : Memory :=
  { Memory.attached with
    completions := [{ settings := default, session := .open, usage := [] }]
    indexes := [{ settings := default, batchSize := default, isOpen := true }]
    facade := { Memory.attached.facade with completion := some 0, index := some 0 } }

/-- Surroundings in which what is open can be closed. -/
def World.closable : World Unit where
  answer
    | .closeSession, _, _ | .closeVectors, _, _ => ⟨(), 0, .ok ()⟩
    | _, _, _ => ⟨(), 0, .error .cancelled⟩

/-- What is open is closed by the time a caller has let go of the facade. -/
theorem Facade.released_once_closed : ¬Memory.engaged.Released ∧ ∃ a,
    Shift.Leads World.closable (.solo (close.andThen fun _ => .done (.ok .nothing)) .engaged () false) a ∧
      a.crew.memory.facade.connected = false ∧ a.crew.memory.Released := by
  have soon : ¬(0 : Float) < 0 := by decide
  have closes : ∀ time world, ¬0 < (World.closable.answer .closeVectors time world).delay := fun _ _ => soon
  have free : ∀ n, (Memory.engaged.coordinator n).run.locked = false := Memory.attached_resting.unlocked
  have calls : User (close.andThen fun _ => .done (.ok .nothing)) := .close fun _ => .done
  have letsGo : ∀ {c : Crew Unit} {m : Memory} {turn}, Shift.Leads World.closable
      (.solo (close.andThen fun _ => .done (.ok .nothing)) .engaged () false) ⟨c.store (.caller 0) m, turn⟩ →
      c.memory.facade.connected = true → m.facade.connected = false → m.Released := by
    intro c m turn leads was letGo
    have log : (c.store (.caller 0) m).log = c.log ++ (c.clock, .caller 0, .stores c.memory m) :: [] := rfl
    have nothing : ∀ time k before after, (time, k, .stores before after) ∈ ([] : List Noted) → after.facade.connected = false :=
      fun _ _ _ _ inside => absurd inside List.not_mem_nil
    rcases reopened_beside free closes calls leads log was letGo nothing with released | ⟨_, _, _, _, inside, _⟩
    · exact released
    · exact absurd inside List.not_mem_nil
  have r : Shift.Leads World.closable (.solo (close.andThen fun _ => .done (.ok .nothing)) .engaged () false) _ := .refl
  have r := (((r.tail .look).tail .look).tail .look).tail .store
  have r := (((r.tail .look).tail (.exchange soon)).tail .look).tail .store
  have r := (((r.tail .look).tail (.exchange soon)).tail .look).tail .store
  have r := (r.tail .look).tail .store
  exact ⟨fun released => released.session 0 rfl rfl, _, r, rfl, letsGo r rfl rfl⟩

end CodeAtlas
