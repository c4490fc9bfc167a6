import CodeAtlas.Command
import CodeAtlas.Proofs.Crew.Report
import CodeAtlas.Proofs.Settings.Connection
import CodeAtlas.Proofs.Storage.Snapshots

namespace CodeAtlas

open Routine Crew

/-- What the schedule does with a connected graph. -/
def Command.waiting : Routine Unit := do
  let _ ← Facade.startScheduler
  let _ ← Facade.runIngestion
  idle

/-- The facade stays connected, whatever is asked. -/
def Charter.standing (n r g : Nat) : Charter where
  keeps m := m.Standing n r g
  asks _ := True
  requests _ := True

variable {ω : Type} {w : World ω} {m : Memory} {n r g : Nat}

theorem Memory.Standing.aside {m' : Memory} (standing : m.Standing n r g) (aside : m.Aside m') : m'.Standing n r g := by
  obtain ⟨connected, coordinator, registry, link, client⟩ := standing
  refine ⟨aside.facade ▸ connected, aside.facade ▸ coordinator, aside.facade ▸ registry, ?_, ?_⟩
  · rw [Memory.registry, aside.registries]
    exact link
  · rw [Memory.graph, aside.graphs]
    exact client

theorem Memory.Standing.load (standing : m.Standing n r g) (classes : List ClassEntity) (methods : List MethodEntity) :
    (m.onRegistry r (Registry.load classes methods)).Standing n r g := by
  have link : ((m.onRegistry r (Registry.load classes methods)).registry r).graph = (m.registry r).graph :=
    part_modify_same (p := Registry.graph) fun _ => rfl
  exact ⟨standing.connected, standing.coordinator, standing.registry, link.trans standing.link, standing.client⟩

theorem Charter.standing_carries (n r g : Nat) : (Charter.standing n r g).remit.Carries where
  asks _ _ := trivial
  aside _ _ aside standing := standing.aside aside
  requests _ _ := trivial
  change _ _ _ _ standing := ⟨standing.connected, standing.coordinator, standing.registry, standing.link, standing.client⟩
  all _ := trivial
  vectorize _ _ p _ _ := (vectorize_minds p.graph p.index p.embedding).mono (fun _ _ => trivial)
    (fun _ _ aside standing => standing.aside aside) fun _ _ => trivial

/-- Somebody has heard answers of the graph that do not amount to a population. -/
def Unreadable (k : Who) (log : List Noted) (fault : Fault) : Prop :=
  ∃ time first, (time, k, .hears (.query .allClasses (.dict [])) first) ∈ log ∧
    (GraphClient.read .allClasses (.dict []) first = .error fault ∨
      ∃ time second, (time, k, .hears (.query .allMethods (.dict [])) second) ∈ log ∧
        Registry.population first second = .error fault)

theorem Unreadable.lasting (k : Who) (fault : Fault) : Lasting (Unreadable k · fault) := by
  rintro log new ⟨time, first, heard, refused⟩
  refine ⟨time, first, List.mem_append_left _ heard, refused.imp_right ?_⟩
  rintro ⟨time, second, heard, refused⟩
  exact ⟨time, second, List.mem_append_left _ heard, refused⟩

section Refresh

variable {R : Rules ω} {k : Who} {c : Crew ω} {remit : Remit} {holds : Crew ω → Prop}

/-- A connected client asks, and what comes of it is how the answer reads. -/
theorem GraphClient.run_keeps {statement : Statement} (frame : Upkeep w R k remit holds) (own : holds c)
    (allowed : remit.asks (.query statement (.dict []))) (connected : (c.memory.graph g).connected = true) :
    (run g statement).Keeps w R k (fun result c' => holds c' ∧ ∃ time reply,
      (time, k, .hears (.query statement (.dict [])) reply) ∈ c'.log ∧ result = read statement (.dict []) reply) c := by
  rw [run, send_eq]
  show Routine.Keeps w R k _ (if (c.memory.graph g).connected then _ else _) c
  rw [if_pos connected]
  refine (query_keeps frame own allowed).andThen fun reply c' heard => ?_
  obtain ⟨own', -, time, heard⟩ := heard
  exact ⟨own', time, reply, heard, rfl⟩

end Refresh

/-- How the waiting ends: it is interrupted, or ended by force, or the start of the schedule cannot be told of, or the
population cannot be read. -/
inductive Left (interval : Value) (log : List Noted) : Except Fault Unit → Prop
  | interrupted {time reply result} : (time, .caller 0, .hears .interruption reply) ∈ log → Left interval log result
  | forced {fault} : fault.ordinary = false → Left interval log (.error fault)
  | untold {fault} : interval.fixed 0 = .error fault → Left interval log (.error fault)
  | unreadable {fault} : Unreadable (.caller 0) log fault → Left interval log (.error fault)

theorem Left.lasting (interval : Value) (result : Except Fault Unit) : Lasting (Left interval · result) := by
  intro log new left
  cases left with
  | interrupted heard => exact .interrupted (List.mem_append_left _ heard)
  | forced other => exact .forced other
  | untold refused => exact .untold refused
  | unreadable refused => exact .unreadable (Unreadable.lasting _ _ _ _ refused)

/-- Nothing but a cancellation or an interruption comes out. -/
def Forced {α : Type} (result : Except Fault α) : Prop := ∀ fault, result = .error fault → fault.ordinary = false

section Forced

variable {R : Rules ω} {k : Who} {c : Crew ω} {remit : Remit} {holds : Crew ω → Prop}

/-- Guarded work ends well, or by force. -/
theorem rescue_keeps {α : Type} {p : Routine α} {handler : Fault → Routine α}
    (keeps : p.Keeps w R k (fun _ c' => holds c') c)
    (handles : ∀ fault c', holds c' → (handler fault).Keeps w R k (fun result c' => Forced result ∧ holds c') c') :
    (p.rescue handler).Keeps w R k (fun result c' => Forced result ∧ holds c') c := by
  refine keeps.andThen fun result c' after => ?_
  cases result with
  | ok => exact ⟨nofun, after⟩
  | error fault =>
    dsimp only
    split
    · exact handles fault c' after
    next other =>
      refine ⟨?_, after⟩
      rintro _ ⟨⟩
      exact Bool.not_eq_true _ ▸ other

theorem forced_bind {α β : Type} {p : Routine α} {f : α → Routine β}
    (keeps : p.Keeps w R k (fun result c' => Forced result ∧ holds c') c)
    (rest : ∀ a c', holds c' → (f a).Keeps w R k (fun result c'' => Forced result ∧ holds c'') c') :
    (p >>= f).Keeps w R k (fun result c' => Forced result ∧ holds c') c := by
  refine keeps.bind (fun a c' after => rest a c' after.2) fun fault c' after => ⟨?_, after.2⟩
  rintro _ ⟨⟩
  exact after.1 fault rfl

theorem onRun_keeps (frame : Upkeep w R k remit holds) (carries : remit.Carries) (own : holds c) (f : RunState → RunState) :
    (Coordinator.onRun n f).Keeps w R k (fun result c' => Forced result ∧ holds c') c := by
  rw [Coordinator.onRun, keeps_change]
  intro known
  obtain ⟨inv, own'⟩ := frame.store own (carries.change c.memory n (f := fun x => { x with run := f x.run }) fun _ => rfl) known
  refine ⟨inv, ?_, own'⟩
  rintro _ ⟨⟩

/-- A run keeps its ordinary faults to itself. -/
theorem runStages_keeps (frame : Upkeep w R k remit holds) (carries : remit.Carries) (own : holds c) (id : String) :
    (Coordinator.runStages n id).Keeps w R k (fun result c' => Forced result ∧ holds c') c := by
  refine keeps_now_bind fun known => ?_
  obtain ⟨inv, own⟩ := frame.grant own (carries.all .now) ⟨rfl, rfl⟩ known
  refine ⟨inv, forced_bind (onRun_keeps frame carries own _) fun _ c' own => ?_⟩
  rw [keeps_view_bind]
  have stages := (carries.stagesInOrder (n := n) (c'.memory.coordinator n).endpoint c.clock fun p own' =>
    carries.vectorize _ n p (frame.finds own) own').keeps frame own
  have fails : ∀ fault c', holds c' → (Coordinator.onRun n (RunState.fail fault)).Keeps w R k
      (fun result c' => Forced result ∧ holds c') c' := fun _ _ own => onRun_keeps frame carries own _
  refine Keeps.andThen (rescue_keeps stages fails) fun result c ended => ?_
  exact forced_bind (onRun_keeps frame carries ended.2 _) fun _ _ own => ⟨ended.1, own⟩

/-- A run that is not turned away ends well, or by force, as long as its identifier can be drawn. -/
theorem runPipeline_keeps (frame : Upkeep w R k remit holds) (carries : remit.Carries) (own : holds c)
    (draws : ∀ time world, ∃ id : Nat, (w.answer .drawId time world).reply = .ok id) :
    (Coordinator.runPipeline n).Keeps w R k (fun result c' => Forced result ∧ holds c') c := by
  have draw : ∀ c, holds c → Coordinator.drawRunId.Keeps w R k (fun result c' => Forced result ∧ holds c') c := by
    intro c own
    have allowed : remit.asks .drawId := carries.asks _ trivial
    refine (query_keeps frame own allowed).bind (fun _ _ heard => ⟨nofun, heard.1⟩) fun fault c' heard => ⟨?_, heard.1⟩
    rintro _ ⟨⟩
    rcases heard.2.1 with ⟨time, world, same⟩ | stopped
    · obtain ⟨id, drawn⟩ := draws time world
      exact nomatch same.trans drawn
    · cases stopped
      rfl
  have acquires : (Coordinator.tryAcquire n).Keeps w R k (fun result c' => Forced result ∧ holds c') c := by
    rw [Coordinator.tryAcquire, keeps_view_bind]
    split
    · exact ⟨nofun, own⟩
    · exact forced_bind (onRun_keeps frame carries own _) fun _ _ after => ⟨nofun, after⟩
  refine forced_bind acquires fun taken c own => ?_
  split
  · exact forced_bind (draw c own) fun id c own => runStages_keeps frame carries own id
  · exact ⟨nofun, own⟩

end Forced

section Refresh

variable {known : Crew ω → Prop} {out : Nat → List Noted → Except Fault Yield → Prop} {k : Who} {c : Crew ω}

/-- The memory stands as it did, and the callers are reported. -/
abbrev Crew.Stands (n r g : Nat) (out : Nat → List Noted → Except Fault Yield → Prop) (c : Crew ω) : Prop :=
  c.Reported (Charter.standing n r g).keeps out

/-- Reading the population fails only where the answers do not amount to one. -/
theorem refresh_keeps (lasts : ∀ i result, Lasting (out i · result)) (stands : c.Stands n r g out) :
    (Registry.refresh r).Keeps w (reporting known (Charter.standing n r g).keeps out) k (fun result c' => c'.Stands n r g out ∧
      ∀ fault, result = .error fault → Unreadable k c'.log fault) c := by
  rw [Registry.refresh, keeps_view_bind, stands.keeps.link]
  let heard (statement : Statement) (records : Except Fault (List Value)) (log : List Noted) : Prop := ∃ time reply,
    (time, k, .hears (.query statement (.dict [])) reply) ∈ log ∧ records = GraphClient.read statement (.dict []) reply
  have lasting : ∀ statement records, Lasting (heard statement records) := by
    rintro statement records log new ⟨time, reply, noted, same⟩
    exact ⟨time, reply, List.mem_append_left _ noted, same⟩
  have plain := reporting_upkeep w known k (.standing n r g) (fun _ => True) lasts fun _ _ => id
  refine (GraphClient.run_keeps plain ⟨stands, trivial⟩ trivial stands.keeps.client).bind ?_ ?_
  · rintro classRecords c ⟨⟨stands, -⟩, asked⟩
    have further := reporting_upkeep w known k (.standing n r g) _ lasts (lasting .allClasses (.ok classRecords))
    refine (GraphClient.run_keeps further ⟨stands, asked⟩ trivial stands.keeps.client).bind ?_ ?_
    · rintro methodRecords c ⟨⟨stands, time, first, noted, whole⟩, time', second, noted', whole'⟩
      have unreadable : ∀ fault, Registry.population first second = .error fault → Unreadable k c.log fault :=
        fun fault refused => ⟨time, first, noted, .inr ⟨time', second, noted', refused⟩⟩
      simp only [Registry.population, ← whole, ← whole'] at unreadable
      refine keeps_compute (fun classes (made : classRecords.mapM ClassEntity.ofRecord = .ok classes) => keeps_compute
        (fun methods _ => ?_) fun fault (refused : methodRecords.mapM MethodEntity.ofRecord = .error fault) => ⟨stands, ?_⟩)
        fun fault (refused : classRecords.mapM ClassEntity.ofRecord = .error fault) => ⟨stands, ?_⟩
      · rw [keeps_change_bind]
        intro isKnown
        obtain ⟨inv, loaded⟩ := plain.store ⟨stands, trivial⟩ (fun standing => standing.load classes methods) isKnown
        exact ⟨inv, loaded.1, by rintro _ ⟨⟩⟩
      · rintro _ ⟨⟩
        exact unreadable fault (by simp only [Bind.bind, Except.bind, made, refused])
      · rintro _ ⟨⟩
        exact unreadable fault (by simp only [Bind.bind, Except.bind, refused])
    · rintro fault c ⟨⟨stands, time, first, noted, whole⟩, time', second, noted', refused⟩
      refine ⟨stands, ?_⟩
      rintro _ ⟨⟩
      refine ⟨time, first, noted, .inr ⟨time', second, noted', ?_⟩⟩
      simp only [Registry.population, ← whole, ← refused]
      rfl
  · rintro fault c ⟨⟨stands, -⟩, time, reply, noted, refused⟩
    refine ⟨stands, ?_⟩
    rintro _ ⟨⟩
    exact ⟨time, reply, noted, .inl refused.symm⟩

end Refresh

section Waiting

variable {finish : Except Fault Unit → Except Fault Yield} {interval : Value} {c : Crew ω}

/-- The report on a caller who waits. -/
def waited (finish : Except Fault Unit → Except Fault Yield) (interval : Value) (i : Nat) (log : List Noted)
    (result : Except Fault Yield) : Prop :=
  i = 0 → ∃ left, result = finish left ∧ Left interval log left

theorem waited.lasting (i : Nat) (result : Except Fault Yield) : Lasting (waited finish interval i · result) := by
  intro log new told first
  obtain ⟨left, same, leaves⟩ := told first
  exact ⟨left, same, leaves.lasting _ _ _ new⟩

/-- One caller who connected before, and the jobs of this one. -/
abbrev waitingRules (ω : Type) (n r g : Nat) (finish : Except Fault Unit → Except Fault Yield) (interval : Value) : Rules ω :=
  reporting (fun c => c.Solo ∧ ∀ k h, c.hand? k = some h → h.origin.Fits k) (Charter.standing n r g).keeps (waited finish interval)

theorem required_keeps {α : Type} {R : Rules ω} {k : Who} {f : Facade → Routine α} {post : Except Fault α → Crew ω → Prop}
    (connected : c.memory.facade.connected = true) (rest : (f c.memory.facade).Keeps w R k post c) :
    (Facade.required >>= f).Keeps w R k post c := by
  show Routine.Keeps w R k post (Routine.andThen (if c.memory.facade.connected then _ else _) _) c
  rw [connected]
  exact rest

theorem waiting_upkeep (w : World ω) (n r g : Nat) (finish : Except Fault Unit → Except Fault Yield) (interval : Value) :
    Upkeep w (waitingRules ω n r g finish interval) (.caller 0) (Charter.standing n r g).remit fun c =>
      c.Stands n r g (waited finish interval) ∧ True :=
  reporting_upkeep w _ _ (.standing n r g) (fun _ => True) waited.lasting fun _ _ => id

theorem startScheduler_keeps (stands : c.Stands n r g (waited finish interval)) (loop : c.hasLoop = true)
    (same : (c.memory.coordinator n).interval = interval) :
    (Coordinator.startScheduler n).Keeps w (waitingRules ω n r g finish interval) (.caller 0) (fun result c' =>
      c'.Stands n r g (waited finish interval) ∧ ∀ fault, result = .error fault → interval.fixed 0 = .error fault) c := by
  have frame := waiting_upkeep w n r g finish interval
  have carries := Charter.standing_carries n r g
  have begins : (do
      let hasLoop : Bool ← Routine.request .hasLoop
      if !hasLoop then Routine.fail (.failure .noLoop)
      let task : Nat ← Routine.request (.spawn (.schedule n))
      Routine.change (Memory.onCoordinator n fun c => { c with scheduler := some task })
      let _ ← interval.fixed 0
      return true : Routine Bool).Keeps w (waitingRules ω n r g finish interval) (.caller 0) (fun result c' =>
        c'.Stands n r g (waited finish interval) ∧ ∀ fault, result = .error fault → interval.fixed 0 = .error fault) c := by
    refine keeps_hasLoop_bind fun known => ⟨stands, ?_⟩
    rw [loop]
    refine keeps_spawn_bind fun known => ?_
    have granted : c.Grants (.caller 0) (.spawn (.schedule n)) (.ok c.jobs.length) (c.spawn (.caller 0) (.schedule n)) := ⟨rfl, rfl⟩
    obtain ⟨inv, spawned⟩ := frame.grant ⟨stands, trivial⟩ trivial granted known
    refine ⟨inv, ?_⟩
    rw [keeps_change_bind]
    intro known
    obtain ⟨inv, noted⟩ := frame.store spawned
      (carries.change (f := fun x => { x with scheduler := some c.jobs.length }) _ n fun _ => rfl) known
    exact ⟨inv, keeps_compute (fun _ _ => ⟨noted.1, nofun⟩) fun fault refused => ⟨noted.1, by rintro _ ⟨⟩; exact refused⟩⟩
  rw [Coordinator.startScheduler, keeps_view_bind, same]
  split
  · exact ⟨stands, nofun⟩
  · cases (c.memory.coordinator n).scheduler with
    | none => exact begins
    | some task =>
      refine keeps_ended_bind fun known => ⟨stands, ?_⟩
      cases c.ended task with
      | false => exact ⟨stands, nofun⟩
      | true => exact begins

theorem waiting_keeps (draws : ∀ time world, ∃ id : Nat, (w.answer .drawId time world).reply = .ok id)
    (stands : c.Stands n r g (waited finish interval)) (loop : c.hasLoop = true)
    (same : (c.memory.coordinator n).interval = interval) :
    Command.waiting.Keeps w (waitingRules ω n r g finish interval) (.caller 0) (fun result c' =>
      c'.Stands n r g (waited finish interval) ∧ Left interval c'.log result) c := by
  have frame := waiting_upkeep w n r g finish interval
  have carries := Charter.standing_carries n r g
  have starts : Facade.startScheduler.Keeps w (waitingRules ω n r g finish interval) (.caller 0) (fun result c' =>
      c'.Stands n r g (waited finish interval) ∧ ∀ fault, result = .error fault → interval.fixed 0 = .error fault) c := by
    refine required_keeps stands.keeps.connected ?_
    rw [stands.keeps.coordinator]
    exact startScheduler_keeps stands loop same
  refine starts.bind (fun _ c after => ?_) fun fault c after => ⟨after.1, .untold (after.2 fault rfl)⟩
  have ingests : Facade.runIngestion.Keeps w (waitingRules ω n r g finish interval) (.caller 0) (fun result c' =>
      c'.Stands n r g (waited finish interval) ∧ ∀ fault, result = .error fault → Left interval c'.log (.error fault)) c := by
    refine required_keeps after.1.keeps.connected ?_
    rw [after.1.keeps.coordinator]
    refine (runPipeline_keeps frame carries ⟨after.1, trivial⟩ draws).bind (fun _ c after => ?_) fun fault c after => ?_
    · have stands := after.2.1
      have told : (Coordinator.status n).Keeps w (waitingRules ω n r g finish interval) (.caller 0) (fun result c' =>
          c'.Stands n r g (waited finish interval) ∧ ∃ status, result = .ok status) c :=
        keeps_now_bind fun _ => ⟨stands, stands, _, rfl⟩
      refine told.bind (fun status c after => ?_) fun _ _ after => nomatch after.2.choose_spec
      split
      · have reads : Facade.refresh.Keeps w (waitingRules ω n r g finish interval) (.caller 0) (fun result c' =>
            c'.Stands n r g (waited finish interval) ∧ ∀ fault, result = .error fault → Unreadable (.caller 0) c'.log fault) c := by
          refine required_keeps after.1.keeps.connected ?_
          rw [after.1.keeps.registry]
          exact refresh_keeps waited.lasting after.1
        refine reads.bind (fun _ _ after => ⟨after.1, nofun⟩) fun fault c after => ⟨after.1, ?_⟩
        rintro _ ⟨⟩
        exact .unreadable (after.2 fault rfl)
      · exact ⟨after.1, nofun⟩
    · refine ⟨after.2.1, ?_⟩
      rintro _ ⟨⟩
      exact .forced (after.1 fault rfl)
  refine ingests.bind (fun _ c after => ?_) fun fault c after => ⟨after.1, after.2 fault rfl⟩
  have asks : (query .interruption).Keeps w (waitingRules ω n r g finish interval) (.caller 0) _ c :=
    query_keeps frame ⟨after.1, trivial⟩ trivial
  refine asks.bind ?_ ?_
  · rintro _ c ⟨⟨stands, -⟩, -, time, heard⟩
    exact ⟨stands, .interrupted heard⟩
  · rintro fault c ⟨⟨stands, -⟩, -, time, heard⟩
    exact ⟨stands, .interrupted heard⟩

end Waiting

/-- Nobody leaves the waiting of a schedule but by an interruption or a cancellation, by an interval that cannot be told,
or by answers that do not amount to a population. -/
theorem Command.waiting_left (draws : ∀ time world, ∃ id : Nat, (w.answer .drawId time world).reply = .ok id)
    (standing : m.Standing n r g) {world : ω}
    {finish : Except Fault Unit → Except Fault Yield} {a : Shift ω}
    (leads : Shift.Leads w (.solo (waiting.andThen fun result => .done (finish result)) m world true) a) {h : Hand}
    {result : Except Fault Yield} (found : a.crew.hand? (.caller 0) = some h) (isOver : h.station = .over result) :
    ∃ left, result = finish left ∧ Left (m.coordinator n).interval a.crew.log left := by
  have guards : (waitingRules ω n r g finish (m.coordinator n).interval).Guards w
      (· = waiting.andThen fun result => .done (finish result)) := by
    refine ⟨⟨?call, ?drop, ?begin⟩, ?pass⟩
    case call => exact fun known _ _ known' => absurd known'.1 (known.1.not_call _)
    case pass => exact fun _ reported => ⟨reported.keeps, reported.ends⟩
    case drop =>
      intro c k h known reported _ found fresh _ closed
      refine ⟨reported.close ?_ (closed.2 k), trivial⟩
      rintro i rfl
      exact absurd fresh (known.1.begun found)
    case begin =>
      intro c k h known reported _ found fresh _ _
      cases k with
      | caller i => exact absurd fresh (known.1.begun found)
      | job j =>
        intro _
        have begun : (c.begin (.job j) h.origin).Stands n r g (waited finish (m.coordinator n).interval) :=
          reported.moved (k := .job j) (f := Hand.moved .running) waited.lasting reported.keeps ⟨_, rfl⟩ (by simp) rfl
        refine ⟨begun, ?_⟩
        have works : h.origin.routine.Minds (Charter.standing n r g).remit := by
          cases origin : h.origin with
          | job job => exact (Charter.standing_carries n r g).job job
          | caller program => exact absurd (known.2 _ h found) (by simp [origin, Origin.Fits])
        refine (works.keeps (reporting_upkeep w _ _ (.standing n r g) (fun _ => True) waited.lasting fun _ _ => id) ⟨begun, trivial⟩).imp ?_
        exact fun _ c stands known => ⟨stands.1.close (by rintro _ ⟨⟩) (known.2 _), trivial⟩
  have start : (Shift.solo (waiting.andThen fun result => .done (finish result)) m world true).crew.Stands n r g
      (waited finish (m.coordinator n).interval) := by
    refine ⟨standing, fun i h result found isOver => ?_⟩
    cases i with
    | zero =>
      cases found
      cases isOver
    | succ i => cases found
  have waits : (waiting.andThen fun result => .done (finish result)).Keeps w (waitingRules ω n r g finish (m.coordinator n).interval)
      (.caller 0) ((waitingRules ω n r g finish (m.coordinator n).interval).Closes (.caller 0))
      (Shift.solo (waiting.andThen fun result => .done (finish result)) m world true).crew := by
    refine (waiting_keeps draws start rfl rfl).andThen fun result c ended => ?_
    intro known
    refine ⟨ended.1.close ?_ (known.2 _), trivial⟩
    rintro i ⟨⟩ _
    exact ⟨result, rfl, ended.2⟩
  have sound := leads.sound guards (fun leads => ⟨leads.solo, leads.reach.knows.fits⟩) start waits
  exact sound.holds.ends 0 h result found isOver rfl

section Example

/-- A connected facade whose coordinator has helpers for stages and is to run them every minute. -/
def Memory.minutely : Memory :=
  { (default : Memory) with
    graphs := [{ (default : GraphClient) with connected := true }]
    registries := [{ (default : Registry) with graph := some 0 }]
    coordinators := [{ (default : Coordinator) with stages := .outside, scheduled := .bool true, interval := .float 60 }]
    facade := { (default : Facade) with connected := true, coordinator := some 0, registry := some 0 } }

/-- A run goes through, and the graph does not answer. -/
def World.withoutGraph : World Unit where
  answer
    | .drawId, _, _ => ⟨(), 0, .ok (7 : Nat)⟩
    | .fetchSnapshot _, _, _ => ⟨(), 0, .ok (some { (default : Snapshot) with classes := [default] })⟩
    | .perform _, _, _ => ⟨(), 0, .ok ()⟩
    | _, _, _ => ⟨(), 0, .error (.foreign .connection none)⟩

/-- Whether the wait for an interruption has ended. -/
def Deed.interrupted : Deed → Bool
  | .hears .interruption _ => true
  | _ => false

/-- The first run goes through, the population cannot be read after it, and the waiting is left for that, though nobody
interrupts it. -/
theorem Command.waiting_left_unread : ∃ a h fault,
    Shift.Leads .withoutGraph (.solo (waiting.andThen fun result => .done (result.map fun _ => .nothing)) .minutely () true) a ∧
      a.crew.hand? (.caller 0) = some h ∧ h.station = .over (.error fault) ∧ fault = .foreign .connection none ∧
      (∀ noted ∈ a.crew.log, noted.2.2.interrupted = false) ∧
      ∃ left, .error fault = left.map (fun _ => Yield.nothing) ∧ Left (Memory.minutely.coordinator 0).interval a.crew.log left := by
  let begun := Shift.solo (waiting.andThen fun result => .done (result.map fun _ => .nothing)) .minutely () true
  have leads : Shift.Leads .withoutGraph begun (begun.onward .withoutGraph 100) := Shift.onward_leads _ _
  obtain ⟨h, found, isOver⟩ : ∃ h, (begun.onward .withoutGraph 100).crew.hand? (.caller 0) = some h ∧
      h.station = .over (.error (.foreign .connection none)) := Crew.over_of_failed? rfl
  have quiet : ∀ noted ∈ (begun.onward .withoutGraph 100).crew.log, noted.2.2.interrupted = false := by
    have none : ((begun.onward .withoutGraph 100).crew.log.all fun noted => !noted.2.2.interrupted) = true := by decide +kernel
    intro noted inside
    simpa using List.all_eq_true.mp none noted inside
  exact ⟨_, h, _, leads, found, isOver, rfl, quiet,
    waiting_left (n := 0) (r := 0) (g := 0) (fun _ _ => ⟨7, rfl⟩) ⟨rfl, rfl, rfl, rfl, rfl⟩ leads found isOver⟩

end Example

end CodeAtlas
