import CodeAtlas.Proofs.Crew.Remit
import CodeAtlas.Proofs.Ingestion.Orderly

namespace CodeAtlas

variable {ω : Type}

/-- A job that runs the stages of a coordinator again and again. -/
def Crew.Schedules (c : Crew ω) (t : Nat) : Prop := ∃ h n, c.hand? (.job t) = some h ∧ h.origin = .job (.schedule n)

/-- The memory once a run has been changed. -/
abbrev Crew.onRun (n : Nat) (f : RunState → RunState) (c : Crew ω) : Memory :=
  c.memory.onCoordinator n fun x => { x with run := f x.run }

/-- Making a worker, and looking at the clock and for a loop before. -/
def Remit.starting : Remit where
  asks
    | .newWorker _ => True
    | _ => False
  writes _ _ := False
  requests
    | .now | .hasLoop => True
    | _ => False

/-- What keeps somebody who works with a coordinator to the rules: what is true of them while they have no part
in a run, while they have taken the lock, and while they are to begin a run under a name; and that each thing
they do leads from one to the other. -/
structure Coordinator.Conduct (w : World ω) (R : Rules ω) (n : Nat) (k : Who) (idle held : Crew ω → Prop)
    (ready : String → Crew ω → Prop) : Prop where
  patient : Upkeep w R k .patient idle
  acquire : ∀ {c}, idle c → (c.memory.coordinator n).run.locked = false →
    R.After (c.store k (c.onRun n RunState.acquire)) (held (c.store k (c.onRun n RunState.acquire)))
  draw : ∀ {c}, held c →
    (Routine.query .drawId).Keeps w R k (Routine.Ends (fun drawn c' => ready (drawnId drawn) c') idle) c
  prepare : ∀ id, Upkeep w R k .starting (ready id)
  lapse : ∀ {id c}, ready id c → idle c
  give : ∀ {id c}, ready id c → R.After (c.spawn k (.ingest n id)) (idle (c.spawn k (.ingest n id)))
  giveBack : ∀ {id c}, ready id c →
    R.After (c.store k (c.onRun n RunState.release)) (idle (c.store k (c.onRun n RunState.release)))
  run : ∀ {id c}, ready id c → (runStages n id).Keeps w R k (fun _ c' => idle c') c
  note : ∀ {c} (f : Coordinator → Coordinator), idle c →
    (∀ x, (f x).run = x.run ∧ (f x).scheduler = x.scheduler ∧ (f x).stages = x.stages) →
    R.After (c.store k (c.memory.onCoordinator n f)) (idle (c.store k (c.memory.onCoordinator n f)))
  launch : ∀ {c}, idle c → R.After (c.spawn k (.schedule n)) (idle (c.spawn k (.schedule n)))
  plan : ∀ {c s}, idle c → (∀ t, s = some t → c.Schedules t) →
    R.After (c.store k (c.memory.onCoordinator n fun x => { x with scheduler := s }))
      (idle (c.store k (c.memory.onCoordinator n fun x => { x with scheduler := s })))
  planned : ∀ {c t}, idle c → (c.memory.coordinator n).scheduler = some t → c.Schedules t

/-- Those who may stop the schedule keep to the rules when they do. -/
def Coordinator.MayStop (R : Rules ω) (idle : Crew ω → Prop) : Prop :=
  ∀ {c : Crew ω} {t numbers}, idle c → c.Schedules t → c.Halts t numbers →
    R.After (c.halt numbers) (idle (c.halt numbers))

namespace Coordinator.Conduct

open Routine

variable {w : World ω} {R : Rules ω} {n : Nat} {k : Who} {idle held : Crew ω → Prop} {ready : String → Crew ω → Prop}
  {c : Crew ω}

theorem tryAcquire (conduct : Conduct w R n k idle held ready) (at_rest : idle c) :
    (tryAcquire n).Keeps w R k
      (Ends (fun taken c' => taken = true ∧ held c' ∨ taken = false ∧ idle c') idle) c := by
  unfold Coordinator.tryAcquire
  rw [keeps_view_bind]
  split
  next locked => exact .inr ⟨rfl, at_rest⟩
  next unlocked =>
    rw [onRun, keeps_change_bind]
    intro known
    obtain ⟨inv, taken⟩ := conduct.acquire at_rest (Bool.eq_false_iff.mpr unlocked) known
    exact ⟨inv, .inl ⟨rfl, taken⟩⟩

theorem drawRunId (conduct : Conduct w R n k idle held ready) (taken : held c) :
    drawRunId.Keeps w R k (Ends ready idle) c :=
  (conduct.draw taken).bind (fun _ _ after => after) fun _ _ after => after

/-- A run is carried out here, or nothing is done at all. -/
theorem runPipeline (conduct : Conduct w R n k idle held ready) (at_rest : idle c) :
    (runPipeline n).Keeps w R k (fun _ c' => idle c') c := by
  refine (conduct.tryAcquire at_rest).seq ?_
  rintro taken c₁ (⟨rfl, taken⟩ | ⟨rfl, at_rest⟩)
  · exact (conduct.drawRunId taken).seq fun id c₂ begins => conduct.run begins
  · exact at_rest

theorem noted (conduct : Conduct w R n k idle held ready) (at_rest : idle c) (f : Coordinator → Coordinator)
    (keeps : ∀ x, (f x).run = x.run ∧ (f x).scheduler = x.scheduler ∧ (f x).stages = x.stages) :
    (change (Memory.onCoordinator n f)).Keeps w R k (fun _ c' => idle c') c := by
  rw [keeps_change]
  exact conduct.note f at_rest keeps

/-- The run goes to a job, or a worker for it was refused and the lock is still the caller's. -/
theorem startRun {id : String} (conduct : Conduct w R n k idle held ready) (begins : ready id c) :
    (startRun n id).Keeps w R k (Ends (fun _ c' => idle c') (ready id)) c := by
  have passes : ∀ {c} (job : Nat) (f : Nat → Coordinator → Coordinator), ready id c →
      (∀ x, (f job x).run = x.run ∧ (f job x).scheduler = x.scheduler ∧ (f job x).stages = x.stages) →
      R.After (c.spawn k (.ingest n id)) ((change (Memory.onCoordinator n (f job))).Keeps w R k
        (Ends (fun _ c' => idle c') (ready id)) (c.spawn k (.ingest n id))) := by
    intro c job f begins keeps known
    obtain ⟨inv, at_rest⟩ := conduct.give begins known
    exact ⟨inv, (keeps_change).mpr (conduct.note (f job) at_rest keeps)⟩
  unfold Coordinator.startRun
  have looked : R.After c (ready id c) := by
    have allowed : Remit.starting.requests .hasLoop := trivial
    exact (conduct.prepare id).grant begins allowed ⟨rfl, rfl⟩
  refine keeps_hasLoop_bind fun known => ⟨(looked known).1, ?_⟩
  cases c.hasLoop with
  | true =>
    refine keeps_spawn_bind ?_
    exact passes _ (fun task x => { x with task := some task }) begins fun _ => ⟨rfl, rfl, rfl⟩
  | false =>
    have asks : ∀ name, (query (.newWorker name)).Keeps w R k (fun _ c' => ready id c') c := fun name =>
      (Minds.query (q := .newWorker name) trivial).keeps (conduct.prepare id) begins
    refine (asks _).bind (fun _ c' begins' => ?_) fun _ _ begins' => begins'
    refine keeps_dispatch_bind ?_
    exact passes _ (fun worker x => { x with worker := some worker }) begins' fun _ => ⟨rfl, rfl, rfl⟩

/-- Somebody who only waits or looks at the clock. -/
theorem waits {α : Type} {p : Routine α} (conduct : Conduct w R n k idle held ready) (minds : p.Minds .patient)
    (at_rest : idle c) : p.Keeps w R k (fun _ c' => idle c') c :=
  minds.keeps conduct.patient at_rest

theorem status_minds (n : Nat) : (status n).Minds .patient :=
  (Minds.view _).bind fun _ => (Minds.request trivial).bind fun _ => .pure _

theorem refusal_minds (n : Nat) (message : String) : (refusal n message).Minds .patient :=
  (status_minds n).bind fun _ => .pure _

theorem unlessEnded_minds {job : Option Nat} {await : Nat → Control} (patient : ∀ t, Remit.patient.requests (await t)) :
    (unlessEnded job await).Minds .patient := by
  cases job with
  | none => exact .pure _
  | some t =>
    refine Minds.bind (.request trivial) fun ended => ?_
    split
    · exact (Minds.request (patient t)).bind fun _ => .pure _
    · exact .pure _

theorem wait_minds (n : Nat) : (wait n).Minds .patient := by
  have shields : ∀ t, Remit.patient.requests (.shield t) := fun _ => trivial
  have joins : ∀ t, Remit.patient.requests (.joinWorker t) := fun _ => trivial
  refine (Minds.view _).bind fun c => (unlessEnded_minds shields).bind fun _ => ?_
  exact (Minds.view _).bind fun c => unlessEnded_minds joins

theorem trigger (conduct : Conduct w R n k idle held ready) (at_rest : idle c) :
    (trigger n).Keeps w R k (fun _ c' => idle c') c := by
  have refused : ∀ {c} message, idle c → (refusal n message).Keeps w R k (fun _ c' => idle c') c := fun message =>
    conduct.waits (refusal_minds n message)
  refine (conduct.tryAcquire at_rest).seq ?_
  rintro taken c₁ (⟨rfl, taken⟩ | ⟨rfl, at_rest⟩)
  · refine (conduct.drawRunId taken).seq fun id c₂ begins => ?_
    have tried : (Coordinator.startRun n id).attempt.Keeps w R k (Ends (Ends (fun _ c' => idle c') (ready id)) idle) c₂ :=
      Keeps.andThen (conduct.startRun begins) fun _ _ after => after
    refine tried.seq fun result c₃ after => ?_
    · cases result with
      | ok => exact (conduct.waits (Minds.request (c := .now) trivial) after).bind (fun _ _ after => after) fun _ _ after => after
      | error fault =>
        dsimp only
        split
        · rw [release, onRun, keeps_change_bind]
          exact fun known => ⟨(conduct.giveBack after known).1, refused _ (conduct.giveBack after known).2⟩
        · exact conduct.lapse after
  · exact refused _ at_rest

/-- The job is started and remembered. -/
theorem begins (conduct : Conduct w R n k idle held ready) (at_rest : idle c) (interval : Value) : (do
      let hasLoop : Bool ← request .hasLoop
      if !hasLoop then Routine.fail (.failure .noLoop)
      let task : Nat ← request (.spawn (.schedule n))
      change (Memory.onCoordinator n fun c => { c with scheduler := some task })
      let _ ← interval.fixed 0
      return true : Routine Bool).Keeps w R k (fun _ c' => idle c') c := by
  have looked : R.After c (idle c) := by
    have allowed : Remit.patient.requests .hasLoop := trivial
    exact conduct.patient.grant at_rest allowed ⟨rfl, rfl⟩
  refine keeps_hasLoop_bind fun known => ⟨(looked known).1, ?_⟩
  cases c.hasLoop with
  | false => exact at_rest
  | true =>
    refine keeps_spawn_bind fun known => ?_
    obtain ⟨inv, launched⟩ := conduct.launch at_rest known
    have there : (c.spawn k (.schedule n)).Schedules c.jobs.length :=
      ⟨_, n, by rw [Crew.hand?_spawn, if_pos rfl], rfl⟩
    refine ⟨inv, ?_⟩
    rw [keeps_change_bind]
    intro known
    obtain ⟨inv, planned⟩ := conduct.plan (s := some c.jobs.length) launched (by rintro _ ⟨⟩; exact there) known
    exact ⟨inv, keeps_lift_bind (fun _ => planned) fun _ => planned⟩

theorem startScheduler (conduct : Conduct w R n k idle held ready) (at_rest : idle c) :
    (startScheduler n).Keeps w R k (fun _ c' => idle c') c := by
  unfold Coordinator.startScheduler
  rw [keeps_view_bind]
  split
  · exact at_rest
  · split
    · exact conduct.begins at_rest _
    next t _ =>
      have looked : R.After c (idle c) := by
        have allowed : Remit.patient.requests (.ended t) := trivial
        exact conduct.patient.grant at_rest allowed ⟨rfl, rfl⟩
      refine keeps_ended_bind fun known => ⟨(looked known).1, ?_⟩
      cases c.ended t with
      | true => exact conduct.begins at_rest _
      | false => exact at_rest

theorem stopScheduler (conduct : Conduct w R n k idle held ready) (stops : MayStop R idle) (at_rest : idle c) :
    (stopScheduler n).Keeps w R k (fun _ c' => idle c') c := by
  unfold Coordinator.stopScheduler
  rw [keeps_view_bind, keeps_change_bind]
  intro known
  obtain ⟨inv, unplanned⟩ := conduct.plan (s := none) at_rest nofun known
  refine ⟨inv, ?_⟩
  split
  · exact unplanned
  next t planned =>
    have there : (c.store k (c.memory.onCoordinator n fun x => { x with scheduler := none })).Schedules t := by
      obtain ⟨h, m, found, origin⟩ := conduct.planned at_rest planned
      exact ⟨h, m, found, origin⟩
    refine keeps_cancel_bind fun numbers halts known => ⟨(stops unplanned there halts known).1, ?_⟩
    have stopped := (stops unplanned there halts known).2
    refine (conduct.waits (Minds.request (c := .join t) trivial) stopped).andThen fun result c' after => ?_
    split <;> exact after

theorem pauseFor_minds (seconds : Value) : (pauseFor seconds).Minds .patient :=
  (Minds.ofExcept _).bind fun _ => (Minds.ofExcept _).bind fun _ => .request trivial

theorem scheduleRound (conduct : Conduct w R n k idle held ready) (at_rest : idle c) :
    (scheduleRound n).Keeps w R k (fun _ c' => idle c') c := by
  unfold Coordinator.scheduleRound
  rw [keeps_view_bind]
  exact (conduct.waits (pauseFor_minds _) at_rest).bind (fun _ _ after => conduct.runPipeline after) fun _ _ after => after

/-- Whoever calls a coordinator keeps to the rules, whatever they call in whatever order. -/
theorem caller (conduct : Conduct w R n k idle held ready) (stops : MayStop R idle)
    (closes : ∀ {c result}, idle c → R.Closes k result c) {program : Routine Yield} (calls : Caller n program)
    (at_rest : idle c) : program.Keeps w R k (R.Closes k) c := by
  induction calls generalizing c with
  | done => exact closes at_rest
  | trigger _ ih => exact (conduct.trigger at_rest).andThen fun answer _ after => ih answer after
  | runPipeline _ ih => exact (conduct.runPipeline at_rest).andThen fun answer _ after => ih answer after
  | startScheduler _ ih => exact (conduct.startScheduler at_rest).andThen fun answer _ after => ih answer after
  | stopScheduler _ ih => exact (conduct.stopScheduler stops at_rest).andThen fun answer _ after => ih answer after
  | status _ ih => exact (conduct.waits (status_minds n) at_rest).andThen fun answer _ after => ih answer after
  | wait _ ih => exact (conduct.waits (wait_minds n) at_rest).andThen fun answer _ after => ih answer after
  | @pause seconds _ _ ih =>
    exact (conduct.waits (Minds.request (c := .pause seconds) trivial) at_rest).andThen fun answer _ after => ih answer after

end Coordinator.Conduct

namespace Coordinator

open Routine

/-- What carries a run through its stages: the owner may look at the clock and change what is kept of the run, work
in each stage leaves the run to its owner, and in the end the lock is free. -/
structure Drive (w : World ω) (R : Rules ω) (n : Nat) (k : Who) (source : StageSource → Prop) (owns idle : Crew ω → Prop) :
    Prop where
  looks : ∀ {c}, owns c → R.After c (owns c)
  drives : ∀ {c} (f : RunState → RunState), owns c → (∀ r, (f r).locked = r.locked) →
    R.After (c.store k (c.onRun n f)) (owns (c.store k (c.onRun n f)))
  sources : ∀ {c}, owns c → source (c.memory.coordinator n).stages
  fetch : ∀ {s c} endpoint, source s → owns c → (s.fetch endpoint).Keeps w R k (fun _ c' => owns c') c
  build : ∀ {s c} snapshot, source s → owns c → (s.build snapshot).Keeps w R k (fun _ c' => owns c') c
  enrich : ∀ {s c}, source s → owns c → s.enrich.Keeps w R k (fun _ c' => owns c') c
  vectorize : ∀ {s c}, source s → owns c → s.vectorize.Keeps w R k (fun _ c' => owns c') c
  release : ∀ {c}, owns c → R.After (c.store k (c.onRun n RunState.release)) (idle (c.store k (c.onRun n RunState.release)))

namespace Drive

variable {w : World ω} {R : Rules ω} {n : Nat} {k : Who} {c : Crew ω} {source : StageSource → Prop} {owns idle : Crew ω → Prop}

theorem driven (drive : Drive w R n k source owns idle) (f : RunState → RunState) (keeps : ∀ r, (f r).locked = r.locked)
    (own : owns c) : (onRun n f).Keeps w R k (fun _ c' => owns c') c :=
  keeps_change.mpr (drive.drives f own keeps)

theorem stagesInOrder {s : StageSource} (drive : Drive w R n k source owns idle) (from_ : source s) (endpoint : Value)
    (start : Float) (own : owns c) : (stagesInOrder n s endpoint start).Keeps w R k (fun _ c' => owns c') c := by
  have enter : ∀ {c stage}, owns c → (onRun n (RunState.enter stage)).Keeps w R k (fun _ c' => owns c') c :=
    fun own => drive.driven _ (fun _ => rfl) own
  refine (enter own).bind (fun _ c₁ own => ?_) fun _ _ own => own
  refine (drive.fetch endpoint from_ own).bind (fun fetched c₂ own => ?_) fun _ _ own => own
  cases fetched with
  | none => exact own
  | some snapshot =>
    dsimp only
    split
    · exact own
    · refine (enter own).bind (fun _ c₃ own => ?_) fun _ _ own => own
      refine (drive.build snapshot from_ own).bind (fun _ c₄ own => ?_) fun _ _ own => own
      refine (enter own).bind (fun _ c₅ own => ?_) fun _ _ own => own
      refine (drive.enrich from_ own).bind (fun _ c₆ own => ?_) fun _ _ own => own
      refine (enter own).bind (fun _ c₇ own => ?_) fun _ _ own => own
      refine (drive.vectorize from_ own).bind (fun _ c₈ own => ?_) fun _ _ own => own
      exact keeps_now_bind fun known => ⟨(drive.looks own known).1, drive.driven _ (fun _ => rfl) own⟩

/-- A run ends in every case, and frees the lock then. -/
theorem runStages (drive : Drive w R n k source owns idle) (id : String) (own : owns c) :
    (runStages n id).Keeps w R k (fun _ c' => idle c') c := by
  unfold Coordinator.runStages
  refine keeps_now_bind fun known => ⟨(drive.looks own known).1, ?_⟩
  rw [onRun, keeps_change_bind]
  intro known
  obtain ⟨inv, own⟩ := drive.drives (RunState.start id c.clock) own (fun _ => rfl) known
  refine ⟨inv, ?_⟩
  rw [keeps_view_bind]
  have releases : ∀ c', owns c' → (Coordinator.release n).Keeps w R k (fun _ c'' => idle c'') c' :=
    fun c' own => keeps_change.mpr (drive.release own)
  refine Keeps.ensuring (Keeps.rescue (drive.stagesInOrder (drive.sources own) _ _ own) ?_) releases
  exact fun fault c' own => drive.driven _ (fun _ => rfl) own

end Drive

end Coordinator

end CodeAtlas
