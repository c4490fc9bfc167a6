import CodeAtlas.Proofs.Crew.Staff
import CodeAtlas.Proofs.Ingestion.Rounds
import CodeAtlas.Proofs.Ingestion.Timetable

namespace CodeAtlas

open Routine

variable {ω : Type}

/-- What is changed of a coordinator leaves the rest of it as it was. -/
theorem Memory.part_onCoordinator {α : Type} {m : Memory} {n i : Nat} {f : Coordinator → Coordinator} {p : Coordinator → α}
    (same : ∀ y, p (f y) = p y) : p ((m.onCoordinator n f).coordinator i) = p (m.coordinator i) := part_modify_same same

/-- What belongs to a coordinator and to nobody's run is left alone, nothing is given to a job but a run, and no job is
stopped. -/
def Remit.errands (n : Nat) : Remit where
  asks _ := True
  writes m m' := (m'.coordinator n).scheduler = (m.coordinator n).scheduler ∧
    (m'.coordinator n).stages = (m.coordinator n).stages ∧ (m'.coordinator n).interval = (m.coordinator n).interval
  requests
    | .spawn job | .dispatch job => ∃ id, job = .ingest n id
    | .gather .. | .cancel _ => False
    | _ => True
  finds m := (m.coordinator n).stages = .outside
  leaves found writes := writes.2.1.trans found

namespace Coordinator

variable {n : Nat}

theorem change_errands {f : Coordinator → Coordinator}
    (same : ∀ x, (f x).scheduler = x.scheduler ∧ (f x).stages = x.stages ∧ (f x).interval = x.interval) :
    (change (Memory.onCoordinator n f)).Minds (.errands n) :=
  .change fun _ => ⟨Memory.part_onCoordinator fun x => (same x).1, Memory.part_onCoordinator fun x => (same x).2.1,
    Memory.part_onCoordinator fun x => (same x).2.2⟩

theorem onRun_errands (f : RunState → RunState) : (onRun n f).Minds (.errands n) :=
  change_errands fun _ => ⟨rfl, rfl, rfl⟩

theorem patient_errands {α : Type} {p : Routine α} (minds : p.Minds .patient) : p.Minds (.errands n) :=
  minds.mono (fun _ => False.elim) (fun _ _ => False.elim) fun request patient => by cases request <;> trivial

theorem stagesInOrder_errands (endpoint : Value) (start : Float) :
    (stagesInOrder n .outside endpoint start).Minds (.errands n) := by
  have asks : ∀ question : Ask, (query question).Minds (.errands n) := fun _ => .query trivial
  refine (onRun_errands _).bind fun _ => (asks (.fetchSnapshot endpoint)).bind fun found => ?_
  cases found with
  | none => exact .pure _
  | some snapshot =>
    refine .ite (fun _ => .pure _) fun _ => (onRun_errands _).bind fun _ => (asks (.perform .build)).bind fun _ => ?_
    refine (onRun_errands _).bind fun _ => (asks (.perform .enrich)).bind fun _ => ?_
    refine (onRun_errands _).bind fun _ => (asks (.perform .vectorize)).bind fun _ => ?_
    exact (patient_errands (Minds.request (c := .now) trivial)).bind fun _ => onRun_errands _

theorem runStages_errands (id : String) : (runStages n id).Minds (.errands n) := by
  refine (patient_errands (Minds.request (c := .now) trivial)).bind fun start => (onRun_errands _).bind fun _ => ?_
  refine Minds.look (f := (·.coordinator n)) fun m outside => ?_
  have stages : (m.coordinator n).stages = .outside := outside
  rw [stages]
  exact ((stagesInOrder_errands _ _).rescue fun _ => onRun_errands _).ensuring (onRun_errands _)

theorem tryAcquire_errands : (tryAcquire n).Minds (.errands n) :=
  (Minds.view _).bind fun _ => .ite (fun _ => .pure _) fun _ => (onRun_errands _).bind fun _ => .pure _

theorem drawRunId_errands : drawRunId.Minds (.errands n) := (Minds.query (q := .drawId) trivial).bind fun _ => .pure _

theorem runPipeline_errands : (runPipeline n).Minds (.errands n) :=
  tryAcquire_errands.bind fun _ => .ite (fun _ => drawRunId_errands.bind fun _ => runStages_errands _) fun _ => .pure _

theorem startRun_errands (id : String) : (startRun n id).Minds (.errands n) := by
  refine (patient_errands (Minds.request (c := .hasLoop) trivial)).bind fun (hasLoop : Bool) => .ite (fun _ => ?_) fun _ => ?_
  · have spawns : (request (.spawn (.ingest n id))).Minds (.errands n) := .request ⟨id, rfl⟩
    exact spawns.bind fun _ => change_errands fun _ => ⟨rfl, rfl, rfl⟩
  · have dispatches : (request (.dispatch (.ingest n id))).Minds (.errands n) := .request ⟨id, rfl⟩
    refine (Minds.query (q := .newWorker _) trivial).bind fun _ => dispatches.bind fun _ => ?_
    exact change_errands fun _ => ⟨rfl, rfl, rfl⟩

theorem trigger_errands : (trigger n).Minds (.errands n) := by
  have refused : ∀ message, (refusal n message).Minds (.errands n) := fun message =>
    patient_errands (Conduct.refusal_minds n message)
  refine tryAcquire_errands.bind fun _ => .ite (fun _ => drawRunId_errands.bind fun id => ?_) fun _ => refused _
  refine Minds.bind ((startRun_errands id).andThen fun _ => .done _) fun result => ?_
  cases result with
  | ok => exact (patient_errands (Minds.request (c := .now) trivial)).bind fun _ => .pure _
  | error => exact .ite (fun _ => (onRun_errands _).bind fun _ => refused _) fun _ => .fail _

theorem scheduleRound_errands : (scheduleRound n).Minds (.errands n) :=
  (Minds.view _).bind fun _ => (patient_errands (Conduct.pauseFor_minds _)).bind fun _ => runPipeline_errands

end Coordinator

namespace Crew

/-- The coordinator is set up as it was, jobs are those that a coordinator has done, and whoever was to be stopped keeps to
the timetable. -/
structure Furnished (x : Timetable) (c : Crew ω) : Prop where
  outside : (c.memory.coordinator x.coordinator).stages = .outside
  interval : (c.memory.coordinator x.coordinator).interval = (x.memory.coordinator x.coordinator).interval
  staff : c.Staffed fun k origin => origin.Known x.coordinator k
  hired : ∀ i t earlier later, c.CallsOff x i t earlier later → ∃ h, c.hand? (.job t) = some h ∧ h.origin = x.loop

/-- Only the job that is scheduled is live, and nobody has begun to put an end to it. -/
structure Planned (x : Timetable) (c : Crew ω) : Prop where
  live : ∀ t, c.Ticking x t → (c.memory.coordinator x.coordinator).scheduler = some t
  spared : ∀ t, (c.memory.coordinator x.coordinator).scheduler = some t → c.Spared x t

/-- At most one job is live, and between two turns it is the one that is scheduled. -/
structure Scheduled (x : Timetable) (c : Crew ω) : Prop where
  furnished : c.Furnished x
  single : ∀ t t', c.Ticking x t → c.Ticking x t' → t = t'
  planned : c.Still → c.Planned x

variable {x : Timetable} {m : Memory} {c c' : Crew ω} {k : Who} {i t : Nat} {new : Diary} {brings : Job → Prop}
  {halts : Nat → Prop}

theorem Planned.scheduled (planned : c.Planned x) (furnished : c.Furnished x) : c.Scheduled x where
  furnished := furnished
  single _ _ live live' := Option.some.inj ((planned.live _ live).symm.trans (planned.live _ live'))
  planned _ := planned

/-- When somebody begins, somebody is to be stopped who was to be before, or the job that is scheduled now. -/
theorem CallsOff.begins {earlier later : List Noted} {origin : Origin} (recorded : c.Recorded x.memory)
    (stops : (c.begin k origin).CallsOff x i t earlier later) : (∃ since, c.CallsOff x i t earlier since) ∨
      k = .caller i ∧ origin = x.stopping ∧ earlier = c.log ∧ later = [] ∧
        (c.memory.coordinator x.coordinator).scheduler = some t := by
  obtain ⟨time, whole, scheduled⟩ := stops
  have parts : c.log ++ [(c.clock, k, Deed.begins origin)] = _ := whole
  rcases Log.split_append parts with ⟨since, rfl, old⟩ | ⟨first, same, recent⟩
  · exact .inl ⟨since, time, old, scheduled⟩
  · cases first with
    | nil =>
      obtain ⟨now, rfl⟩ := List.cons_eq_cons.mp recent
      cases now
      rw [List.append_nil] at same
      subst same
      exact .inr ⟨rfl, rfl, rfl, rfl, by rw [recorded.memory, scheduled]⟩
    | cons => simp at recent

/-- What is done leaves a coordinator set up, if nobody is hired but those whom it has. -/
theorem Furnished.acts (furnished : c.Furnished x) (acts : Acts brings halts k new c c')
    (known : ∀ job t, brings job → (Origin.job job).Known x.coordinator (.job t))
    (outside : (c'.memory.coordinator x.coordinator).stages = (c.memory.coordinator x.coordinator).stages)
    (interval : (c'.memory.coordinator x.coordinator).interval = (c.memory.coordinator x.coordinator).interval)
    (stops : ∀ i t earlier later, c'.CallsOff x i t earlier later → (∃ since, c.CallsOff x i t earlier since) ∨
      ∃ h, c.hand? (.job t) = some h ∧ h.origin = x.loop) : c'.Furnished x where
  outside := outside.trans furnished.outside
  interval := interval.trans furnished.interval
  staff := by
    intro j h' found
    rcases acts.follows.newcomers j h' found with ⟨h, found'⟩ | ⟨_, fits⟩
    · obtain ⟨h'', found'', origin, _⟩ := acts.follows.hands j h found'
      cases Option.some.inj (found.symm.trans found'')
      exact origin ▸ furnished.staff j h found'
    · cases j with
      | job t =>
        rcases acts.brought t h' found with ⟨h, found'⟩ | ⟨job, origin, brings⟩
        · obtain ⟨h'', found'', origin, _⟩ := acts.follows.hands _ h found'
          cases Option.some.inj (found.symm.trans found'')
          exact origin ▸ furnished.staff _ h found'
        · exact origin ▸ known job t brings
      | caller i =>
        cases origin : h'.origin with
        | job => rw [origin] at fits; exact fits.elim
        | caller => exact .caller
  hired := by
    intro i t earlier later stopped
    have old : ∃ h, c.hand? (.job t) = some h ∧ h.origin = x.loop := by
      rcases stops i t earlier later stopped with ⟨since, before⟩ | there
      · exact furnished.hired i t earlier since before
      · exact there
    obtain ⟨h, found, origin⟩ := old
    obtain ⟨h', found', origin', _⟩ := acts.follows.hands _ h found
    exact ⟨h', found', origin'.trans origin⟩

/-- A job that is live was live before, or was not there. -/
theorem Ticking.before (live : c'.Ticking x t) (acts : Acts brings halts k new c c') :
    c.Ticking x t ∨ c.hand? (.job t) = none ∧ brings (.schedule x.coordinator) := by
  obtain ⟨h', found, origin, going, spared⟩ := live
  cases there : c.hand? (.job t) with
  | some h =>
    obtain ⟨h'', found'', same, _, station⟩ := acts.follows.hands _ h there
    cases Option.some.inj (found.symm.trans found'')
    refine .inl ⟨h, there, same.symm.trans origin, fun result ended => ?_, spared.old acts.log⟩
    by_cases own : .job t = k
    · exact acts.active h result (own ▸ there) ended
    · exact going result ((station own).trans ended)
  | none =>
    rcases acts.brought t h' found with ⟨h, found'⟩ | ⟨job, origin', may⟩
    · cases there.symm.trans found'
    · cases origin'.symm.trans origin
      exact .inr ⟨rfl, may⟩

/-- As long as the schedule is left alone, it stays planned. -/
theorem Planned.acts (planned : c.Planned x) (acts : Acts brings halts k new c c') (none : ¬brings (.schedule x.coordinator))
    (same : (c'.memory.coordinator x.coordinator).scheduler = (c.memory.coordinator x.coordinator).scheduler)
    (others : ∀ entry ∈ new, entry.2 ≠ .begins x.stopping) : c'.Planned x where
  live := by
    intro t live
    rcases live.before acts with before | ⟨_, may⟩
    · exact same.trans (planned.live t before)
    · exact absurd may none
  spared t scheduled := (planned.spared t (same.symm.trans scheduled)).goesOn acts.log others

/-- The rules by which a coordinator has at most one job that keeps to the timetable. -/
def scheduling (ω : Type) (x : Timetable) : Rules ω where
  known c := c.Recorded x.memory ∧ c.Regular
  inv := Scheduled x
  may _ _ _ := True

/-- It is the turn of somebody who has nothing under way with the schedule. -/
abbrev Tends (x : Timetable) (k : Who) (c : Crew ω) : Prop :=
  ((c.Recorded x.memory ∧ c.Regular) ∧ ∃ h, c.hand? k = some h ∧ h.station = .running) ∧ c.Furnished x ∧ c.Planned x

theorem Furnished.quiet (furnished : c.Furnished x) (acts : Acts brings halts k new c c')
    (known : ∀ job t, brings job → (Origin.job job).Known x.coordinator (.job t))
    (memory : c'.memory = c.memory ∨ (Remit.errands x.coordinator).writes c.memory c'.memory)
    (others : ∀ entry ∈ new, entry.2 ≠ .begins x.stopping) : c'.Furnished x := by
  have same : (c'.memory.coordinator x.coordinator).stages = (c.memory.coordinator x.coordinator).stages ∧
      (c'.memory.coordinator x.coordinator).interval = (c.memory.coordinator x.coordinator).interval := by
    rcases memory with same | writes
    · rw [same]
      exact ⟨rfl, rfl⟩
    · exact writes.2
  refine furnished.acts acts known same.1 same.2 fun i t earlier later stops => ?_
  obtain ⟨since, _, before⟩ := stops.old acts.log others
  exact .inl ⟨since, before⟩

/-- What is noted of the schedule changes nothing else. -/
theorem Furnished.store {f : Coordinator → Coordinator} (furnished : c.Furnished x) (active : c.Active k)
    (same : ∀ y, (f y).stages = y.stages ∧ (f y).interval = y.interval) :
    (c.store k (c.memory.onCoordinator x.coordinator f)).Furnished x := by
  have acts : Acts (fun _ => False) (fun _ => True) k _ c _ := .store active (c.memory.onCoordinator x.coordinator f)
  refine furnished.acts acts (fun _ _ => False.elim) (Memory.part_onCoordinator fun y => (same y).1)
    (Memory.part_onCoordinator fun y => (same y).2) fun i t earlier later stops => ?_
  obtain ⟨since, _, before⟩ := stops.old acts.log (by simp)
  exact .inl ⟨since, before⟩

theorem errands_known (job : Job) (t : Nat) (ingests : ∃ id, job = .ingest x.coordinator id) :
    (Origin.job job).Known x.coordinator (.job t) := by
  obtain ⟨id, rfl⟩ := ingests
  exact .ingest

theorem errands_none : ¬∃ id, Job.schedule x.coordinator = .ingest x.coordinator id := nofun

/-- Whoever leaves the schedule alone keeps it planned. -/
theorem Tends.upkeep (w : World ω) (x : Timetable) (k : Who) :
    Upkeep w (scheduling ω x) k (.errands x.coordinator) (Tends x k) := by
  have requests : ∀ request job, (Remit.errands x.coordinator).requests request → request.Brings job →
      ∃ id, job = .ingest x.coordinator id := by
    intro request job may brings
    cases request with
    | spawn | dispatch => exact brings ▸ may
    | gather | cancel => exact may.elim
    | _ => exact brings.elim
  refine Upkeep.of_acts requests (fun _ _ t _ _ => (trivial : (fun _ => True) t)) (fun _ _ => trivial) ?_ ?_ ?_ ?_
  · exact fun _ own => own.1.outside
  · exact fun _ _ _ inv still _ => ⟨inv.furnished, inv.planned still⟩
  · intro c c' new _ _ own acts memory unbegun
    have others : ∀ entry ∈ new, entry.2 ≠ .begins x.stopping := fun entry inside => unbegun entry inside _
    have same : (c'.memory.coordinator x.coordinator).scheduler = (c.memory.coordinator x.coordinator).scheduler := by
      rcases memory with same | writes
      · rw [same]
      · exact writes.1
    exact ⟨own.1.quiet acts errands_known memory others, own.2.acts acts errands_none same others⟩
  · exact fun _ own => own.2.scheduled own.1

theorem Tends.closes {result : Except Fault Yield} (tends : Tends x k c) : (scheduling ω x).Closes k result c := by
  obtain ⟨⟨_, h, found, runs⟩, furnished, planned⟩ := tends
  have acts : Acts (fun job => ∃ id, job = .ingest x.coordinator id) (fun _ => True) k [] c (c.close k result) :=
    .close (active_of found runs nofun) result
  intro _
  exact ⟨(planned.acts acts errands_none rfl (by simp)).scheduled (furnished.quiet acts errands_known (.inl rfl) (by simp)), trivial⟩

/-- Whoever is on turn keeps to what somebody on turn does. -/
theorem Scheduled.of_turn {h : Hand} (furnished : c.Furnished x) (single : ∀ t t', c.Ticking x t → c.Ticking x t' → t = t')
    (found : c.hand? k = some h) (runs : h.station = .running) : c.Scheduled x :=
  ⟨furnished, single, fun still => absurd runs (still k h found)⟩

/-- A job that is to keep to the timetable is added and remembered where none is live. -/
theorem Tends.launches (w : World ω) (tends : Tends x k c) (present : x.coordinator < c.memory.coordinators.length)
    (free : ∀ t, ¬c.Ticking x t) (interval : Value) : (do
      let hasLoop : Bool ← request .hasLoop
      if !hasLoop then Routine.fail (.failure .noLoop)
      let task : Nat ← request (.spawn (.schedule x.coordinator))
      change (Memory.onCoordinator x.coordinator fun c => { c with scheduler := some task })
      let _ ← interval.fixed 0
      return true : Routine Bool).Keeps w (scheduling ω x) k (fun _ c' => Tends x k c') c := by
  obtain ⟨⟨_, h, found, runs⟩, furnished, planned⟩ := id tends
  refine keeps_hasLoop_bind fun _ => ⟨planned.scheduled furnished, ?_⟩
  cases c.hasLoop with
  | false => exact tends
  | true =>
    refine keeps_spawn_bind fun _ => ?_
    have spawns : Acts (· = .schedule x.coordinator) (fun _ => True) k _ c (c.spawn k (.schedule x.coordinator)) :=
      .spawn (active_of found runs nofun) rfl
    have known : ∀ (job : Job) (t : Nat), job = .schedule x.coordinator → (Origin.job job).Known x.coordinator (.job t) := by
      rintro _ t rfl
      exact .schedule
    have furnished₁ := furnished.quiet spawns known (.inl rfl) (by simp)
    have only : ∀ t, (c.spawn k (.schedule x.coordinator)).Ticking x t → t = c.jobs.length := by
      intro t live
      rcases live.before spawns with before | ⟨absent, _⟩
      · exact absurd before (free t)
      · obtain ⟨h', there, _⟩ := live
        rcases spawn_cases there with old | ⟨same, _⟩
        · cases absent.symm.trans old
        · exact Who.job.inj same
    have found₁ : (c.spawn k (.schedule x.coordinator)).hand? k = some h := spawn_found found
    refine ⟨.of_turn furnished₁ (fun t t' live live' => (only t live).trans (only t' live').symm) found₁ runs, ?_⟩
    rw [keeps_change_bind]
    intro known₂
    have stores : Acts (fun _ => False) (fun _ => True) k _ _ _ := .store (active_of found₁ runs nofun)
      ((c.spawn k (.schedule x.coordinator)).memory.onCoordinator x.coordinator fun y => { y with scheduler := some c.jobs.length })
    have coordinator := Memory.coordinator_onCoordinator (fun y => { y with scheduler := some c.jobs.length }) present
    have furnished₂ := furnished₁.store (f := fun y => { y with scheduler := some c.jobs.length })
      (active_of found₁ runs nofun) fun _ => ⟨rfl, rfl⟩
    have planned₂ : Planned x ((c.spawn k (.schedule x.coordinator)).store k
        ((c.spawn k (.schedule x.coordinator)).memory.onCoordinator x.coordinator
          fun y => { y with scheduler := some c.jobs.length })) := by
      refine ⟨fun t live => ?_, fun t scheduled => ?_⟩
      · rcases live.before stores with before | ⟨_, never⟩
        · exact (congrArg Coordinator.scheduler coordinator).trans (congrArg some (only t before).symm)
        · exact never.elim
      · cases Option.some.inj ((congrArg Coordinator.scheduler coordinator).symm.trans scheduled)
        -- nobody was to put an end to a job that was not there
        have spared : c.Spared x c.jobs.length := by
          intro i earlier later stops
          obtain ⟨h, there, _⟩ := furnished.hired i _ earlier later stops
          simp [hand?] at there
        exact (spared.goesOn spawns.log (by simp)).goesOn stores.log (by simp)
    have tends₂ : Tends x k _ := ⟨⟨known₂, h, by cases k <;> exact found₁, runs⟩, furnished₂, planned₂⟩
    exact ⟨planned₂.scheduled furnished₂, keeps_lift_bind (fun _ => tends₂) fun _ => tends₂⟩

theorem Tends.startScheduler (w : World ω) (tends : Tends x k c) (present : x.coordinator < c.memory.coordinators.length) :
    (Coordinator.startScheduler x.coordinator).Keeps w (scheduling ω x) k (fun _ c' => Tends x k c') c := by
  obtain ⟨_, furnished, planned⟩ := id tends
  unfold Coordinator.startScheduler
  rw [keeps_view_bind]
  split
  · exact tends
  · split
    next none =>
      refine tends.launches w present (fun t live => ?_) _
      cases none.symm.trans (planned.live t live)
    next t scheduled =>
      refine keeps_ended_bind fun _ => ⟨planned.scheduled furnished, ?_⟩
      cases ended : c.ended t with
      | false => exact tends
      | true =>
        refine tends.launches w present (fun t' live => ?_) _
        cases Option.some.inj (scheduled.symm.trans (planned.live t' live))
        obtain ⟨result, there⟩ := Option.isSome_iff_exists.mp ended
        obtain ⟨h, found, isOver⟩ := result?_of_found there
        obtain ⟨h', found', _, going, _⟩ := live
        cases Option.some.inj (found.symm.trans found')
        exact going result isOver

/-- Whoever stops jobs leaves the schedule as it is. -/
theorem Tends.cancels {numbers : List Nat} (tends : Tends x (.caller i) c)
    (known : (c.halt numbers).Recorded x.memory ∧ (c.halt numbers).Regular) : Tends x (.caller i) (c.halt numbers) := by
  obtain ⟨⟨_, h, found, runs⟩, furnished, planned⟩ := tends
  have halts : Acts (fun _ => False) (fun _ => True) (.caller i) [] c (c.halt numbers) :=
    .halt (active_of found runs nofun) fun _ _ => trivial
  exact ⟨⟨known, h, (hand?_halt ..).trans found, runs⟩, furnished.quiet halts (fun _ _ => False.elim) (.inl rfl) (by simp),
    planned.acts halts id rfl (by simp)⟩

/-- Whoever begins to stop the schedule forgets it first, and stops it then. -/
theorem Scheduled.stopScheduler {h : Hand} (w : World ω) (scheduled : c.Scheduled x) (still : c.Still) (recorded : c.Recorded x.memory)
    (regular : c.Regular) (found : c.hand? (.caller i) = some h) (fresh : h.station = .fresh)
    (present : x.coordinator < c.memory.coordinators.length) :
    (scheduling ω x).After (c.begin (.caller i) x.stopping) ((Coordinator.stopScheduler x.coordinator).Keeps w (scheduling ω x)
      (.caller i) (fun _ c' => Tends x (.caller i) c') (c.begin (.caller i) x.stopping)) := by
  intro known
  have planned := scheduled.planned still
  have begins : Acts (fun _ => False) (fun _ => True) (.caller i) _ c _ := .begin (active_of found fresh nofun) x.stopping
  have furnished₁ := scheduled.furnished.acts begins (fun _ _ => False.elim) rfl rfl fun j t earlier later stops => by
    rcases stops.begins recorded with before | ⟨_, _, _, _, planned⟩
    · exact .inl before
    · obtain ⟨h, m, found, origin⟩ := regular.schedulers _ t planned
      have known := scheduled.furnished.staff _ h found
      rw [origin] at known
      cases known
      exact .inr ⟨h, found, origin⟩
  -- the job that is scheduled is to be stopped from now on, and no other was live
  have free : ∀ t, ¬(c.begin (.caller i) x.stopping).Ticking x t := by
    intro t live
    rcases id live.before begins with before | ⟨_, never⟩
    · obtain ⟨_, _, _, _, spared⟩ := live
      exact spared i c.log [] ⟨c.clock, rfl, by rw [← recorded.memory]; exact planned.live t before⟩
    · exact never
  have found₁ := hand?_self (c := c.note (.caller i) (.begins x.stopping)) (k := .caller i) found (Hand.moved .running)
  refine ⟨.of_turn furnished₁ (fun t _ live => absurd live (free t)) found₁ rfl, ?_⟩
  unfold Coordinator.stopScheduler
  rw [keeps_view_bind, keeps_change_bind]
  intro known₂
  have stores : Acts (fun _ => False) (fun _ => True) (.caller i) _ _ _ := .store (active_of found₁ rfl nofun)
    (c.memory.onCoordinator x.coordinator fun y => { y with scheduler := none })
  have coordinator := Memory.coordinator_onCoordinator (fun y => { y with scheduler := none }) present
  have furnished₂ := furnished₁.store (f := fun y => { y with scheduler := none }) (active_of found₁ rfl nofun)
    fun _ => ⟨rfl, rfl⟩
  have planned₂ : Planned x ((c.begin (.caller i) x.stopping).store (.caller i)
      (c.memory.onCoordinator x.coordinator fun y => { y with scheduler := none })) := by
    refine ⟨fun t live => ?_, fun t scheduled => ?_⟩
    · rcases live.before stores with before | ⟨_, never⟩
      · exact absurd before (free t)
      · exact never.elim
    · cases (congrArg Coordinator.scheduler coordinator).symm.trans scheduled
  have tends₂ : Tends x (.caller i) _ := ⟨⟨known₂, _, found₁, rfl⟩, furnished₂, planned₂⟩
  refine ⟨planned₂.scheduled furnished₂, ?_⟩
  split
  · exact tends₂
  next task _ =>
    refine keeps_cancel_bind fun numbers _ known₃ => ?_
    have tends₃ := Tends.cancels tends₂ known₃
    refine ⟨tends₃.2.2.scheduled tends₃.2.1, ?_⟩
    have waits : (request (.join task)).Minds (.errands x.coordinator) := .request trivial
    refine (waits.andThen fun result => ?_).keeps (Tends.upkeep w x (.caller i)) tends₃
    split <;> exact .done _

theorem Scheduled.pass (scheduled : c.Scheduled x) (time : Float) : { c with clock := time }.Scheduled x where
  furnished := ⟨scheduled.furnished.outside, scheduled.furnished.interval,
    fun k h found => scheduled.furnished.staff k h (by cases k <;> exact found), scheduled.furnished.hired⟩
  single := scheduled.single
  planned still :=
    have planned := scheduled.planned fun k h found => still k h (by cases k <;> exact found)
    ⟨planned.live, planned.spared⟩

/-- Whoever is called has done nothing yet. -/
theorem Scheduled.call (scheduled : c.Scheduled x) (program : Routine Yield) : (c.call program).Scheduled x := by
  have acts : Acts (fun _ => False) (fun _ => True) (.caller c.callers.length) [] c (c.call program) := .call program
  have old : ∀ t, (c.call program).Ticking x t → c.Ticking x t := fun t live => (live.before acts).resolve_right And.right
  refine ⟨scheduled.furnished.quiet acts (fun _ _ => False.elim) (.inl rfl) (by simp),
    fun t t' live live' => scheduled.single t t' (old t live) (old t' live'), fun still => ?_⟩
  refine (scheduled.planned fun k h found runs => ?_).acts acts id rfl (by simp)
  obtain ⟨h', found', _, _, same⟩ := acts.follows.hands k h found
  have other : k ≠ .caller c.callers.length := by
    rintro rfl
    simp [hand?] at found
  exact still k h' found' ((same other).trans runs)

end Crew

open Crew

variable {x : Timetable}

theorem Timetable.Calls.orderly {program : Routine Yield} (calls : x.Calls program) : Coordinator.Caller x.coordinator program := by
  obtain ⟨errand, rfl⟩ := calls
  cases errand with
  | startScheduler => exact .startScheduler fun _ => .done
  | stopScheduler => exact .stopScheduler fun _ => .done
  | trigger => exact .trigger fun _ => .done
  | runPipeline => exact .runPipeline fun _ => .done

/-- Callers of a coordinator, and its jobs, leave it at most one job that keeps to the timetable. -/
theorem Coordinator.scheduling_guards (w : World ω) (present : x.coordinator < x.memory.coordinators.length) :
    (scheduling ω x).Guards w x.Calls where
  call _ scheduled _ _ := scheduled.call _
  pass _ scheduled := scheduled.pass _
  drop := by
    intro c k h known scheduled still found fresh _ _
    have acts : Acts (fun job => ∃ id, job = .ingest x.coordinator id) (fun _ => True) k [] c (c.close k (.error .cancelled)) :=
      .close (active_of found fresh nofun) _
    have furnished := scheduled.furnished.quiet acts errands_known (.inl rfl) (by simp)
    exact ⟨((scheduled.planned still).acts acts errands_none rfl (by simp)).scheduled furnished, trivial⟩
  begin := by
    intro c k h known scheduled still found fresh _ calls
    have there : x.coordinator < c.memory.coordinators.length := by
      refine Nat.lt_of_lt_of_le present ?_
      rw [known.1.memory]
      exact Log.grown known.1.chained known.2.growing
    have begins : h.origin ≠ x.stopping → (scheduling ω x).known (c.begin k h.origin) → Tends x k (c.begin k h.origin) := by
      intro other known'
      have acts : Acts (fun job => ∃ id, job = .ingest x.coordinator id) (fun _ => True) k _ c _ :=
        .begin (active_of found fresh nofun) h.origin
      have others : ∀ entry ∈ [(c.clock, Deed.begins h.origin)], entry.2 ≠ .begins x.stopping := by
        simpa using other
      refine ⟨⟨known', _, hand?_self (h := h) ?_ (Hand.moved .running), rfl⟩,
        scheduled.furnished.quiet acts errands_known (.inl rfl) others, (scheduled.planned still).acts acts errands_none rfl others⟩
      cases k <;> exact found
    have minds : ∀ {p : Routine Yield}, h.origin ≠ x.stopping → p.Minds (.errands x.coordinator) →
        (scheduling ω x).After (c.begin k h.origin)
          (p.Keeps w (scheduling ω x) k ((scheduling ω x).Closes k) (c.begin k h.origin)) := by
      intro p other minds known'
      have tends := begins other known'
      exact ⟨tends.2.2.scheduled tends.2.1, (minds.keeps (Tends.upkeep w x k) tends).imp fun _ _ after => after.closes⟩
    have kind := scheduled.furnished.staff k h found
    cases origin : h.origin with
    | job work =>
      rw [origin] at kind minds
      cases kind with
      | ingest => exact minds nofun ((Coordinator.runStages_errands _).bind fun _ => .pure _)
      | schedule => exact minds nofun (Coordinator.scheduleRound_errands.bind fun _ => .pure _)
    | caller program =>
      obtain ⟨errand, rfl⟩ := calls program origin
      rw [origin] at kind begins minds
      cases kind
      by_cases stop : Origin.caller (errand.program x.coordinator) = x.stopping
      · rw [stop]
        intro known'
        obtain ⟨inv, keeps⟩ := scheduled.stopScheduler w still known.1 known.2 found fresh there known'
        exact ⟨inv, keeps.andThen fun _ _ after => after.closes⟩
      · cases errand with
        | startScheduler =>
          intro known'
          have tends := begins stop known'
          exact ⟨tends.2.2.scheduled tends.2.1, (tends.startScheduler w there).andThen fun _ _ after => after.closes⟩
        | stopScheduler => exact absurd rfl stop
        | trigger => exact minds stop (Coordinator.trigger_errands.andThen fun _ => .done _)
        | runPipeline => exact minds stop (Coordinator.runPipeline_errands.andThen fun _ => .done _)

/-- At all times a coordinator has at most one job that keeps to the timetable. -/
theorem Shift.Reach.scheduled {w : World ω} {world : ω} {hasLoop : Bool} {a : Shift ω} (resting : x.memory.Resting)
    (present : x.coordinator < x.memory.coordinators.length)
    (outside : (x.memory.coordinator x.coordinator).stages = .outside)
    (reach : Shift.Reach w x.Calls x.memory world hasLoop a) :
    (a.crew.Recorded x.memory ∧ a.crew.Regular) ∧ a.crew.Scheduled x := by
  have known : ∀ {a}, Shift.Reach w x.Calls x.memory world hasLoop a → a.crew.Recorded x.memory ∧ a.crew.Regular :=
    fun reach => ⟨reach.recorded resting.unlocked, reach.regular (fun calls on => calls.orderly.orderly present on) resting⟩
  have never : ∀ t i earlier later, ¬(Crew.start x.memory world hasLoop).CallsOff x i t earlier later := by
    rintro t i earlier later ⟨time, log, _⟩
    simp [Crew.start] at log
  have initially : (Crew.start x.memory world hasLoop).Scheduled x := by
    refine ⟨⟨outside, rfl, .start _ _ _, fun i t _ _ stops => absurd stops (never t i _ _)⟩, ?_,
      fun _ => ⟨?_, fun t _ => never t⟩⟩
    · rintro t _ ⟨h, found, _⟩
      simp [hand?, Crew.start] at found
    · rintro t ⟨h, found, _⟩
      simp [hand?, Crew.start] at found
  exact ⟨known reach, (reach.sound (Coordinator.scheduling_guards w present) known initially).holds⟩

end CodeAtlas
