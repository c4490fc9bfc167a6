import CodeAtlas.Proofs.Ingestion.Rules
import CodeAtlas.Proofs.Turns.Loop

namespace CodeAtlas

variable {l : Ledger} {n : Nat} {k : Who} {s : Scene} {c : Course}

/-- After its last answer a run keeps an ordinary fault for itself, and passes on any other. -/
def PassesOn {α : Type} (reply : Except Fault α) : Except Fault Unit → Prop
  | .ok _ => ∀ fault, reply = .error fault → fault.ordinary
  | .error fault => reply = .error fault ∧ fault.ordinary = false

/-- It is the turn of task `k`, which still has the lock and has no more stages to call. What a fault of
the last answer means is not noted yet. -/
def Stopping (l : Ledger) (n : Nat) (k : Who) (result : Except Fault Unit) (s : Scene) : Prop :=
  ∃ question reply, OnTurn l n k s (.answered k question reply) ∧
    (question.goesOn reply = true → question.stage? = some .vectorize) ∧
      match result with
      | .ok _ => Told l n s ∧ ∀ fault, reply ≠ .error fault
      | .error fault => reply = .error fault ∧ Heard l n question reply s

/-- The same, with everything noted. -/
def Leaving (l : Ledger) (n : Nat) (k : Who) (result : Except Fault Unit) (s : Scene) : Prop :=
  ∃ question reply, OnTurn l n k s (.answered k question reply) ∧
    (question.goesOn reply = true → question.stage? = some .vectorize) ∧ Told l n s ∧ PassesOn reply result

theorem Leaving.ordered {result : Except Fault Unit} (leaving : Leaving l n k result s) : Ordered l n s := by
  obtain ⟨_, _, on, _⟩ := leaving
  exact on.ordered

/-- Task `k` has carried out a run and freed the lock, and does so now. -/
structure Ran (l : Ledger) (n : Nat) (k : Who) (result : Except Fault Unit) (s : Scene) : Prop where
  aside : Aside l n k s
  answered : ∃ events question reply, Course.Along events (.answered k question reply) ∧
    (question.goesOn reply = true → question.stage? = some .vectorize) ∧
      runEvents n s.trace = events ++ [(k, .freed)] ∧ PassesOn reply result

theorem Origin.isRun_of_repeats {origin : Origin} (n : Nat) (again : origin.repeats = true) :
    origin.isRun n = false := by
  cases origin with
  | job work => cases work <;> first | rfl | cases again
  | caller => rfl

theorem Aside.close (aside : Aside l n k s) (result : Except Fault Yield) : Ordered l n (s.close k result) := by
  obtain ⟨c, on, free⟩ := aside
  refine ⟨c, on.orderly.onTask (fun t => ?_) fun t _ => ?_⟩
  · cases result <;> rfl
  · cases result with
    | error => exact free
    | ok =>
      cases again : t.origin.repeats with
      | true => simpa [Course.FitsStand, Task.closed, Task.moved, again, t.origin.isRun_of_repeats n again] using free
      | false => simpa [Course.FitsStand, Task.closed, Task.moved, again] using free

/-- A job that leaves its task aside, however it ends, may end. -/
theorem Aside.closes {α : Type} {p : Routine α} {last : Yield}
    (obeys : p.Obeys (Ordered l n) k (fun _ s' => Aside l n k s') s) :
    (p >>= fun _ => pure last).Obeys (Ordered l n) k (fun result s' => Ordered l n (s'.close k result)) s :=
  obeys.bind (fun _ _ aside => aside.close _) fun _ _ aside => aside.close _

/-- A free lock is nobody's. -/
theorem Orderly.idle (orderly : Orderly l n s c) (unlocked : s.memory.locked n = false) : c = .idle := by
  have nobody := orderly.locked.symm.trans unlocked
  cases c <;> first | rfl | cases nobody

/-- Whoever has taken the lock and given it to a new job has no part in the run any more. -/
theorem OnTurn.handover (on : OnTurn l n k s (.held k)) (id : String)
    (unset : (s.memory.coordinator n).run.stage = none) (told : Told l n s) {g : Coordinator → Coordinator}
    (keeps : ∀ x, (g x).stages = x.stages ∧ (g x).run = x.run ∧ (g x).scheduler = x.scheduler) :
    Aside l n k ((s.start k (.ingest n id)).store k (s.memory.onCoordinator n g)) := by
  have given := on.give id unset told
  refine ⟨.given (.job s.jobs.length), given.store_quiet (fun x => (keeps x).1) (fun x => ?_) ?_ ?_ ?_, ?_⟩
  · rw [(keeps x).2.1]
  · rw [(keeps _).2.1]
    exact unset
  · rw [(keeps _).2.1]
    exact given.orderly.told
  · rw [(keeps _).2.2]
    exact given.orderly.scheduler
  · have joined := s.start_joined k (.ingest n id)
    obtain ⟨t, found, _⟩ := on.running
    rintro ⟨⟩
    cases joined.free.symm.trans found

theorem OnTurn.stopping {question : Ask} {fault : Fault}
    (on : OnTurn l n k s (.answered k question (.error fault))) (heard : Heard l n question (.error fault) s) :
    Stopping l n k (.error fault) s := by
  refine ⟨question, _, on, fun goesOn => ?_, rfl, heard⟩
  cases question <;> cases goesOn

namespace Coordinator

open Routine

variable {β : Type}

/-- The lock is taken, or nothing is changed at all. -/
theorem tryAcquire_obeys {f : Bool → Routine β} {post : Except Fault β → Scene → Prop} (aside : Aside l n k s)
    (taken : ∀ s', OnTurn l n k s' (.held k) → (s'.memory.coordinator n).run.stage = none → Told l n s' →
      (f true).Obeys (Ordered l n) k post s')
    (skipped : (f false).Obeys (Ordered l n) k post s) : (tryAcquire n >>= f).Obeys (Ordered l n) k post s := by
  obtain ⟨c, on, free⟩ := aside
  refine Obeys.bind (m := fun result s' => result = .ok true ∧ OnTurn l n k s' (.held k) ∧
    (s'.memory.coordinator n).run.stage = none ∧ Told l n s' ∨ result = .ok false ∧ s' = s) ?_ ?_ ?_
  · unfold tryAcquire
    rw [obeys_view_bind]
    split
    next locked => exact .inr ⟨rfl, rfl⟩
    next unlocked =>
      have idle := on.orderly.idle (Bool.eq_false_iff.mpr unlocked)
      subst idle
      rw [onRun, obeys_change_bind]
      refine ⟨on.acquire.ordered, .inl ⟨rfl, on.acquire, ?_, ?_⟩⟩
      · rw [on.orderly.coordinator_store]
        exact on.orderly.stage
      · rw [Told, on.orderly.coordinator_store, on.orderly.runEvents_store, l.after_append]
        exact on.orderly.told
  · rintro _ s' (⟨⟨⟩, on', unset, told⟩ | ⟨⟨⟩, rfl⟩)
    · exact taken s' on' unset told
    · exact skipped
  · rintro _ _ (⟨⟨⟩, _⟩ | ⟨⟨⟩, _⟩)

/-- A stage is entered and then called, and the rest goes on with the answer. -/
theorem enter_obeys {question : Ask} {stage : Stage} {f : question.Reply → Routine β}
    {post : Except Fault β → Scene → Prop} (isStage : question.stage? = some stage) (on : OnTurn l n k s c)
    (due : c.Takes k (.called question) (.calling k question)) (busy : c.Busy)
    (told : (s.memory.coordinator n).run.ledger = (l.after (runEvents n s.trace)).enter (.called question))
    (value : ∀ a s', OnTurn l n k s' (.answered k question (.ok a)) → Heard l n question (.ok a) s' →
      (f a).Obeys (Ordered l n) k post s')
    (fault : ∀ e s', OnTurn l n k s' (.answered k question (.error e)) → Heard l n question (.error e) s' →
      post (.error e) s') :
    (onRun n (RunState.enter stage) >>= fun _ => query question >>= f).Obeys (Ordered l n) k post s := by
  have entered := on.record (f := RunState.enter stage) (fun _ => rfl) busy
  obtain ⟨record, events⟩ := on.recorded (f := RunState.enter stage) fun _ => rfl
  rw [onRun, obeys_change_bind]
  refine ⟨entered.ordered, ?_⟩
  refine Obeys.bind (m := fun reply s' => OnTurn l n k s' (.answered k question reply) ∧ Heard l n question reply s') ?_
    (fun a s' after => value a s' after.1 after.2) fun e s' after => fault e s' after.1 after.2
  refine obeys_stage isStage entered due ?_ ?_ fun _ _ answered heard => ⟨answered, heard⟩
  · rw [record]
    rfl
  · rw [record, events]
    exact told

/-- The stages are called in order, until the last one or one after which the run does not go on. -/
theorem stagesInOrder_obeys (endpoint : Value) (start : Float) (on : OnTurn l n k s c)
    (due : ∀ question : Ask, question.stage? = some .fetch → c.Takes k (.called question) (.calling k question))
    (busy : c.Busy)
    (told : (s.memory.coordinator n).run.ledger = { l.after (runEvents n s.trace) with failed := false }) :
    (stagesInOrder n .outside endpoint start).Obeys (Ordered l n) k (Stopping l n k) s := by
  unfold stagesInOrder
  refine enter_obeys rfl on (due _ rfl) busy told ?_ fun _ _ => OnTurn.stopping
  intro fetched s₁ on₁ told₁
  cases fetched with
  | none => exact ⟨_, _, on₁, nofun, told₁.symm, nofun⟩
  | some snapshot =>
    by_cases isEmpty : snapshot.isEmpty = true
    · simp only [isEmpty, if_true]
      exact ⟨_, _, on₁, by simp [Ask.goesOn, isEmpty], told₁.symm, nofun⟩
    · simp only [isEmpty]
      refine enter_obeys rfl on₁ (.later (by simp [Ask.goesOn, isEmpty]) rfl rfl rfl) Course.busy_answered told₁.symm ?_
        fun _ _ => OnTurn.stopping
      intro _ s₂ on₂ told₂
      refine enter_obeys rfl on₂ (.later rfl rfl rfl rfl) Course.busy_answered told₂.symm ?_
        fun _ _ => OnTurn.stopping
      intro _ s₃ on₃ told₃
      refine enter_obeys rfl on₃ (.later rfl rfl rfl rfl) Course.busy_answered told₃.symm ?_
        fun _ _ => OnTurn.stopping
      intro _ s₄ on₄ heard₄
      refine obeys_now_bind on₄.ordered fun stop => ?_
      have kept := on₄.record (f := RunState.complete start stop) (fun _ => rfl) Course.busy_answered
      obtain ⟨record, events⟩ := on₄.recorded (f := RunState.complete start stop) fun _ => rfl
      rw [onRun, obeys_change]
      refine ⟨kept.ordered, _, _, kept, fun _ => rfl, ?_, nofun⟩
      rw [Told, record, events, heard₄]
      rfl

/-- A run keeps the ordinary fault that it ends with. -/
theorem Stopping.keep {fault : Fault} (stopping : Stopping l n k (.error fault) s) (ordinary : fault.ordinary = true) :
    Leaving l n k (.ok ()) (s.store k (s.memory.onCoordinator n fun x => { x with run := x.run.fail fault })) := by
  obtain ⟨question, _, on, last, rfl, heard⟩ := stopping
  have kept := on.record (f := RunState.fail fault) (fun _ => rfl) Course.busy_answered
  obtain ⟨record, events⟩ := on.recorded (f := RunState.fail fault) fun _ => rfl
  refine ⟨question, _, kept, last, ?_, ?_⟩
  · rw [Told, record, events, heard]
    simp only [Ledger.enter, ordinary, if_true]
    rfl
  · rintro _ ⟨⟩
    exact ordinary

theorem Stopping.leave {result : Except Fault Unit} (stopping : Stopping l n k result s)
    (passes : ∀ fault, result = .error fault → fault.ordinary = false) : Leaving l n k result s := by
  obtain ⟨question, reply, on, last, after⟩ := stopping
  refine ⟨question, reply, on, last, ?_⟩
  cases result with
  | ok => exact ⟨after.1, fun fault same => absurd same (after.2 fault)⟩
  | error fault =>
    obtain ⟨rfl, heard⟩ := after
    have other := passes fault rfl
    refine ⟨?_, rfl, other⟩
    rw [Heard, Ledger.enter, other] at heard
    exact heard.symm

/-- A run ends in every case, and frees the lock then. -/
theorem runStages_runs {id : String} (on : OnTurn l n k s c)
    (due : ∀ question : Ask, question.stage? = some .fetch → c.Takes k (.called question) (.calling k question))
    (busy : c.Busy) (told : Told l n s) : (runStages n id).Obeys (Ordered l n) k (Ran l n k) s := by
  unfold runStages
  refine obeys_now_bind on.ordered fun start => ?_
  have started := on.record (f := RunState.start id start) (fun _ => rfl) busy
  obtain ⟨record, events⟩ := on.recorded (f := RunState.start id start) fun _ => rfl
  rw [onRun, obeys_change_bind]
  refine ⟨started.ordered, ?_⟩
  rw [obeys_view_bind, started.orderly.outside]
  refine Obeys.andThen (m := Leaving l n k) ?_ ?_
  · have begins (endpoint : Value) :=
      stagesInOrder_obeys endpoint start started due busy (by rw [record, events, ← told]; rfl)
    refine (begins _).andThen fun result s' stopping => ?_
    cases result with
    | ok => exact Stopping.leave stopping nofun
    | error fault =>
      by_cases ordinary : fault.ordinary = true
      · have kept := Stopping.keep stopping ordinary
        simp only [ordinary, if_true]
        rw [onRun, obeys_change]
        exact ⟨kept.ordered, kept⟩
      · simp only [ordinary]
        refine Stopping.leave stopping ?_
        rintro _ ⟨⟩
        exact Bool.eq_false_iff.mpr ordinary
  · intro result s' leaving
    obtain ⟨question, reply, on', last, told', passes⟩ := leaving
    have freed := on'.release (.ended last) told'
    have events' := on'.orderly.runEvents_store k fun x => { x with run := x.run.release }
    refine Obeys.bind (m := fun ended s' => ended = .ok () ∧ Ran l n k result s') ?_ ?_ ?_
    · rw [release, onRun, obeys_change]
      exact ⟨freed.ordered, rfl, freed.aside nofun, _, question, reply, on'.orderly.along, last, events', passes⟩
    · exact fun _ _ after => after.2
    · rintro _ _ ⟨⟨⟩, _⟩

theorem drawRunId_obeys {f : String → Routine β} {post : Except Fault β → Scene → Prop} (on : OnTurn l n k s c)
    (rest : ∀ id s', OnTurn l n k s' c → s.Quiet n s' → (f id).Obeys (Ordered l n) k post s') :
    (drawRunId >>= f).Obeys (Ordered l n) k post s := by
  have drawn : drawRunId.Obeys (Ordered l n) k
      (fun result s' => (∃ id, result = .ok id) ∧ OnTurn l n k s' c ∧ s.Quiet n s') s :=
    obeys_drawId_bind on fun drawn s' on' quiet => ⟨⟨drawnId drawn, rfl⟩, on', quiet⟩
  refine drawn.bind ?_ ?_
  · rintro id s' ⟨_, on', quiet⟩
    exact rest id s' on' quiet
  · rintro fault s' ⟨⟨_, ⟨⟩⟩, _⟩

/-- A run is carried out here, or nothing is done at all. -/
theorem runPipeline_runs (aside : Aside l n k s) :
    (runPipeline n).Obeys (Ordered l n) k (fun result s' => Ran l n k result s' ∨ result = .ok () ∧ s' = s) s := by
  refine tryAcquire_obeys aside (fun s' on _ told => ?_) (.inr ⟨rfl, rfl⟩)
  refine drawRunId_obeys on fun id s' on' quiet => ?_
  exact (runStages_runs on' (fun _ => .first) Course.busy_held (quiet.told told)).imp fun _ _ => .inl

theorem runPipeline_obeys (aside : Aside l n k s) :
    (runPipeline n).Obeys (Ordered l n) k (fun _ s' => Aside l n k s') s := by
  refine (runPipeline_runs aside).imp ?_
  rintro result s' (ran | ⟨_, rfl⟩)
  · exact ran.aside
  · exact aside

/-- The run goes to a job, or a worker for it was refused and the lock is still the caller's. -/
theorem startRun_obeys {id : String} (on : OnTurn l n k s (.held k))
    (unset : (s.memory.coordinator n).run.stage = none) (told : Told l n s) :
    (startRun n id).Obeys (Ordered l n) k (fun result s' => match result with
      | .ok _ => Aside l n k s'
      | .error fault => fault.ordinary = true ∧ OnTurn l n k s' (.refused k)) s := by
  unfold startRun
  refine obeys_hasLoop_bind on.ordered fun hasLoop => ?_
  cases hasLoop with
  | true =>
    refine obeys_spawn_bind (on.give id unset told).ordered ?_
    have noted := on.handover id unset told (g := fun c => { c with task := some s.jobs.length }) fun _ => ⟨rfl, rfl, rfl⟩
    rw [obeys_change]
    exact ⟨noted.ordered, noted⟩
  | false =>
    refine Obeys.bind (m := fun result s' => match result with
      | .ok _ => OnTurn l n k s' (.held k) ∧ s.Quiet n s'
      | .error fault => fault.ordinary = true ∧ OnTurn l n k s' (.refused k)) ?_ ?_ ?_
    · exact obeys_newWorker on told (fun s' on' quiet => ⟨on', quiet⟩) fun fault s' ordinary on' => ⟨ordinary, on'⟩
    · intro _ s' ⟨on', quiet⟩
      rw [← quiet.memory] at unset
      have told' := quiet.told told
      refine obeys_dispatch_bind (on'.give id unset told').ordered ?_
      have noted := on'.handover id unset told' (g := fun c => { c with worker := some s'.jobs.length })
        fun _ => ⟨rfl, rfl, rfl⟩
      rw [obeys_change]
      exact ⟨noted.ordered, noted⟩
    · exact fun fault s' refused => refused

theorem status_obeys {inv : Scene → Prop} (holds : inv s) :
    (status n).Obeys inv k
      (fun result s' => (∃ time, result = .ok ((s.memory.coordinator n).statusAt time)) ∧ s' = s) s := by
  unfold status
  rw [obeys_view_bind]
  exact obeys_now_bind holds fun time => ⟨⟨_, rfl⟩, rfl⟩

/-- Nothing changes when somebody is turned away. -/
theorem refusal_obeys {inv : Scene → Prop} {message : String} {post : Except Fault TriggerResponse → Scene → Prop}
    (holds : inv s) (rest : ∀ r, r.success = false → post (.ok r) s) : (refusal n message).Obeys inv k post s := by
  refine (status_obeys holds).bind ?_ ?_
  · rintro told _ ⟨_, rfl⟩
    exact rest _ rfl
  · rintro fault _ ⟨⟨_, ⟨⟩⟩, _⟩

theorem trigger_obeys (aside : Aside l n k s) :
    (trigger n).Obeys (Ordered l n) k (fun _ s' => Aside l n k s') s := by
  refine tryAcquire_obeys aside (fun s₁ on₁ unset₁ told₁ => ?_) (refusal_obeys aside.ordered fun _ _ => aside)
  refine drawRunId_obeys on₁ fun id s₂ on₂ quiet => ?_
  rw [← quiet.memory] at unset₁
  refine Obeys.bind (m := fun result s' => match result with
    | .ok (.ok _) => Aside l n k s'
    | .ok (.error fault) => fault.ordinary = true ∧ OnTurn l n k s' (.refused k)
    | .error _ => False) ?_ ?_ fun _ _ => False.elim
  · exact (startRun_obeys on₂ unset₁ (quiet.told told₁)).andThen fun result s' after => by cases result <;> exact after
  · intro result s' after
    cases result with
    | ok => exact obeys_now_bind (Aside.ordered after) fun _ => after
    | error fault =>
      obtain ⟨ordinary, on'⟩ := after
      have freed := on'.release .gaveBack on'.orderly.told
      simp only [ordinary, if_true]
      rw [release, onRun, obeys_change_bind]
      exact ⟨freed.ordered, refusal_obeys freed.ordered fun _ _ => freed.aside nofun⟩

theorem unlessEnded_obeys {job : Option Nat} {await : Nat → Control} (waits : ∀ j, (await j).waits = true)
    (aside : Aside l n k s) : (unlessEnded job await).Obeys (Ordered l n) k (fun _ s' => Aside l n k s') s := by
  cases job with
  | none => exact aside
  | some job =>
    refine obeys_ended_bind aside.ordered fun ended => ?_
    cases ended with
    | true => exact aside
    | false =>
      refine Obeys.bind (m := fun _ s' => Aside l n k s') ?_ (fun _ _ after => after) fun _ _ after => after
      exact obeys_wait (waits job) aside fun _ _ after => after

theorem wait_obeys (aside : Aside l n k s) : (wait n).Obeys (Ordered l n) k (fun _ s' => Aside l n k s') s := by
  unfold wait
  rw [obeys_view_bind]
  refine (unlessEnded_obeys (fun _ => rfl) aside).bind (fun _ s' aside' => ?_) fun _ _ after => after
  rw [obeys_view_bind]
  exact unlessEnded_obeys (fun _ => rfl) aside'

theorem beginSchedule_obeys {interval : Value} (aside : Aside l n k s) :
    (do
      let task : Nat ← request (.spawn (.schedule n))
      change (Memory.onCoordinator n fun c => { c with scheduler := some task })
      let _ ← interval.fixed 0
      return true : Routine Bool).Obeys (Ordered l n) k (fun _ s' => Aside l n k s') s := by
  obtain ⟨c, on, free⟩ := aside
  have started := on.start (.schedule n) .schedule rfl
  refine obeys_spawn_bind started.ordered ?_
  have remembered := started.store_quiet (g := fun c => { c with scheduler := some s.jobs.length })
    (fun _ => rfl) (fun _ => rfl) started.orderly.stage started.orderly.told ?_
  · rw [obeys_change_bind]
    refine ⟨remembered.ordered, obeys_lift_bind (fun _ => ?_) fun _ => ?_⟩ <;> exact remembered.aside free
  · rintro _ ⟨⟩
    exact ⟨_, (s.start_joined k _).new, rfl⟩

theorem startScheduler_obeys (aside : Aside l n k s) :
    (startScheduler n).Obeys (Ordered l n) k (fun _ s' => Aside l n k s') s := by
  unfold startScheduler
  rw [obeys_view_bind]
  split
  · exact aside
  · dsimp only
    split
    · refine obeys_hasLoop_bind aside.ordered fun hasLoop => ?_
      cases hasLoop with
      | true => exact beginSchedule_obeys aside
      | false => exact aside
    · refine obeys_ended_bind aside.ordered fun ended => ?_
      cases ended with
      | false => exact aside
      | true =>
        refine obeys_hasLoop_bind aside.ordered fun hasLoop => ?_
        cases hasLoop with
        | true => exact beginSchedule_obeys aside
        | false => exact aside

theorem stopScheduler_obeys (outsider : ∀ j, k ≠ .job j) (aside : Aside l n k s) :
    (stopScheduler n).Obeys (Ordered l n) k (fun _ s' => Aside l n k s') s := by
  obtain ⟨c, on, free⟩ := aside
  have forgotten := on.store_quiet (g := fun c => { c with scheduler := none }) (fun _ => rfl) (fun _ => rfl)
    on.orderly.stage on.orderly.told nofun
  unfold stopScheduler
  rw [obeys_view_bind, obeys_change_bind]
  refine ⟨forgotten.ordered, ?_⟩
  split
  · exact forgotten.aside free
  next task atWork =>
    have cancelled := forgotten.cancel (j := .job task) (on.orderly.scheduler task atWork)
    refine obeys_cancel_bind (outsider task) cancelled.ordered ?_
    refine (obeys_wait rfl (cancelled.aside free) fun _ _ after => after).andThen fun result s' after => ?_
    split <;> exact after

theorem scheduleRound_obeys (aside : Aside l n k s) :
    (scheduleRound n).Obeys (Ordered l n) k (fun _ s' => Aside l n k s') s := by
  unfold scheduleRound
  rw [obeys_view_bind]
  refine Obeys.bind (m := fun _ s' => Aside l n k s') ?_ (fun _ _ after => runPipeline_obeys after)
    fun _ _ after => after
  refine obeys_lift_bind (fun _ => obeys_lift_bind (fun seconds => ?_) fun _ => aside) fun _ => aside
  exact obeys_wait rfl aside fun _ _ after => after

theorem Caller.obeys {program : Routine Yield} (caller : Caller n program) (outsider : ∀ j, k ≠ .job j) (aside : Aside l n k s) :
    program.Obeys (Ordered l n) k (fun result s' => Ordered l n (s'.close k result)) s := by
  induction caller generalizing s with
  | done => exact aside.close _
  | trigger _ ih => exact (trigger_obeys aside).andThen fun answer _ after => ih answer after
  | runPipeline _ ih => exact (runPipeline_obeys aside).andThen fun answer _ after => ih answer after
  | startScheduler _ ih => exact (startScheduler_obeys aside).andThen fun answer _ after => ih answer after
  | stopScheduler _ ih => exact (stopScheduler_obeys outsider aside).andThen fun answer _ after => ih answer after
  | status _ ih =>
    refine (status_obeys aside.ordered).andThen ?_
    rintro answer _ ⟨_, rfl⟩
    exact ih answer aside
  | wait _ ih => exact (wait_obeys aside).andThen fun answer _ after => ih answer after
  | pause _ ih => exact (obeys_wait rfl aside fun _ _ after => after).andThen fun answer _ after => ih answer after

end Coordinator

theorem Orderly.begin (orderly : Orderly l n s c) (single : Pool.Single ⟨s, none⟩) {t : Task} (found : s.task? k = some t)
    (fresh : t.stand = .fresh) (other : t.origin.isRun n = false) : Aside l n k (s.begin k t.origin) := by
  have free : c.owner ≠ some k := by
    have fits := orderly.fits k t found
    simpa only [Course.FitsStand, fresh, other, Bool.false_eq_true, if_false] using fits
  have silent : (Deed.begins t.origin).event n = none := by
    unfold Deed.event
    split <;> simp_all [Origin.isRun]
  exact ((orderly.note silent).resumed single found).aside free

/-- A run that was given to a task begins, which has the lock from then on. -/
theorem Orderly.beginRun (orderly : Orderly l n s c) (single : Pool.Single ⟨s, none⟩) {t : Task} {id : String}
    (found : s.task? k = some t) (fresh : t.stand = .fresh) (run : t.origin = .job (.ingest n id)) :
    OnTurn l n k (s.begin k t.origin) (.begun k) ∧ Told l n (s.begin k t.origin) := by
  have given : c = .given k := by
    have fits := orderly.fits k t found
    simp only [Course.FitsStand, fresh, run, Origin.isRun, BEq.rfl, if_true] at fits
    exact fits.1
  subst given
  have means : (Deed.begins t.origin).event n = some .begun := by simp [run, Deed.event]
  refine ⟨(orderly.resumed single found).event means .begun rfl rfl trivial trivial, ?_⟩
  have noted : (s.begin k t.origin).trace = s.trace ++ [(k, .begins t.origin)] := rfl
  rw [Told, noted, runEvents_append, means, l.after_append]
  exact orderly.told

theorem Ordered.call (ordered : Ordered l n s) (program : Routine Yield) : Ordered l n (s.call program) := by
  obtain ⟨c, orderly⟩ := ordered
  exact ⟨c, orderly.joined (s.call_joined program) .caller rfl⟩

/-- A task that was stopped before it began is no run. -/
theorem Ordered.drop (ordered : Ordered l n s) {t : Task} (found : s.task? k = some t) (fresh : t.stand = .fresh)
    (stopped : t.stopped = true) : Ordered l n (s.onTask k (Task.moved .ended)) := by
  obtain ⟨c, orderly⟩ := ordered
  refine ⟨c, orderly.onTask (fun _ => rfl) fun t' found' => ?_⟩
  cases Option.some.inj (found.symm.trans found')
  have fits := orderly.fits k t found
  simp only [Course.FitsStand, fresh, stopped] at fits
  split at fits
  · cases fits.2
  · exact fits

/-- Whatever comes to be done with a coordinator keeps it in order. -/
theorem Coordinator.guarded (l : Ledger) (n : Nat) : Guarded (Coordinator.Caller n) (Ordered l n) where
  call ordered _ := ordered.call _
  drop ordered := ordered.drop
  begin := by
    rintro s k t ⟨c, orderly⟩ single found fresh _ calls
    have known := orderly.known k t found
    generalize same : t.origin = origin at known calls ⊢
    cases known with
    | caller =>
      have aside := orderly.begin single found fresh (by rw [same]; rfl)
      rw [same] at aside
      exact ⟨aside.ordered, (calls _ rfl).obeys (by simp) aside⟩
    | @ingest id =>
      obtain ⟨on, told⟩ := orderly.beginRun single found fresh same
      rw [same] at on told
      refine ⟨on.ordered, Aside.closes ?_⟩
      exact (Coordinator.runStages_runs on (fun _ => .firstOfJob) Course.busy_begun told).imp fun _ _ => Ran.aside
    | schedule =>
      have aside := orderly.begin single found fresh (by rw [same]; rfl)
      rw [same] at aside
      exact ⟨aside.ordered, Aside.closes (Coordinator.scheduleRound_obeys aside)⟩

/-- A memory with a coordinator that has nothing under way. -/
structure Memory.AtRest (n : Nat) (m : Memory) : Prop where
  present : n < m.coordinators.length
  outside : (m.coordinator n).stages = .outside
  unlocked : m.locked n = false
  unset : (m.coordinator n).run.stage = none
  unscheduled : (m.coordinator n).scheduler = none

theorem Memory.coordinated_atRest : Memory.coordinated.AtRest 0 := ⟨by decide, rfl, rfl, rfl, rfl⟩

/-- What the runs of a coordinator had come to before anything happens. -/
def Memory.ledger (m : Memory) (n : Nat) : Ledger := (m.coordinator n).run.ledger

theorem Memory.AtRest.orderly {m : Memory} (atRest : m.AtRest n) : Orderly (m.ledger n) n ⟨m, [], [], []⟩ .idle where
  present := atRest.present
  outside := atRest.outside
  along := .start
  locked := atRest.unlocked
  stage := atRest.unset
  told := rfl
  scheduler := fun j at_j => by simp [atRest.unscheduled] at at_j
  owner := nofun
  known := fun k t found => by cases k <;> simp [Scene.task?] at found
  fits := fun k t found => by cases k <;> simp [Scene.task?] at found

/-- Everything that is done with a coordinator keeps it in order, in whatever order it is done. -/
theorem Pool.Reach.ordered {m : Memory} {a : Pool} (atRest : m.AtRest n)
    (reach : Pool.Reach (Coordinator.Caller n) m a) : Ordered (m.ledger n) n a.scene :=
  (reach.sound (Coordinator.guarded (m.ledger n) n) ⟨.idle, atRest.orderly⟩).holds

/-- What the loop comes to when it carries out the program of a caller is among it. -/
theorem Coordinator.run_reaches {ω : Type} {w : World ω} {m : Memory} {program : Routine Yield} (prompt : w.Prompt)
    (atRest : m.AtRest n) (caller : Caller n program) (x : ω) (hasLoop : Bool) (fuel : Nat) :
    ∃ s, ((Agenda.start m x hasLoop).run w fuel program).1.Mirrors s none ∧ Pool.Reach (Caller n) m ⟨s, none⟩ :=
  Agenda.run_mirrored prompt (guarded (m.ledger n) n) ⟨.idle, atRest.orderly⟩ caller x hasLoop fuel

end CodeAtlas
