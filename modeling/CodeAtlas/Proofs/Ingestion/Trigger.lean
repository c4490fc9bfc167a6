import CodeAtlas.Proofs.Ingestion.Calls

namespace CodeAtlas

variable {n : Nat}

/-- What the deeds since some scene mean for the runs of one coordinator, and whether its lock is held now. -/
structure Logged (n : Nat) (s : Scene) (events : List (Who × RunEvent)) (locked : Bool) (s' : Scene) : Prop where
  present : n < s'.memory.coordinators.length
  events : runEvents n s'.trace = runEvents n s.trace ++ events
  locked : s'.memory.locked n = locked

namespace Logged

variable {s s' : Scene} {events : List (Who × RunEvent)} {locked : Bool} {k : Who}

theorem note (logged : Logged n s events locked s') {deed : Deed} (silent : deed.event n = none) :
    Logged n s events locked (s'.note k deed) := by
  refine ⟨logged.present, ?_, logged.locked⟩
  rw [Scene.note, runEvents_append, silent, logged.events]
  exact List.append_nil _

theorem event (logged : Logged n s events locked s') {deed : Deed} {event : RunEvent}
    (means : deed.event n = some event) : Logged n s (events ++ [(k, event)]) locked (s'.note k deed) := by
  refine ⟨logged.present, ?_, logged.locked⟩
  rw [Scene.note, runEvents_append, means, logged.events, List.append_assoc]
  rfl

theorem store (logged : Logged n s events locked s') {g : Coordinator → Coordinator} (locked' : Bool)
    (changes : (g (s'.memory.coordinator n)).run.locked = locked') :
    Logged n s (events ++ lockEvents k locked locked') locked' (s'.store k (s'.memory.onCoordinator n g)) := by
  have after : (s'.memory.onCoordinator n g).locked n = locked' := by
    rw [Memory.locked, Memory.coordinator_onCoordinator g logged.present, changes]
  refine ⟨by simpa [Scene.store, Memory.onCoordinator] using logged.present, ?_, after⟩
  simp only [Scene.store, Scene.note, runEvents_append, Deed.event, logged.locked, after, logged.events]
  cases locked <;> cases locked' <;> simp [lockEvents]

end Logged

/-- What the answer to a trigger says about the run. -/
inductive TriggerResponse.Means (k : Who) (r : TriggerResponse) : List (Who × RunEvent) → Prop
  | accepted {job} : r.success = true → Means k r [(k, .took), (k, .gave job)]
  | refused : r.success = false → Means k r [(k, .took), (k, .refused), (k, .freed)]
  | rejected : r.success = false → Means k r []

namespace Coordinator

open Routine

variable {k : Who} {s s₁ : Scene} {β : Type}

theorem drawRunId_logged {events : List (Who × RunEvent)} {locked : Bool} {f : String → Routine β}
    {post : Except Fault β → Scene → Prop} (logged : Logged n s events locked s₁)
    (rest : ∀ id s₂, Logged n s events locked s₂ → (f id).Obeys (fun _ => True) k post s₂) :
    (drawRunId >>= f).Obeys (fun _ => True) k post s₁ := by
  refine ⟨fun _ => ?_, nofun⟩
  rintro _ ⟨drawn, rfl⟩
  exact ⟨trivial, rest _ _ ((logged.note rfl).note rfl)⟩

/-- The lock that was taken is given to a job, or a worker for it was refused. -/
def Started {α : Type} (n : Nat) (k : Who) (s : Scene) : Except Fault α → Scene → Prop
  | .ok _, s' => ∃ job, Logged n s [(k, .took), (k, .gave job)] true s'
  | .error fault, s' => fault.ordinary = true ∧ Logged n s [(k, .took), (k, .refused)] true s'

theorem startRun_logged {id : String} (logged : Logged n s [(k, .took)] true s₁) :
    (startRun n id).Obeys (fun _ => True) k (Started n k s) s₁ := by
  have given (s₂ : Scene) (logged : Logged n s [(k, .took)] true s₂) :
      Logged n s [(k, .took), (k, .gave s₂.jobs.length)] true (s₂.start k (.ingest n id)) := by
    have gave : (Deed.starts (.ingest n id) s₂.jobs.length).event n = some (.gave s₂.jobs.length) := by
      simp [Deed.event]
    have noted := logged.event (k := k) gave
    exact ⟨noted.present, noted.events, noted.locked⟩
  unfold startRun
  refine obeys_hasLoop_bind trivial fun hasLoop => ?_
  cases hasLoop with
  | true =>
    refine obeys_spawn_bind trivial ?_
    rw [obeys_change]
    exact ⟨trivial, _, (given s₁ logged).store true (given s₁ logged).locked⟩
  | false =>
    refine ⟨fun _ reply admitted => ⟨trivial, ?_⟩, fun slow => by cases slow⟩
    cases reply with
    | ok made =>
      have asked : Logged n s [(k, .took)] true (s₁.exchange k (.newWorker _) (.ok made)) :=
        (logged.note rfl).note rfl
      refine obeys_dispatch_bind trivial ?_
      rw [obeys_change]
      exact ⟨trivial, _, (given _ asked).store true (given _ asked).locked⟩
    | error fault =>
      exact ⟨admitted, (logged.note rfl).event rfl⟩

/-- A trigger that is answered with success has taken the lock and given it to a job. One that is not has
left the lock alone, or freed it again. -/
theorem trigger_means (present : n < s.memory.coordinators.length) :
    (trigger n).Obeys (fun _ => True) k (fun result s' =>
      ∃ r events, result = .ok r ∧ r.Means k events ∧ runEvents n s'.trace = runEvents n s.trace ++ events) s := by
  have logged : Logged n s [] (s.memory.locked n) s := ⟨present, (List.append_nil _).symm, rfl⟩
  refine Obeys.bind (m := fun result s' => result = .ok true ∧ Logged n s [(k, .took)] true s' ∨
    result = .ok false ∧ s' = s) ?_ ?_ ?_
  · unfold tryAcquire
    rw [obeys_view_bind]
    split
    next => exact .inr ⟨rfl, rfl⟩
    next unlocked =>
      have free : s.memory.locked n = false := Bool.eq_false_iff.mpr unlocked
      rw [free] at logged
      rw [onRun, obeys_change_bind]
      exact ⟨trivial, .inl ⟨rfl, logged.store true rfl⟩⟩
  · rintro _ s₁ (⟨⟨⟩, taken⟩ | ⟨⟨⟩, rfl⟩)
    · refine drawRunId_logged taken fun id s₂ drawn => ?_
      refine Obeys.bind (m := fun attempted s' => ∃ result, attempted = .ok result ∧ Started n k s result s') ?_ ?_ ?_
      · exact (startRun_logged drawn).andThen fun result s' after => ⟨result, rfl, after⟩
      · rintro result s' ⟨_, ⟨⟩, after⟩
        cases result with
        | ok =>
          obtain ⟨job, after⟩ := after
          exact obeys_now_bind trivial fun time => ⟨_, _, rfl, .accepted rfl, after.events⟩
        | error fault =>
          obtain ⟨ordinary, after⟩ := after
          simp only [ordinary, if_true]
          rw [release, onRun, obeys_change_bind]
          have freed := after.store (k := k) (g := fun c => { c with run := c.run.release }) false rfl
          exact ⟨trivial, refusal_obeys trivial fun r refused => ⟨r, _, rfl, .refused refused, freed.events⟩⟩
      · rintro _ _ ⟨_, ⟨⟩, _⟩
    · exact refusal_obeys trivial fun r rejected => ⟨r, [], rfl, .rejected rejected, (List.append_nil _).symm⟩
  · rintro _ _ (⟨⟨⟩, _⟩ | ⟨⟨⟩, _⟩)

end Coordinator

end CodeAtlas
