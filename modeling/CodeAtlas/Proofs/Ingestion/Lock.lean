import CodeAtlas.Proofs.Ingestion.Calls
import CodeAtlas.Proofs.Ingestion.Flight

namespace CodeAtlas

variable {l : Ledger} {n : Nat}

/-- A run that was accepted and is not over: it waits to begin, or for one of its stages. -/
def Scene.Underway (n : Nat) (s : Scene) (k : Who) : Prop :=
  ∃ t, s.task? k = some t ∧
    (t.stand = .fresh ∧ t.origin.isRun n = true ∨
      ∃ question next, t.stand = .asking question next ∧ question.stage?.isSome = true)

/-- A stage is awaited. -/
def Scene.Awaits (s : Scene) (stage : Stage) : Prop :=
  ∃ k question, s.Asks k question ∧ question.stage? = some stage

/-- The lock was last taken by somebody, or given by them to a job, and not freed since. -/
def TakenFor (k : Who) (events : List (Who × RunEvent)) : Prop :=
  ∃ before p since, events = before ++ (p, .took) :: since ∧
    (∀ entry ∈ since, entry.2.kind ≠ .took ∧ entry.2.kind ≠ .freed) ∧
      (k = p ∨ ∃ job, k = .job job ∧ (p, .gave job) ∈ since)

/-- A routine comes to an end and does nothing but look at the memory and at the clock. -/
def Routine.Settles {α : Type} (m : Memory) : Routine α → (Except Fault α → Prop) → Prop
  | .done result, post => post result
  | .look next, post => (next m).Settles m post
  | .control .now next, post => ∀ time, (next (.ok time)).Settles m post
  | _, _ => False

theorem Routine.Settles.bind {α β : Type} {m : Memory} {p : Routine α} {f : α → Routine β}
    {q : Except Fault α → Prop} {post : Except Fault β → Prop} (settles : p.Settles m q)
    (value : ∀ a, q (.ok a) → (f a).Settles m post) (fault : ∀ e, q (.error e) → post (.error e)) :
    (p >>= f).Settles m post := by
  induction p with
  | done result =>
    cases result with
    | ok a => exact value a settles
    | error e => exact fault e settles
  | look next ih => exact ih m settles
  | store => exact settles.elim
  | ask => exact settles.elim
  | control request next ih =>
    cases request with
    | now => exact fun time => ih (.ok time) (settles time)
    | _ => exact False.elim settles

namespace Course

/-- Each event follows what led to it. -/
theorem Along.split {events events' : List (Who × RunEvent)} {k : Who} {event : RunEvent} {c : Course}
    (along : Along (events ++ (k, event) :: events') c) : ∃ c₁ c₂, Along events c₁ ∧ c₁.Takes k event c₂ := by
  generalize whole : events ++ (k, event) :: events' = all at along
  induction along generalizing events' with
  | start => simp at whole
  | @next before c j last c' along takes ih =>
    rcases List.eq_nil_or_concat events' with rfl | ⟨rest, final, rfl⟩
    · obtain ⟨rfl, same⟩ := List.append_inj' whole rfl
      cases same
      exact ⟨c, c', along, takes⟩
    · have shorter : (events ++ (k, event) :: rest) ++ [final] = before ++ [(j, last)] := by simpa using whole
      exact ih (List.append_inj_left' shorter rfl)

/-- The lock was taken once more than it was freed, if it is held. -/
theorem Along.tally {events : List (Who × RunEvent)} {c : Course} (along : Along events c) :
    tally .took events = CodeAtlas.tally .freed events + if c.owner.isSome then 1 else 0 := by
  induction along with
  | start => rfl
  | next _ takes ih =>
    rw [tally_append, tally_append, ih]
    cases takes <;> simp [CodeAtlas.tally, RunEvent.kind, owner]

end Course

theorem Flight.At.takenFor {f : Flight} {c : Course} (at_c : f.At c) (before : List (Who × RunEvent)) :
    TakenFor f.runner (before ++ f.events) := by
  refine ⟨before, f.opener, f.handover.events f.opener ++ f.calls.flatMap (Call.events f.runner), ?_, ?_, ?_⟩
  · simp [events, at_c.closed]
  · intro entry member
    rcases List.mem_append.mp member with handover | call
    · exact kind_handover handover
    · rcases kind_calls call with called | heard
      · simp [called]
      · simp [heard]
  · unfold runner
    cases f.handover <;> simp [Handover.runner, Handover.events]

/-- Whoever owns a run took the lock for it, or was given it by whoever took the lock. -/
theorem Course.Along.takenFor {events : List (Who × RunEvent)} {c : Course} {k : Who} (along : Along events c)
    (owner : c.owner = some k) : TakenFor k events := by
  obtain ⟨past, _, ⟨rfl, _⟩ | ⟨f, at_c, rfl⟩⟩ := along.flights
  · cases owner
  · cases Option.some.inj (owner.symm.trans at_c.owner)
    exact at_c.takenFor _

/-- Whoever is under way owns the run. -/
theorem Orderly.owner_of_underway {s : Scene} {c : Course} {k : Who} (orderly : Orderly l n s c)
    (underway : s.Underway n k) : c.owner = some k := by
  obtain ⟨t, found, ⟨fresh, isRun⟩ | ⟨question, next, asking, isStage⟩⟩ := underway
  · have fits := orderly.fits k t found
    simp only [Course.FitsStand, fresh, isRun, if_true] at fits
    rw [fits.1]
    rfl
  · have fits := orderly.fits k t found
    simp only [Course.FitsStand, asking, isStage, if_true] at fits
    rw [fits]
    rfl

/-- The stage that is awaited is the one that is shown. -/
theorem Orderly.shown_of_awaits {s : Scene} {c : Course} {stage : Stage} (orderly : Orderly l n s c)
    (awaits : s.Awaits stage) : (s.memory.coordinator n).run.stage = some stage := by
  obtain ⟨k, question, ⟨t, next, found, asking⟩, isStage⟩ := awaits
  have fits := orderly.fits k t found
  simp only [Course.FitsStand, asking, isStage, Option.isSome_some, if_true] at fits
  have shows := orderly.stage
  rw [fits] at shows
  exact shows.trans isStage

namespace Coordinator

theorem tryAcquire_settles {m : Memory} (locked : m.locked n = true) :
    (tryAcquire n).Settles m fun result => result = .ok false := by
  have found : (m.coordinator n).run.locked = true := locked
  change Routine.Settles m (if (m.coordinator n).run.locked then pure false else _) _
  rw [found]
  rfl

/-- Where the lock is held, a trigger does nothing but to say so. -/
theorem trigger_settles {m : Memory} (locked : m.locked n = true) :
    (trigger n).Settles m fun result => ∃ r, result = .ok r ∧ r.success = false ∧ r.id = none := by
  refine (tryAcquire_settles locked).bind ?_ nofun
  rintro _ ⟨⟩ time
  exact ⟨_, rfl, rfl, rfl⟩

theorem runPipeline_settles {m : Memory} (locked : m.locked n = true) :
    (runPipeline n).Settles m fun result => result = .ok () := by
  refine (tryAcquire_settles locked).bind ?_ nofun
  rintro _ ⟨⟩
  rfl

/-- What holds of the lock and of the stage at all times. -/
structure LockKept (n : Nat) (a : Pool) : Prop where
  /-- The lock is held as long as one run more was accepted than ended. -/
  balance : tally .took (runEvents n a.scene.trace) =
    tally .freed (runEvents n a.scene.trace) + if a.scene.memory.locked n then 1 else 0
  /-- Between turns, the lock is held if and only if one run is under way, and never are two. -/
  one : a.turn = none → (a.scene.memory.locked n = true ↔ ∃ k, a.scene.Underway n k) ∧
    ∀ k k', a.scene.Underway n k → a.scene.Underway n k' → k = k'
  /-- A stage is shown only while the lock is held. -/
  shown : (a.scene.memory.coordinator n).run.stage ≠ none → a.scene.memory.locked n = true
  /-- Between turns, the stage that is shown is the one that is awaited. -/
  stage : a.turn = none →
    ∀ stage, (a.scene.memory.coordinator n).run.stage = some stage ↔ a.scene.Awaits stage
  /-- Nobody frees a lock that was not taken for them. -/
  freed : ∀ events events' k, runEvents n a.scene.trace = events ++ (k, .freed) :: events' → TakenFor k events
  /-- While it is held, further runs are turned away without any effect. -/
  turnedAway : a.scene.memory.locked n = true →
    ((trigger n).Settles a.scene.memory fun result => ∃ r, result = .ok r ∧ r.success = false ∧ r.id = none) ∧
      (runPipeline n).Settles a.scene.memory fun result => result = .ok ()

/-- Whatever is done with a coordinator, in whatever order, keeps its lock and its stage right. -/
theorem lock_kept {m : Memory} {a : Pool} (atRest : m.AtRest n)
    (reach : Pool.Reach (Coordinator.Caller n) m a) : LockKept n a := by
  obtain ⟨c, orderly⟩ := reach.ordered atRest
  have locked := orderly.locked
  exact {
    balance := by
      rw [locked]
      exact orderly.along.tally
    one := by
      intro between
      have single : Pool.Single ⟨a.scene, none⟩ := between ▸ reach.single
      refine ⟨⟨fun held => ?_, fun ⟨k, underway⟩ => ?_⟩, fun k k' underway underway' => ?_⟩
      · rw [locked] at held
        obtain rfl | ⟨k, t, _, found, fresh, isRun⟩ | ⟨k, t, question, next, _, found, asking, isStage⟩ :=
          orderly.between single
        · cases held
        · exact ⟨k, t, found, .inl ⟨fresh, isRun⟩⟩
        · exact ⟨k, t, found, .inr ⟨question, next, asking, isStage⟩⟩
      · rw [locked, orderly.owner_of_underway underway]
        rfl
      · exact Option.some.inj
          ((orderly.owner_of_underway underway).symm.trans (orderly.owner_of_underway underway'))
    shown := by
      intro shown
      rw [locked]
      cases c with
      | idle => exact absurd orderly.stage shown
      | _ => rfl
    stage := by
      intro between stage
      have single : Pool.Single ⟨a.scene, none⟩ := between ▸ reach.single
      refine ⟨fun shown => ?_, orderly.shown_of_awaits⟩
      have shows := orderly.stage
      rw [shown] at shows
      obtain rfl | ⟨k, t, rfl, _⟩ | ⟨k, t, question, next, rfl, found, asking, _⟩ := orderly.between single
      · cases shows
      · cases shows
      · exact ⟨k, question, ⟨t, next, found, asking⟩, shows.symm⟩
    freed := by
      intro events events' k happened
      -- the course up to the release says whose lock it is
      obtain ⟨c₁, c₂, along, takes⟩ := Course.Along.split (happened ▸ orderly.along)
      have owner : c₁.owner = some k := by cases takes <;> rfl
      exact along.takenFor owner
    turnedAway := fun held => ⟨trigger_settles held, runPipeline_settles held⟩ }

/-- A run that waits for its first stage. -/
theorem lock_kept_fetching : ∃ a, Pool.Reach (Caller 0) .coordinated a ∧ a.turn = none ∧
    a.scene.memory.locked 0 = true ∧ a.scene.Awaits .fetch ∧ LockKept 0 a := by
  have caller : Caller 0 ((runPipeline 0).andThen fun _ => .done (.ok .nothing)) := .runPipeline fun _ => .done
  have r : Pool.Reach (Caller 0) .coordinated _ := .next .start (.call caller)
  have r := r.next (.begin (k := .caller 0) (t := .new (.caller _)) rfl rfl rfl)
  have r := ((r.next .look).next .look).next .store
  have r := r.next (.exchange rfl ⟨(7 : Nat), rfl⟩)
  have r := r.next (.grant ⟨⟨(0 : Float), rfl⟩, rfl⟩)
  have r := (r.next .look).next .store
  have r := ((r.next .look).next .look).next .store
  have r := r.next (.ask rfl)
  exact ⟨_, r, rfl, by decide, ⟨.caller 0, _, ⟨_, _, rfl, rfl⟩, rfl⟩, lock_kept Memory.coordinated_atRest r⟩

end Coordinator

end CodeAtlas
