import CodeAtlas.Proofs.Ingestion.Course
import CodeAtlas.Proofs.Turns.Guarded

namespace CodeAtlas

/-- What somebody does with a coordinator: any number of calls one after the other, each of which may
depend on the answers before. -/
inductive Coordinator.Caller (n : Nat) : Routine Yield → Prop
  | done {result} : Caller n (.done result)
  | trigger {f} : (∀ answer, Caller n (f answer)) → Caller n ((trigger n).andThen f)
  | runPipeline {f} : (∀ answer, Caller n (f answer)) → Caller n ((runPipeline n).andThen f)
  | startScheduler {f} : (∀ answer, Caller n (f answer)) → Caller n ((startScheduler n).andThen f)
  | stopScheduler {f} : (∀ answer, Caller n (f answer)) → Caller n ((stopScheduler n).andThen f)
  | status {f} : (∀ answer, Caller n (f answer)) → Caller n ((status n).andThen f)
  | wait {f} : (∀ answer, Caller n (f answer)) → Caller n ((wait n).andThen f)
  | pause {seconds f} : (∀ answer, Caller n (f answer)) →
      Caller n ((Routine.request (.pause seconds)).andThen f)

namespace Origin

/-- Whether a task is a run that was given to it. -/
def isRun (n : Nat) : Origin → Bool
  | .job (.ingest m _) => m == n
  | _ => false

/-- The tasks that callers of one coordinator bring about, and who carries them out. -/
inductive Known (n : Nat) : Who → Origin → Prop
  | caller {i program} : Known n (.caller i) (.caller program)
  | ingest {j id} : Known n (.job j) (.job (.ingest n id))
  | schedule {j} : Known n (.job j) (.job (.schedule n))

end Origin

/-- The stage that is shown while nobody but the owner can change it. -/
def Course.Shows (stage : Option Stage) : Course → Prop
  | .idle => stage = none
  | .given _ => stage = none
  | .calling _ question => stage = question.stage?
  | _ => True

/-- Where a task is in view of the course: a run that was given to it and has not begun, the stage that
is awaited, or neither. -/
def Course.FitsStand (n : Nat) (c : Course) (k : Who) (t : Task) : Prop :=
  match t.stand with
  | .fresh => if t.origin.isRun n then c = .given k ∧ t.stopped = false else c.owner ≠ some k
  | .running => True
  | .asking question _ => if question.stage?.isSome then c = .calling k question else c.owner ≠ some k
  | .waiting _ _ => c.owner ≠ some k
  | .ended => c.owner ≠ some k

/-- What is noted of the runs is what they have come to. -/
def Told (l : Ledger) (n : Nat) (s : Scene) : Prop :=
  (s.memory.coordinator n).run.ledger = l.after (runEvents n s.trace)

/-- What holds of the memory, the tasks and the trace at all times, when the runs had come to `l` before. -/
structure Orderly (l : Ledger) (n : Nat) (s : Scene) (c : Course) : Prop where
  present : n < s.memory.coordinators.length
  outside : (s.memory.coordinator n).stages = .outside
  along : Course.Along (runEvents n s.trace) c
  locked : s.memory.locked n = c.owner.isSome
  stage : c.Shows (s.memory.coordinator n).run.stage
  told : c.Tells (s.memory.coordinator n).run (l.after (runEvents n s.trace))
  scheduler : ∀ j, (s.memory.coordinator n).scheduler = some j →
    ∃ t, s.task? (.job j) = some t ∧ t.origin.isRun n = false
  owner : ∀ k, c.owner = some k → ∃ t, s.task? k = some t
  known : ∀ (k : Who) (t : Task), s.task? k = some t → t.origin.Known n k
  fits : ∀ (k : Who) (t : Task), s.task? k = some t → c.FitsStand n k t

/-- The same, with the course left open. -/
def Ordered (l : Ledger) (n : Nat) (s : Scene) : Prop := ∃ c, Orderly l n s c

/-- It is the turn of task `k`, and of nobody else. -/
structure OnTurn (l : Ledger) (n : Nat) (k : Who) (s : Scene) (c : Course) : Prop where
  orderly : Orderly l n s c
  running : ∃ t, s.task? k = some t ∧ t.stand = .running
  alone : ∀ (j : Who) (t : Task), s.task? j = some t → t.stand = .running → j = k

/-- It is the turn of task `k`, which has no part in the run under way. -/
def Aside (l : Ledger) (n : Nat) (k : Who) (s : Scene) : Prop := ∃ c, OnTurn l n k s c ∧ c.owner ≠ some k

theorem runEvents_append (n : Nat) (trace : List (Who × Deed)) (k : Who) (deed : Deed) :
    runEvents n (trace ++ [(k, deed)]) =
      runEvents n trace ++ ((deed.event n).map fun event => (k, event)).toList := by
  cases event : deed.event n <;> simp [runEvents, event]

theorem runEvents_apart {n : Nat} {k : Who} {trace : List (Who × Deed)} (apart : ∀ entry ∈ trace, entry.1 ≠ k) :
    ∀ entry ∈ runEvents n trace, entry.1 ≠ k := by
  intro entry inside
  obtain ⟨before, at_before, means⟩ := List.mem_filterMap.mp inside
  obtain ⟨_, _, rfl⟩ := Option.map_eq_some_iff.mp means
  exact apart before at_before

/-- A task that does not own the run fits every course that it does not own. -/
theorem Course.FitsStand.other {n : Nat} {k : Who} {t : Task} {c c' : Course} (fits : c.FitsStand n k t)
    (before : c.owner ≠ some k) (after : c'.owner ≠ some k) : c'.FitsStand n k t := by
  have notGiven : c ≠ .given k := fun same => before (by rw [same]; rfl)
  unfold FitsStand at fits ⊢
  split at fits
  · split at fits
    · exact absurd fits.1 notGiven
    · simp_all
  · trivial
  · split at fits
    · exact absurd (by rw [fits]; rfl) before
    · simp_all
  · exact after
  · exact after

namespace Orderly

variable {l : Ledger} {n : Nat} {k : Who} {s : Scene} {c c' : Course}

theorem note (orderly : Orderly l n s c) {deed : Deed} (silent : deed.event n = none) :
    Orderly l n (s.note k deed) c where
  present := orderly.present
  outside := orderly.outside
  along := by
    rw [Scene.note, runEvents_append, silent]
    simpa using orderly.along
  locked := orderly.locked
  stage := orderly.stage
  told := by
    rw [Scene.note, runEvents_append, silent]
    simpa using orderly.told
  scheduler := orderly.scheduler
  owner := orderly.owner
  known := orderly.known
  fits := orderly.fits

theorem onTask (orderly : Orderly l n s c) {f : Task → Task} (origin : ∀ t, (f t).origin = t.origin)
    (fits : ∀ t, s.task? k = some t → c.FitsStand n k (f t)) : Orderly l n (s.onTask k f) c where
  present := orderly.present
  outside := orderly.outside
  along := orderly.along
  locked := orderly.locked
  stage := orderly.stage
  told := orderly.told
  scheduler := by
    intro j at_j
    obtain ⟨t, found, other⟩ := orderly.scheduler j at_j
    refine ⟨_, Scene.onTask_found found k f, ?_⟩
    split
    · rwa [origin]
    · exact other
  owner := by
    intro j owns
    obtain ⟨t, found⟩ := orderly.owner j owns
    exact ⟨_, Scene.onTask_found found k f⟩
  known := by
    intro j t found
    obtain ⟨_, old, at_j, rfl⟩ | ⟨_, same⟩ := Scene.onTask_cases found
    · exact origin old ▸ orderly.known j old at_j
    · exact orderly.known j t same
  fits := by
    intro j t found
    obtain ⟨rfl, old, at_j, rfl⟩ | ⟨_, same⟩ := Scene.onTask_cases found
    · exact fits old at_j
    · exact orderly.fits j t same

/-- A deed of the owner that leaves the lock as it is takes the course further. -/
theorem event (orderly : Orderly l n s c) {deed : Deed} {event : RunEvent} (means : deed.event n = some event)
    (takes : c.Takes k event c') (owns : c.owner = some k) (owns' : c'.owner = some k)
    (shows : c'.Shows (s.memory.coordinator n).run.stage)
    (tells : c'.Tells (s.memory.coordinator n).run ((l.after (runEvents n s.trace)).enter event))
    (fits : ∀ t, s.task? k = some t → c'.FitsStand n k t) : Orderly l n (s.note k deed) c' where
  present := orderly.present
  outside := orderly.outside
  along := by
    rw [Scene.note, runEvents_append, means]
    exact .next orderly.along takes
  locked := by rw [owns']; exact orderly.locked.trans (by rw [owns])
  stage := shows
  told := by
    rw [Scene.note, runEvents_append, means, l.after_append]
    exact tells
  scheduler := orderly.scheduler
  owner := fun j owner => orderly.owner j (by rw [owns, ← owns', owner])
  known := orderly.known
  fits := by
    intro j t found
    by_cases same : j = k
    · subst same
      exact fits t found
    · exact (orderly.fits j t found).other (by simp [owns, Ne.symm same]) (by simp [owns', Ne.symm same])

variable {g : Coordinator → Coordinator}

theorem coordinator_store (orderly : Orderly l n s c) (j : Who) (g : Coordinator → Coordinator) :
    (s.store j (s.memory.onCoordinator n g)).memory.coordinator n = g (s.memory.coordinator n) :=
  Memory.coordinator_onCoordinator g orderly.present

/-- A change of the coordinator, in view of the course that it leads to. -/
theorem store (orderly : Orderly l n s c)
    (along : Course.Along (runEvents n (s.store k (s.memory.onCoordinator n g)).trace) c')
    (stages : ∀ x, (g x).stages = x.stages)
    (locked : (g (s.memory.coordinator n)).run.locked = c'.owner.isSome)
    (shows : c'.Shows (g (s.memory.coordinator n)).run.stage)
    (tells : c'.Tells (g (s.memory.coordinator n)).run
      (l.after (runEvents n (s.store k (s.memory.onCoordinator n g)).trace)))
    (scheduler : ∀ j, (g (s.memory.coordinator n)).scheduler = some j →
      ∃ t, s.task? (.job j) = some t ∧ t.origin.isRun n = false)
    (owner : ∀ j, c'.owner = some j → ∃ t, s.task? j = some t)
    (fits : ∀ (j : Who) (t : Task), s.task? j = some t → c'.FitsStand n j t) :
    Orderly l n (s.store k (s.memory.onCoordinator n g)) c' where
  present := by simpa [Scene.store, Memory.onCoordinator] using orderly.present
  outside := by rw [orderly.coordinator_store, stages, orderly.outside]
  along := along
  locked := by rw [Memory.locked, orderly.coordinator_store, locked]
  stage := by rw [orderly.coordinator_store]; exact shows
  told := by rw [orderly.coordinator_store]; exact tells
  scheduler := by
    rw [orderly.coordinator_store]
    exact scheduler
  owner := owner
  known := orderly.known
  fits := fits

theorem runEvents_store (orderly : Orderly l n s c) (k : Who) (g : Coordinator → Coordinator) :
    runEvents n (s.store k (s.memory.onCoordinator n g)).trace =
      runEvents n s.trace ++ lockEvents k c.owner.isSome (g (s.memory.coordinator n)).run.locked := by
  have after : (s.memory.onCoordinator n g).locked n = (g (s.memory.coordinator n)).run.locked := by
    rw [Memory.locked, Memory.coordinator_onCoordinator g orderly.present]
  simp only [Scene.store, Scene.note, runEvents_append, Deed.event, orderly.locked, after]
  cases c.owner.isSome <;> cases (g (s.memory.coordinator n)).run.locked <;> rfl

/-- What leaves the lock as it is means nothing for the runs. -/
theorem runEvents_quiet (orderly : Orderly l n s c) (k : Who) (locked : ∀ x, (g x).run.locked = x.run.locked) :
    runEvents n (s.store k (s.memory.onCoordinator n g)).trace = runEvents n s.trace := by
  have same : (g (s.memory.coordinator n)).run.locked = c.owner.isSome := (locked _).trans orderly.locked
  rw [orderly.runEvents_store, same]
  cases c.owner.isSome <;> simp [lockEvents]

theorem store_quiet (orderly : Orderly l n s c) (stages : ∀ x, (g x).stages = x.stages)
    (locked : ∀ x, (g x).run.locked = x.run.locked)
    (shows : c.Shows (g (s.memory.coordinator n)).run.stage)
    (tells : c.Tells (g (s.memory.coordinator n)).run (l.after (runEvents n s.trace)))
    (scheduler : ∀ j, (g (s.memory.coordinator n)).scheduler = some j →
      ∃ t, s.task? (.job j) = some t ∧ t.origin.isRun n = false) :
    Orderly l n (s.store k (s.memory.onCoordinator n g)) c := by
  have same : (g (s.memory.coordinator n)).run.locked = c.owner.isSome := (locked _).trans orderly.locked
  have quiet := orderly.runEvents_quiet k locked
  refine orderly.store ?_ stages same shows ?_ scheduler orderly.owner orderly.fits
  · rw [quiet]
    exact orderly.along
  · rw [quiet]
    exact tells

/-- A run whose owner is not in the middle of a turn is one that was given to a job and has not begun, or
one that waits for a stage. -/
theorem settled (orderly : Orderly l n s c)
    (rests : ∀ k t, c.owner = some k → s.task? k = some t → t.stand ≠ .running) :
    c = .idle ∨
      (∃ k t, c = .given k ∧ s.task? k = some t ∧ t.stand = .fresh ∧ t.origin.isRun n = true) ∨
      ∃ k t question next, c = .calling k question ∧ s.task? k = some t ∧ t.stand = .asking question next ∧
        question.stage?.isSome = true := by
  cases owner : c.owner with
  | none => exact .inl (by cases c <;> first | rfl | cases owner)
  | some k =>
    obtain ⟨t, found⟩ := orderly.owner k owner
    have fits := orderly.fits k t found
    unfold Course.FitsStand at fits
    cases stand : t.stand with
    | fresh =>
      simp only [stand] at fits
      by_cases isRun : t.origin.isRun n = true
      · simp only [isRun, if_true] at fits
        exact .inr (.inl ⟨k, t, fits.1, found, stand, isRun⟩)
      · simp only [isRun] at fits
        exact absurd owner fits
    | running => exact absurd stand (rests k t owner found)
    | asking question next =>
      simp only [stand] at fits
      by_cases isStage : question.stage?.isSome = true
      · simp only [isStage, if_true] at fits
        exact .inr (.inr ⟨k, t, question, next, fits, found, stand, isStage⟩)
      · simp only [isStage] at fits
        exact absurd owner fits
    | waiting request next =>
      simp only [stand] at fits
      exact absurd owner fits
    | ended =>
      simp only [stand] at fits
      exact absurd owner fits

/-- Between turns nobody is in the middle of one. -/
theorem between (orderly : Orderly l n s c) (single : Pool.Single ⟨s, none⟩) :
    c = .idle ∨
      (∃ k t, c = .given k ∧ s.task? k = some t ∧ t.stand = .fresh ∧ t.origin.isRun n = true) ∨
      ∃ k t question next, c = .calling k question ∧ s.task? k = some t ∧ t.stand = .asking question next ∧
        question.stage?.isSome = true :=
  orderly.settled fun k t _ found running => by obtain ⟨_, ⟨⟩⟩ := single k t found running

end Orderly

/-- A memory with nothing but a coordinator. -/
def Memory.coordinated : Memory :=
  { (default : Memory) with coordinators := [{ (default : Coordinator) with stages := .outside }] }

end CodeAtlas
