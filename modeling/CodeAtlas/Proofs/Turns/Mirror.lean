import CodeAtlas.Agenda.Run
import CodeAtlas.Proofs.Turns.Guarded

namespace CodeAtlas

variable {ω : Type}

/-- The one who runs the loop is the first to call the program. -/
def Party.who : Party → Who
  | .main => .caller 0
  | .job n => .job n

/-- A job on the agenda, apart from what it waits for and who waits for it. -/
def Entrant.core (e : Entrant) : Job × Option Nat × Bool × Phase := (e.job, e.group, e.stopped, e.phase.hold .turn)

/-- The agenda, apart from the turns that are due. -/
def Agenda.core (a : Agenda ω) : Memory × List Group × List (Job × Option Nat × Bool × Phase) :=
  (a.memory, a.groups, a.jobs.map Entrant.core)

/-- A task waits, and goes on with an answer in the same way as what was put by for it. -/
def Stand.GoesOn (stand : Stand) (resume : Waited → Routine Yield) : Prop :=
  (∃ question next, stand = .asking question next ∧ question.prompt = false ∧
    ∀ waited, ∃ reply, resume waited = next reply) ∨
    ∃ request next, stand = .waiting request next ∧ ∀ waited, ∃ reply, resume waited = next reply

/-- A task is as far as a job on the agenda between its turns. -/
def Task.Follows (t : Task) (e : Entrant) : Prop :=
  t.origin = .job e.job ∧ e.group = none ∧
    match e.phase with
    | .fresh => t.stand = .fresh ∧ t.stopped = e.stopped
    | .waiting _ resume => t.stand.GoesOn resume ∧ t.stopped = false
    | .over _ => t.stand = .ended

/-- The same, apart from how far they are, while it is their turn. -/
def Task.TakesTurn (t : Task) (e : Entrant) : Prop :=
  t.origin = .job e.job ∧ e.group = none ∧ t.stopped = false ∧ e.stopped = false

/-- The tasks are the jobs on the agenda, of which one may be on its turn. -/
structure Agenda.Mirrors (a : Agenda ω) (s : Scene) (turn : Option Who) : Prop where
  memory : s.memory = a.memory
  groups : a.groups = []
  jobs : s.jobs.length = a.jobs.length
  follows : ∀ (j : Nat) t e, s.jobs[j]? = some t → a.jobs[j]? = some e → turn ≠ some (.job j) → t.Follows e
  onTurn : ∀ (j : Nat) t e, s.jobs[j]? = some t → a.jobs[j]? = some e → turn = some (.job j) → t.TakesTurn e

theorem Entrant.core_eq {e e' : Entrant} (core : e.core = e'.core) :
    e.job = e'.job ∧ e.group = e'.group ∧ e.stopped = e'.stopped ∧ e.phase.hold .turn = e'.phase.hold .turn := by
  simpa only [Entrant.core, Prod.mk.injEq] using core

theorem Task.Follows.of_core {t : Task} {e e' : Entrant} (follows : t.Follows e) (core : e.core = e'.core) :
    t.Follows e' := by
  obtain ⟨job, group, stopped, phase⟩ := Entrant.core_eq core
  obtain ⟨origin, alone, stand⟩ := follows
  refine ⟨job ▸ origin, group ▸ alone, ?_⟩
  cases before : e.phase <;> cases after : e'.phase <;> simp_all [Phase.hold]

theorem Stand.GoesOn.ne_fresh {stand : Stand} {resume : Waited → Routine Yield} (goesOn : stand.GoesOn resume) :
    stand ≠ .fresh := by
  rintro rfl
  rcases goesOn with ⟨_, _, same, _⟩ | ⟨_, _, same, _⟩ <;> cases same

/-- Being asked to stop is no matter to a task that has begun. -/
theorem Task.Follows.cancelled {t : Task} {e : Entrant} (follows : t.Follows e) (begun : e.phase ≠ .fresh) :
    t.cancelled.Follows e := by
  have stand : t.stand ≠ .fresh := by
    obtain ⟨_, _, stand⟩ := follows
    cases phase : e.phase <;> simp only [phase] at stand
    · exact absurd phase begun
    · exact stand.1.ne_fresh
    · simp [stand]
  have same : t.cancelled = t := by
    unfold Task.cancelled
    split
    next fresh => exact absurd fresh stand
    next => rfl
  rwa [same]

theorem Task.Follows.marked {t : Task} {e : Entrant} (follows : t.Follows e) :
    t.cancelled.Follows { e with stopped := true } := by
  obtain ⟨origin, alone, stand⟩ := id follows
  by_cases fresh : e.phase = .fresh
  · simp only [fresh] at stand
    have marked : t.cancelled = { t with stopped := true } := by simp [Task.cancelled, stand.1]
    rw [marked]
    exact ⟨origin, alone, by simp [fresh, stand.1]⟩
  · obtain ⟨origin', _, stand'⟩ := follows.cancelled fresh
    refine ⟨origin', alone, ?_⟩
    cases phase : e.phase with
    | fresh => exact absurd phase fresh
    | _ => simpa only [phase] using stand'

theorem Task.TakesTurn.of_core {t : Task} {e e' : Entrant} (takes : t.TakesTurn e) (core : e.core = e'.core) :
    t.TakesTurn e' := by
  obtain ⟨job, group, stopped, _⟩ := Entrant.core_eq core
  obtain ⟨origin, alone, going, still⟩ := takes
  exact ⟨job ▸ origin, group ▸ alone, going, stopped ▸ still⟩

/-- Scenes that differ in nothing but what was done so far. -/
structure Scene.Alike (s s' : Scene) : Prop where
  memory : s'.memory = s.memory
  jobs : s'.jobs = s.jobs
  callers : s'.callers = s.callers

theorem Scene.Alike.tasks {s s' : Scene} (alike : s.Alike s') (k : Who) : s'.task? k = s.task? k := by
  cases k with
  | job j => exact congrArg (·[j]?) alike.jobs
  | caller j => exact congrArg (·[j]?) alike.callers

namespace Agenda

variable {a a' : Agenda ω} {s s' : Scene} {turn : Option Who} {n : Nat}

theorem core_onEntrant {f : Entrant → Entrant} (same : ∀ e, (f e).core = e.core) : (a.onEntrant n f).core = a.core := by
  have jobs : (a.jobs.modify n f).map Entrant.core = a.jobs.map Entrant.core := by
    refine List.ext_getElem? fun j => ?_
    rw [List.getElem?_map, List.getElem?_map, List.getElem?_modify]
    split <;> cases a.jobs[j]? <;> simp [same]
  exact congrArg (fun jobs => (a.memory, a.groups, jobs)) jobs

theorem core_wake (who : Party) (waited : Waited) : (a.wake who waited).core = a.core := by
  cases who with
  | main => rfl
  | job n =>
    refine core_onEntrant (a := a) fun e => ?_
    simp only [Entrant.core]
    cases e.phase <;> rfl

theorem Mirrors.of_core (mirrors : a.Mirrors s turn) (same : a'.core = a.core) : a'.Mirrors s turn := by
  have jobs : a'.jobs.map Entrant.core = a.jobs.map Entrant.core := congrArg (·.2.2) same
  have entrant (j : Nat) (e' : Entrant) (found : a'.jobs[j]? = some e') : ∃ e, a.jobs[j]? = some e ∧ e.core = e'.core := by
    have at_j := congrArg (·[j]?) jobs
    simp only [List.getElem?_map, found, Option.map_some] at at_j
    exact Option.map_eq_some_iff.mp at_j.symm
  refine ⟨?_, ?_, ?_, ?_, ?_⟩
  · rw [mirrors.memory]
    exact (congrArg (·.1) same).symm
  · rw [← mirrors.groups]
    exact congrArg (·.2.1) same
  · rw [mirrors.jobs]
    simpa using congrArg List.length jobs.symm
  · intro j t e' at_t at_e' notOn
    obtain ⟨e, at_e, core⟩ := entrant j e' at_e'
    have follows := mirrors.follows j t e at_t at_e notOn
    exact follows.of_core core
  · intro j t e' at_t at_e' on
    obtain ⟨e, at_e, core⟩ := entrant j e' at_e'
    have takes := mirrors.onTurn j t e at_t at_e on
    exact takes.of_core core

theorem Mirrors.store (mirrors : a.Mirrors s turn) (k : Who) (memory : Memory) :
    Mirrors { a with memory } (s.store k memory) turn :=
  ⟨rfl, mirrors.groups, mirrors.jobs, mirrors.follows, mirrors.onTurn⟩

theorem Mirrors.note (mirrors : a.Mirrors s turn) (k : Who) (deed : Deed) : a.Mirrors (s.note k deed) turn :=
  ⟨mirrors.memory, mirrors.groups, mirrors.jobs, mirrors.follows, mirrors.onTurn⟩

theorem entrant_of_found {e : Entrant} (found : a.jobs[n]? = some e) : a.entrant n = e := by
  simp [entrant, part, found]

/-- Each job on the agenda is a task, which follows it unless it is on its turn. -/
theorem Mirrors.follower (mirrors : a.Mirrors s turn) (other : turn ≠ some (.job n)) {e : Entrant}
    (found : a.jobs[n]? = some e) : ∃ t, s.task? (.job n) = some t ∧ t.Follows e := by
  have bound : n < s.jobs.length := mirrors.jobs ▸ (List.getElem?_eq_some_iff.mp found).1
  have there : s.jobs[n]? = some s.jobs[n] := List.getElem?_eq_getElem bound
  exact ⟨s.jobs[n], there, mirrors.follows n s.jobs[n] e there found other⟩

theorem Mirrors.alone (mirrors : a.Mirrors s turn) (other : turn ≠ some (.job n)) : (a.entrant n).group = none := by
  cases found : a.jobs[n]? with
  | none =>
    simp [entrant, part, found]
    rfl
  | some e =>
    obtain ⟨t, _, follows⟩ := mirrors.follower other found
    rw [entrant_of_found found]
    exact follows.2.1

/-- A change of one job, which may be the beginning or the end of its turn. -/
theorem Mirrors.change {turn' : Option Who} (mirrors : a.Mirrors s turn) {f : Task → Task} {g : Entrant → Entrant}
    (others : ∀ j, j ≠ n → (turn' = some (.job j) ↔ turn = some (.job j)))
    (follows : ∀ t e, s.jobs[n]? = some t → a.jobs[n]? = some e → turn' ≠ some (.job n) → (f t).Follows (g e))
    (onTurn : ∀ t e, s.jobs[n]? = some t → a.jobs[n]? = some e → turn' = some (.job n) → (f t).TakesTurn (g e)) :
    (a.onEntrant n g).Mirrors (s.onTask (.job n) f) turn' := by
  have at_n {j : Nat} {t : Task} {e : Entrant} (at_t : (s.jobs.modify n f)[j]? = some t)
      (at_e : (a.jobs.modify n g)[j]? = some e) : j = n ∧ (∃ t' e', s.jobs[n]? = some t' ∧ a.jobs[n]? = some e' ∧
        t = f t' ∧ e = g e') ∨ j ≠ n ∧ s.jobs[j]? = some t ∧ a.jobs[j]? = some e := by
    rw [List.getElem?_modify] at at_t at_e
    by_cases same : n = j
    · subst same
      simp only [if_true] at at_t at_e
      obtain ⟨t', found, rfl⟩ := Option.map_eq_some_iff.mp at_t
      obtain ⟨e', found', rfl⟩ := Option.map_eq_some_iff.mp at_e
      exact .inl ⟨rfl, t', e', found, found', rfl, rfl⟩
    · exact .inr ⟨Ne.symm same, by simpa [same] using at_t, by simpa [same] using at_e⟩
  refine ⟨mirrors.memory, mirrors.groups, ?_, fun j t e at_t at_e notOn => ?_, fun j t e at_t at_e on => ?_⟩
  · simpa [Scene.onTask, onEntrant] using mirrors.jobs
  · obtain ⟨rfl, t', e', found, found', rfl, rfl⟩ | ⟨other, old, old'⟩ := at_n at_t at_e
    · exact follows t' e' found found' notOn
    · exact mirrors.follows j t e old old' fun on => notOn ((others j other).mpr on)
  · obtain ⟨rfl, t', e', found, found', rfl, rfl⟩ | ⟨other, old, old'⟩ := at_n at_t at_e
    · exact onTurn t' e' found found' on
    · exact mirrors.onTurn j t e old old' ((others j other).mp on)

/-- What happens to callers, and between their turns, is no matter of the agenda. -/
theorem Mirrors.caller {turn' : Option Who} (mirrors : a.Mirrors s turn) (jobs : s'.jobs = s.jobs)
    (memory : s'.memory = s.memory) (neither : ∀ j, turn ≠ some (.job j) ∧ turn' ≠ some (.job j)) :
    a.Mirrors s' turn' where
  memory := memory.trans mirrors.memory
  groups := mirrors.groups
  jobs := by rw [jobs, mirrors.jobs]
  follows := by
    rw [jobs]
    exact fun j t e at_t at_e _ => mirrors.follows j t e at_t at_e (neither j).1
  onTurn := fun j _ _ _ _ on => absurd on (neither j).2

theorem Mirrors.alike (mirrors : a.Mirrors s turn) (alike : s.Alike s') : a.Mirrors s' turn where
  memory := alike.memory.trans mirrors.memory
  groups := mirrors.groups
  jobs := by rw [alike.jobs, mirrors.jobs]
  follows := by
    rw [alike.jobs]
    exact mirrors.follows
  onTurn := by
    rw [alike.jobs]
    exact mirrors.onTurn

theorem Mirrors.moved (who : Party) (mirrors : a.Mirrors s (some who.who)) {f : Task → Task}
    (same : ∀ t, (f t).origin = t.origin ∧ (f t).stopped = t.stopped) :
    a.Mirrors (s.onTask who.who f) (some who.who) := by
  cases who with
  | main => exact mirrors.caller rfl rfl fun j => ⟨nofun, nofun⟩
  | job n =>
    have kept : (a.onEntrant n fun e => e).Mirrors (s.onTask (.job n) f) (some (.job n)) := by
      refine mirrors.change (fun j _ => Iff.rfl) (fun t e _ _ notOn => absurd rfl notOn) fun t e at_t at_e on => ?_
      obtain ⟨origin, alone, going, still⟩ := mirrors.onTurn n t e at_t at_e on
      exact ⟨(same t).1.trans origin, alone, (same t).2.trans going, still⟩
    exact kept.of_core (core_onEntrant fun _ => rfl).symm

theorem Mirrors.start (mirrors : a.Mirrors s turn) (k : Who) (job : Job) (old : ∀ j, turn = some (.job j) → j < s.jobs.length) :
    (a.add job none).Mirrors (s.start k job) turn := by
  have added {j : Nat} {t : Task} {e : Entrant} (at_t : (s.start k job).jobs[j]? = some t)
      (at_e : (a.add job none).jobs[j]? = some e) : s.jobs[j]? = some t ∧ a.jobs[j]? = some e ∨
        j = s.jobs.length ∧ t = .new (.job job) ∧
          e = { job, group := none, phase := .fresh, stopped := false, watchers := [] } := by
    simp only [Scene.start, add, Scene.note, List.getElem?_snoc, mirrors.jobs] at at_t at_e
    split at at_t
    next last => exact .inr ⟨last.trans mirrors.jobs.symm, by simp_all⟩
    next other => exact .inl ⟨at_t, by simpa [other] using at_e⟩
  refine ⟨mirrors.memory, mirrors.groups, ?_, fun j t e at_t at_e notOn => ?_, fun j t e at_t at_e on => ?_⟩
  · simpa [Scene.start, Scene.note, add] using mirrors.jobs
  · obtain ⟨before, before'⟩ | ⟨_, rfl, rfl⟩ := added at_t at_e
    · exact mirrors.follows j t e before before' notOn
    · exact ⟨rfl, rfl, rfl, rfl⟩
  · obtain ⟨before, before'⟩ | ⟨last, _, _⟩ := added at_t at_e
    · exact mirrors.onTurn j t e before before' on
    · have := old j on
      omega

theorem stop_cases (groups : a.groups = []) (alone : (a.entrant n).group = none) :
    (a.stop n).core = a.core ∧ (a.entrant n).phase ≠ .fresh ∨ a.stop n = a.markStopped n := by
  unfold stop
  split
  next g _ waiting =>
    have nobody : (a.group g).members = [] := by simp [group, part, groups]; rfl
    simp [nobody]
  next =>
    unfold stopOne
    split
    next result ended => exact .inl ⟨rfl, by simp [ended]⟩
    next => exact .inr rfl
    next hold resume waiting =>
      cases hold with
      | timer => exact .inl ⟨core_wake (.job n) _, by simp [waiting]⟩
      | permit =>
        rw [alone]
        exact .inr rfl
      | _ => exact .inr rfl

theorem Mirrors.cancelled (mirrors : a.Mirrors s turn) (other : turn ≠ some (.job n)) :
    (a.stop n).Mirrors (s.onTask (.job n) Task.cancelled) turn := by
  rcases stop_cases mirrors.groups (mirrors.alone other) with ⟨core, begun⟩ | marked
  · have kept : (a.onEntrant n fun e => e).Mirrors (s.onTask (.job n) Task.cancelled) turn := by
      refine mirrors.change (fun _ _ => Iff.rfl) ?_ fun t e _ _ on => absurd on other
      intro t e at_t at_e _
      have follows := mirrors.follows n t e at_t at_e other
      rw [entrant_of_found at_e] at begun
      exact follows.cancelled begun
    exact kept.of_core (core.trans (core_onEntrant fun _ => rfl).symm)
  · rw [marked]
    refine mirrors.change (fun _ _ => Iff.rfl) ?_ fun t e _ _ on => absurd on other
    intro t e at_t at_e _
    exact (mirrors.follows n t e at_t at_e other).marked

theorem Mirrors.watched (mirrors : a.Mirrors s turn) (j : Nat) (watchers : List (Party × Watch)) :
    (a.onEntrant j fun e => { e with watchers := e.watchers ++ watchers }).Mirrors s turn :=
  mirrors.of_core (core_onEntrant fun _ => rfl)

theorem Mirrors.rests (mirrors : a.Mirrors s (some (.job n))) {f : Task → Task} {g : Entrant → Entrant}
    (follows : ∀ t e, s.jobs[n]? = some t → t.TakesTurn e → (f t).Follows (g e)) :
    (a.onEntrant n g).Mirrors (s.onTask (.job n) f) none := by
  refine mirrors.change (fun j other => ?_) (fun t e at_t at_e _ => ?_) fun _ _ _ _ on => by cases on
  · simp [Ne.symm other]
  · exact follows t e at_t (mirrors.onTurn n t e at_t at_e rfl)

theorem Mirrors.begins (mirrors : a.Mirrors s none) {f : Task → Task} {g : Entrant → Entrant}
    (takes : ∀ t e, s.jobs[n]? = some t → a.jobs[n]? = some e → (f t).TakesTurn (g e)) :
    (a.onEntrant n g).Mirrors (s.onTask (.job n) f) (some (.job n)) := by
  refine mirrors.change (fun j other => ?_) (fun _ _ _ _ notOn => absurd rfl notOn) fun t e at_t at_e _ => ?_
  · simp [Ne.symm other]
  · exact takes t e at_t at_e

theorem core_foldl {β : Type} {f : Agenda ω → β → Agenda ω} (same : ∀ a x, (f a x).core = a.core) (xs : List β)
    (a : Agenda ω) : (xs.foldl f a).core = a.core := by
  induction xs generalizing a with
  | nil => rfl
  | cons x rest ih => rw [List.foldl_cons, ih, same]

/-- Telling others of the end of a job changes nothing but the turns that are due. -/
theorem core_finish (a : Agenda ω) (n : Nat) (result : Except Fault Yield) :
    (a.finish n result).core =
      (a.onEntrant n fun e => { e with phase := .over result, stopped := false, watchers := [] }).core := by
  unfold finish
  dsimp only
  cases (a.entrant n).group
  all_goals
    refine core_foldl (fun a x => ?_) _ _
    obtain ⟨who, watch⟩ := x
    cases watch with
    | shielded => rfl
    | _ => exact core_wake who _

/-- A job ends for good, in its turn or before it has begun. -/
theorem Mirrors.finished (mirrors : a.Mirrors s turn) (own : turn = none ∨ turn = some (.job n))
    (result : Except Fault Yield) {f : Task → Task}
    (ended : ∀ t, s.jobs[n]? = some t → (f t).origin = t.origin ∧ (f t).stand = .ended) :
    (a.finish n result).Mirrors (s.onTask (.job n) f) none := by
  refine Mirrors.of_core ?_ (core_finish a n result)
  refine mirrors.change (fun j other => ?_) (fun t e at_t at_e _ => ?_) fun _ _ _ _ on => by cases on
  · rcases own with rfl | rfl <;> simp [Ne.symm other]
  · obtain ⟨origin, stand⟩ := ended t at_t
    rcases own with rfl | rfl
    · have follows := mirrors.follows n t e at_t at_e nofun
      exact ⟨origin.trans follows.1, follows.2.1, stand⟩
    · have takes := mirrors.onTurn n t e at_t at_e rfl
      exact ⟨origin.trans takes.1, takes.2.1, stand⟩

theorem Mirrors.reported (mirrors : a.Mirrors s none) (n : Nat) : (a.report n).Mirrors s none := by
  have resting : none ≠ some (Who.job n) := by simp
  rw [report, mirrors.alone resting]
  exact mirrors

end Agenda

end CodeAtlas
