import CodeAtlas.Proofs.Crew.Rota
import CodeAtlas.Proofs.Ingestion.Describing

namespace CodeAtlas

open Crew

variable {ω : Type} {m : Memory} {n : Nat} {graph : ω → Graph} {w : World ω} {k : Who} {c c' : Crew ω}

namespace Crew

/-- What jobs leave behind that were waited for leaves none of them to work. -/
theorem Charted.left {numbers : List Nat} {waited : Waited} (charted : c.Charted n graph) (regular : c.Regular)
    (awaits : c.Awaits k numbers) (leaves : c.Leaves numbers waited) : ∀ j method, ¬c.Pending j method := by
  have members : ∀ j method, c.Pending j method → j ∈ numbers := by
    intro j method pending
    obtain ⟨k', numbers', awaits', inside⟩ := charted.awaited j method pending
    obtain ⟨rfl, rfl⟩ := charted.alone awaits awaits'
    exact inside
  intro j method pending
  have inside := members j method pending
  rcases leaves with ⟨yields, all, _⟩ | ⟨i, member, fault, result, _⟩
  · have isOver : c.result? j ∈ yields.map fun y => some (.ok y) := all ▸ List.mem_map_of_mem inside
    obtain ⟨y, _, result⟩ := List.mem_map.mp isOver
    obtain ⟨h, found, ended⟩ := result?_of_found result.symm
    obtain ⟨h', e, found', _, _, rests⟩ := pending
    cases Option.some.inj (found.symm.trans found')
    simp [ended, Station.Rests] at rests
  · obtain ⟨h, found, ended⟩ := result?_of_found result
    obtain ⟨hk, resume, foundk, waiting⟩ := awaits
    obtain ⟨h', found', part⟩ := (regular.hands k hk foundk).waits numbers resume waiting i member
    cases Option.some.inj (found.symm.trans found')
    have serves := charted.staff _ h found
    have failed : c.Failed i := by
      cases origin : h.origin with
      | caller => simp [origin, Origin.isPart] at part
      | job job =>
        cases job with
        | describe e method => exact ⟨h, e, method, found, origin, .inr ⟨fault, ended⟩⟩
        | search =>
          rw [origin] at serves
          cases serves
        | _ => simp [origin, Origin.isPart] at part
    exact charted.spent k numbers ⟨hk, resume, foundk, waiting⟩ (.inr ⟨i, member, failed⟩) j inside method pending

/-- Somebody is added who describes nothing. -/
theorem Charted.adds (charted : c.Charted n graph) (old : ∀ i h, c.hand? i = some h → c'.hand? i = some h)
    (new : ∀ i h, c'.hand? i = some h → c.hand? i = some h ∨
      h.station = .fresh ∧ ∀ e method, h.origin ≠ .job (.describe e method))
    (staff : c'.Staffed (Origin.Serves n)) (owner : ∀ i numbers, c.Awaits i numbers → c'.owner n = some i)
    (world : graph c'.world = graph c.world) : c'.Charted n graph := by
  have pending : ∀ {j method}, c'.Pending j method → c.Pending j method := by
    rintro j method ⟨h, e, found, origin, rest⟩
    rcases new _ h found with there | ⟨_, other⟩
    · exact ⟨h, e, there, origin, rest⟩
    · exact absurd origin (other e method)
  have awaits : ∀ {i numbers}, c'.Awaits i numbers → c.Awaits i numbers := by
    rintro i numbers ⟨h, resume, found, waiting⟩
    rcases new i h found with there | ⟨fresh, _⟩
    · exact ⟨h, resume, there, waiting⟩
    · cases fresh.symm.trans waiting
  have cut : ∀ {i numbers}, c.Awaits i numbers → c'.Cut i numbers → c.Cut i numbers := by
    rintro i numbers ⟨h, resume, there, _⟩ (⟨h', found, stopped⟩ | ⟨j, inside, h', e, method, found, origin, failed⟩)
    · exact .inl ⟨h, there, (Option.some.inj ((old i h there).symm.trans found)) ▸ stopped⟩
    · rcases new _ h' found with there' | ⟨_, other⟩
      · exact .inr ⟨j, inside, h', e, method, there', origin, failed⟩
      · exact absurd origin (other e method)
  refine ⟨staff, world ▸ charted.tidy, fun j method is => world ▸ charted.lacks j method (pending is),
    fun i j a b first second => charted.apart i j a b (pending first) (pending second), fun j method is => ?_,
    fun i numbers is => owner i numbers (awaits is),
    fun i numbers is cutOff j inside method is' => charted.spent i numbers (awaits is) (cut (awaits is) cutOff) j inside method (pending is'),
    fun i h found runs => ?_⟩
  · obtain ⟨i, numbers, ⟨h, resume, found, waiting⟩, inside⟩ := charted.awaited j method (pending is)
    exact ⟨i, numbers, ⟨h, resume, old i h found, waiting⟩, inside⟩
  · rcases new i h found with there | ⟨fresh, _⟩
    · exact charted.going i h there runs
    · cases fresh.symm.trans runs

/-- A job is started that describes nothing. -/
theorem Charted.spawns {job : Job} (charted : c.Charted n graph) (isPlain : c.Plain k) (on : c.OnTurn m k)
    (serves : Origin.Serves n (.job c.jobs.length) (.job job)) (other : ∀ e method, job ≠ .describe e method)
    (owner : ∀ i numbers, c.Awaits i numbers → (c.spawn k job).owner n = some i) :
    (c.spawn k job).Charted n graph ∧ (c.spawn k job).Plain k := by
  have new : ∀ i h, (c.spawn k job).hand? i = some h → c.hand? i = some h ∨
      h.station = .fresh ∧ ∀ e method, h.origin ≠ .job (.describe e method) := by
    intro i h found
    rcases spawn_cases found with old | ⟨_, rfl⟩
    · exact .inl old
    · exact .inr ⟨rfl, fun e method origin => other e method (Origin.job.inj origin)⟩
  refine ⟨charted.adds (fun _ _ => spawn_found) new (charted.staff.spawn k serves) owner rfl, ?_⟩
  intro h e method found
  obtain ⟨h₀, there, _⟩ := on.running
  cases Option.some.inj (found.symm.trans (spawn_found there))
  exact isPlain h e method there

/-- A job that is still to describe a method after others were stopped is none of them. -/
theorem Pending.of_halt {numbers : List Nat} {j : Nat} {method : PendingMethod} (pending : (c.halt numbers).Pending j method) :
    c.Pending j method ∧ j ∉ numbers := by
  obtain ⟨h, e, found, origin, going, rests⟩ := pending
  obtain ⟨old, there, ⟨rfl, spared⟩ | ⟨_, _, _, rfl⟩⟩ := halt_cases found
  · exact ⟨⟨h, e, there, origin, going, rests⟩, fun inside => spared j inside rfl⟩
  · rw [Hand.marked_station] at rests
    rcases old.marked_cases with marked | ⟨_, _, isOver⟩
    · cases going.symm.trans marked
    · simp [isOver, Station.Rests] at rests

theorem Awaits.of_halt {numbers members : List Nat} (awaits : (c.halt numbers).Awaits k members) : c.Awaits k members := by
  obtain ⟨h, resume, found, waiting⟩ := awaits
  obtain ⟨old, there, _, station⟩ := halt_same found
  exact ⟨old, resume, there, station.symm.trans waiting⟩

theorem Awaits.halt {members : List Nat} (awaits : c.Awaits k members) (numbers : List Nat) : (c.halt numbers).Awaits k members := by
  obtain ⟨h, resume, found, waiting⟩ := awaits
  obtain ⟨h', found', _, _, station⟩ := halt_found numbers found
  exact ⟨h', resume, found', station.trans waiting⟩

/-- Somebody else than a job that describes a method is stopped, and has not waited any longer for those who do. -/
theorem Charted.halts_one {t : Nat} (charted : c.Charted n graph) (staff : (c.halt [t]).Staffed (Origin.Serves n))
    (going : ∀ k h, (c.halt [t]).hand? k = some h → h.station = .running → h.stopped = false) (isPlain : c.Plain (.job t))
    (news : ∀ members, c.Awaits (.job t) members → ∀ j method, ¬c.Pending j method) : (c.halt [t]).Charted n graph := by
  have failed : ∀ {j}, (c.halt [t]).Failed j → c.Failed j := by
    rintro j ⟨h, e, method, found, origin, failed⟩
    obtain ⟨old, there, ⟨rfl, _⟩ | ⟨_, inside, own, rfl⟩⟩ := halt_cases found
    · exact ⟨h, e, method, there, origin, failed⟩
    · cases own
      cases List.mem_singleton.mp inside
      exact absurd (old.marked_origin.symm.trans origin) (isPlain old e method there)
  refine ⟨staff, charted.tidy, fun j method is => charted.lacks j method is.of_halt.1,
    fun i j a b first second => charted.apart i j a b first.of_halt.1 second.of_halt.1, fun j method is => ?_,
    fun k members is => charted.owners k members is.of_halt, fun k members is cut j inside method is' => ?_, going⟩
  · obtain ⟨k, members, awaits, inside⟩ := charted.awaited j method is.of_halt.1
    exact ⟨k, members, awaits.halt [t], inside⟩
  · have was := is.of_halt
    rcases cut with ⟨h, found, stopped⟩ | ⟨l, member, fails⟩
    · obtain ⟨old, there, ⟨rfl, _⟩ | ⟨_, at_t, rfl, _⟩⟩ := halt_cases found
      · exact charted.spent k members was (.inl ⟨h, there, stopped⟩) j inside method is'.of_halt.1
      · cases List.mem_singleton.mp at_t
        exact news members was j method is'.of_halt.1
    · exact charted.spent k members was (.inr ⟨l, member, failed fails⟩) j inside method is'.of_halt.1

/-- The schedule is stopped, and with it those that it waits for. -/
theorem Charted.halts {t : Nat} {numbers : List Nat} {i : Nat} (charted : c.Charted n graph) (regular : c.Regular)
    (alone : ∀ k h, c.hand? k = some h → h.station = .running → k = .caller i) (schedules : c.Schedules t)
    (halts : c.Halts t numbers) : (c.halt numbers).Charted n graph := by
  have going : ∀ k h, (c.halt numbers).hand? k = some h → h.station = .running → h.stopped = false := by
    intro k h found runs
    obtain ⟨old, there, ⟨rfl, _⟩ | ⟨_, _, rfl, rfl⟩⟩ := halt_cases found
    · exact charted.going k h there runs
    · cases alone _ old there (old.marked_station.symm.trans runs)
  have staff := charted.staff.halt numbers
  obtain ⟨ht, resume, found, waiting, _⟩ | ⟨rfl, news⟩ := halts
  · -- The jobs that the schedule waits for are all that are to describe anything.
    have none : ∀ j method, ¬(c.halt numbers).Pending j method := by
      intro j method is
      obtain ⟨was, outside⟩ := is.of_halt
      obtain ⟨k, members, awaits, inside⟩ := charted.awaited j method was
      have awaitsT : c.Awaits (.job t) numbers := ⟨ht, resume, found, waiting⟩
      obtain ⟨_, rfl⟩ := charted.alone awaitsT awaits
      exact outside inside
    exact ⟨staff, charted.tidy, fun j method is => absurd is (none j method), fun i _ a _ is => absurd is (none i a),
      fun j method is => absurd is (none j method), fun k members is => charted.owners k members is.of_halt,
      fun _ _ _ _ j _ method => none j method, going⟩
  · obtain ⟨ht, i, found, schedule⟩ := schedules
    refine charted.halts_one staff going (fun h e method there origin => ?_) fun members awaits => ?_
    · cases Option.some.inj (found.symm.trans there)
      cases schedule.symm.trans origin
    · obtain ⟨h, resume, there, waiting⟩ := awaits
      obtain ⟨waited, leaves⟩ := news h members resume there waiting
      exact charted.left regular ⟨h, resume, there, waiting⟩ leaves

/-- Somebody comes to an end who waited for no jobs, and if it was a job that describes a method, it was stopped. -/
theorem Charted.closes {h : Hand} {result : Except Fault Yield} (charted : c.Charted n graph) (found : c.hand? k = some h)
    (apart : ∀ numbers resume, h.station ≠ .waiting (.members numbers) resume)
    (fails : ∀ e method, h.origin = .job (.describe e method) → h.stopped = true ∧ ∃ fault, result = .error fault) :
    (c.close k result).Charted n graph := by
  have moved := Moved.close k result c
  have own : ∀ h', (c.close k result).hand? k = some h' → h' = h.closed result := by
    intro h' found'
    rw [moved.own, found] at found'
    exact (Option.some.inj found').symm
  have ends : (h.closed result).station = .fresh ∨ ∃ ended, (h.closed result).station = .over ended := by
    cases result with
    | ok last =>
      cases again : h.origin.repeats with
      | false => exact .inr ⟨.ok last, by simp [Hand.closed, again]⟩
      | true => exact .inl (by simp [Hand.closed, again])
    | error fault => exact .inr ⟨.error fault, rfl⟩
  refine charted.moves moved (charted.staff.close k result) (not_awaits_of found apart) ?_ ?_ ?_ ?_ (charted.owned rfl)
    charted.tidy fun j method _ => charted.lacks j method
  · rintro numbers ⟨h', resume, found', waiting⟩
    rw [own h' found'] at waiting
    rcases ends with fresh | ⟨_, isOver⟩
    · cases fresh.symm.trans waiting
    · cases isOver.symm.trans waiting
  · rintro j method rfl ⟨h', e, found', origin, _, rests⟩
    rw [own h' found', Hand.closed_origin] at origin
    obtain ⟨_, fault, rfl⟩ := fails e method origin
    rw [own h' found'] at rests
    exact rests.elim
  · rintro j rfl ⟨h', e, method, found', origin, _⟩
    rw [own h' found', Hand.closed_origin] at origin
    exact charted.doomed ⟨h, e, method, found, origin, .inl (fails e method origin).1⟩
  · intro h' found' runs
    rw [own h' found'] at runs
    rcases ends with fresh | ⟨_, isOver⟩
    · cases fresh.symm.trans runs
    · cases isOver.symm.trans runs

/-- Somebody begins who has nothing to do with descriptions. -/
theorem Charted.begins {h : Hand} (charted : c.Charted n graph) (found : c.hand? k = some h) (fresh : h.station = .fresh)
    (going : h.stopped = false) (other : ∀ e method, h.origin ≠ .job (.describe e method)) :
    (c.begin k h.origin).Charted n graph ∧ (c.begin k h.origin).Plain k := by
  have moved := Moved.begin k h.origin c
  have isPlain : c.Plain k := by
    intro h' e method found' origin
    cases Option.some.inj (found.symm.trans found')
    exact other e method origin
  have owner : (c.begin k h.origin).owner n = c.owner n := Recorded.owner_snoc ..
  refine charted.plain isPlain moved (fun _ => rfl) (charted.staff.begin k h.origin) (not_awaits_of found (by simp [fresh]))
    (moved.not_awaits (by rintro _ _ _ ⟨⟩)) (fun h' found' _ => ?_) (charted.owned owner) charted.tidy charted.lacks
  rw [moved.own, found] at found'
  cases found'
  exact going

section TakesUp

variable {e : Enricher} {methods : List PendingMethod} {permits : Permits} {resume : Waited → Routine Yield} {hk : Hand}

/-- Somebody has methods described by jobs of their own, and waits for them. -/
def takesUp (c : Crew ω) (k : Who) (e : Enricher) (methods : List PendingMethod) (permits : Permits) (resume : Waited → Routine Yield) :
    Crew ω :=
  (c.gather permits (methods.map (.describe e))).rest k (.members (c.numbers (methods.map (.describe e)))) resume

/-- Each hand is theirs, an old one, or that of a job to describe one of the methods. -/
theorem takesUp_cases {i : Who} {h : Hand} (foundk : c.hand? k = some hk)
    (found : (c.takesUp k e methods permits resume).hand? i = some h) :
    i = k ∧ h = hk.moved (.waiting (.members (c.numbers (methods.map (.describe e)))) resume) ∨ i ≠ k ∧ c.hand? i = some h ∨
      ∃ l method, i = .job (c.jobs.length + l) ∧ methods[l]? = some method ∧
        h = .new (.job (.describe e method)) (some c.groups.length) := by
  rcases gathering_cases foundk found with own | old | ⟨l, job, rfl, at_l, rfl⟩
  · exact .inl own
  · exact .inr (.inl old)
  · have listed := List.getElem?_map (f := Job.describe e) (l := methods) (i := l)
    obtain ⟨method, named, rfl⟩ := Option.map_eq_some_iff.mp (listed.symm.trans at_l)
    exact .inr (.inr ⟨l, method, rfl, named, rfl⟩)

/-- When no job was left to work, those are that were added. -/
theorem Pending.of_takesUp {j : Nat} {method : PendingMethod} (foundk : c.hand? k = some hk) (isPlain : c.Plain k)
    (idle : ∀ j method, ¬c.Pending j method) (pending : (c.takesUp k e methods permits resume).Pending j method) :
    ∃ l, j = c.jobs.length + l ∧ methods[l]? = some method := by
  obtain ⟨h, e', found, origin, going, rests⟩ := pending
  rcases takesUp_cases foundk found with ⟨rfl, rfl⟩ | ⟨_, old⟩ | ⟨l, method', own, at_l, rfl⟩
  · exact absurd origin (isPlain hk e' method foundk)
  · exact absurd ⟨h, e', old, origin, going, rests⟩ (idle j method)
  · cases origin
    exact ⟨l, Who.job.inj own, at_l⟩

/-- When nobody waited for jobs, only those who had the methods taken up do. -/
theorem Awaits.of_takesUp {i : Who} {numbers : List Nat} (foundk : c.hand? k = some hk) (nobody : ∀ i numbers, ¬c.Awaits i numbers)
    (awaits : (c.takesUp k e methods permits resume).Awaits i numbers) : i = k ∧ numbers = c.numbers (methods.map (.describe e)) := by
  obtain ⟨h, resume', found, waiting⟩ := awaits
  rcases takesUp_cases foundk found with ⟨rfl, rfl⟩ | ⟨_, old⟩ | ⟨_, _, _, _, rfl⟩
  · cases waiting
    exact ⟨rfl, rfl⟩
  · exact absurd ⟨h, resume', old, waiting⟩ (nobody i numbers)
  · cases waiting

/-- None of the jobs that were added has failed. -/
theorem not_failed_takesUp {j : Nat} (foundk : c.hand? k = some hk) (isPlain : c.Plain k)
    (inside : j ∈ c.numbers (methods.map (Job.describe e))) : ¬(c.takesUp k e methods permits resume).Failed j := by
  rintro ⟨h, e', method, found, origin, failed⟩
  obtain ⟨l, _, rfl⟩ := List.mem_map.mp inside
  rcases takesUp_cases foundk found with ⟨own, rfl⟩ | ⟨_, old⟩ | ⟨_, _, _, _, rfl⟩
  · exact isPlain hk e' method foundk origin
  · simp [hand?] at old
  · rcases failed with stopped | ⟨_, isOver⟩
    · cases stopped
    · cases isOver

/-- The owner of the run has methods described by jobs of their own, and waits for them. -/
theorem Charted.gathers (charted : c.Charted n graph) (isPlain : c.Plain k) (on : c.OnTurn m k) (own : c.owner n = some k)
    (resume : Waited → Routine Yield) (lacks : ∀ method ∈ methods, (graph c.world).Lacks method.id)
    (apart : methods.Pairwise fun a b => a.id.same b.id = false ∧ b.id.same a.id = false) :
    (c.takesUp k e methods permits resume).Charted n graph := by
  obtain ⟨nobody, idle⟩ := charted.owner_alone on own
  obtain ⟨hk, foundk, runs⟩ := on.running
  have pending : ∀ {j method}, (c.takesUp k e methods permits resume).Pending j method →
      ∃ l, j = c.jobs.length + l ∧ methods[l]? = some method := fun is => is.of_takesUp foundk isPlain idle
  have awaits : ∀ {i numbers}, (c.takesUp k e methods permits resume).Awaits i numbers →
      i = k ∧ numbers = c.numbers (methods.map (.describe e)) := fun is => is.of_takesUp foundk nobody
  have waits : (c.takesUp k e methods permits resume).hand? k =
      some (hk.moved (.waiting (.members (c.numbers (methods.map (.describe e)))) resume)) := hand?_self (gather_found foundk) _
  have going := charted.going k hk foundk runs
  refine ⟨?_, charted.tidy, fun j method is => ?_, fun i j a b first second distinct => ?_, fun j method is => ?_,
    fun i numbers is => ?_, fun i numbers is cut => ?_, fun i h found running => ?_⟩
  · refine (charted.staff.gather fun i job inside => ?_).rest _ _ _
    obtain ⟨method, _, rfl⟩ := List.mem_map.mp inside
    exact .describe
  · obtain ⟨l, _, at_l⟩ := pending is
    exact lacks method (List.mem_of_getElem? at_l)
  · obtain ⟨x, rfl, at_x⟩ := pending first
    obtain ⟨y, rfl, at_y⟩ := pending second
    obtain ⟨bound, rfl⟩ := List.getElem?_eq_some_iff.mp at_x
    obtain ⟨bound', rfl⟩ := List.getElem?_eq_some_iff.mp at_y
    rcases Nat.lt_or_gt_of_ne (fun same : x = y => distinct (same ▸ rfl)) with before | after
    · exact (List.pairwise_iff_getElem.mp apart x y bound bound' before).1
    · exact (List.pairwise_iff_getElem.mp apart y x bound' bound after).2
  · obtain ⟨l, rfl, at_l⟩ := pending is
    have inside : c.jobs.length + l ∈ c.numbers (methods.map (Job.describe e)) := by
      have bound := (List.getElem?_eq_some_iff.mp at_l).1
      exact List.mem_map_of_mem (List.mem_range.mpr (by simpa using bound))
    exact ⟨k, _, ⟨_, resume, waits, rfl⟩, inside⟩
  · obtain ⟨rfl, rfl⟩ := awaits is
    exact own
  · obtain ⟨rfl, rfl⟩ := awaits is
    rcases cut with ⟨h, found, stopped⟩ | ⟨j, inside, failed⟩
    · cases Option.some.inj (waits.symm.trans found)
      cases going.symm.trans stopped
    · exact absurd failed (not_failed_takesUp foundk isPlain inside)
  · rcases takesUp_cases foundk found with ⟨rfl, rfl⟩ | ⟨_, old⟩ | ⟨_, _, _, _, rfl⟩
    · cases running
    · exact charted.going i h old running
    · cases running

end TakesUp

/-- The owner goes on once there is news of the jobs, or once it was stopped. -/
theorem Charted.gathered {numbers : List Nat} {h : Hand} {resume : Waited → Routine Yield} {waited : Waited}
    (charted : c.Charted n graph) (regular : c.Regular) (isPlain : c.Plain k) (found : c.hand? k = some h)
    (waiting : h.station = .waiting (.members numbers) resume) (wakes : c.Wakes k h (.members numbers) waited c') :
    (c'.goOn k).Charted n graph ∧ (c'.goOn k).Plain k := by
  have awaits : c.Awaits k numbers := ⟨h, resume, found, waiting⟩
  have moved : Moved k Hand.resumed c (c'.goOn k) := .after_waking wakes
  have idle : ∀ j method, ¬c.Pending j method := by
    unfold Wakes at wakes
    split at wakes
    next stopped =>
      intro j method pending
      obtain ⟨i, numbers', awaits', inside⟩ := charted.awaited j method pending
      obtain ⟨rfl, rfl⟩ := charted.alone awaits awaits'
      exact charted.spent k numbers awaits (.inl ⟨h, found, stopped⟩) j inside method pending
    next => exact charted.left regular awaits wakes.1
  have own : ∀ h', (c'.goOn k).hand? k = some h' → h' = h.resumed := by
    intro h' found'
    rw [moved.own, found] at found'
    exact (Option.some.inj found').symm
  have isPlain' : (c'.goOn k).Plain k := by
    intro h' e method found' describes
    rw [own h' found'] at describes
    exact isPlain h e method found describes
  refine ⟨.of_still ((charted.staff.woken wakes).goOn k) (wakes.world ▸ charted.tidy) ?_ ?_ ?_, isPlain'⟩
  · intro i numbers' awaits'
    by_cases same : i = k
    · subst same
      exact moved.not_awaits (by rintro _ _ _ ⟨⟩) numbers' awaits'
    · exact same (charted.alone ((awaits_iff_of_others moved same).mp awaits') awaits).1
  · intro j method pending
    by_cases same : Who.job j = k
    · subst same
      obtain ⟨h', e, found', origin, _⟩ := pending
      exact isPlain' h' e method found' origin
    · exact idle j method ((pending_iff_of_others moved same).mp pending)
  · intro i h' found' runs
    by_cases same : i = k
    · subst same
      rw [own h' found']
      rfl
    · exact charted.going i h' ((moved.others i same).symm.trans found') runs

end Crew

/-- Somebody works beside the runs who describes nothing. -/
theorem Crew.Charted.upkeep {r : Remit} {holds : Crew ω → Prop} (base : Upkeep w (order ω m) k .beside holds)
    (on : ∀ {c}, holds c → c.OnTurn m k) (prompts : ∀ question, r.asks question → ¬question.prompts)
    (answers : ∀ {c : Crew ω} {question}, holds c → c.Charted n graph → r.asks question →
      (graph (c.reaction w question).world).Tidy ∧
        ∀ j method, c.Pending j method → (graph (c.reaction w question).world).Lacks method.id)
    (writes : ∀ m m', r.writes m m' → m.Beside m')
    (requests : ∀ request, r.requests request → Remit.beside.requests request ∧ request.lone)
    (finds : ∀ m, Remit.beside.finds m → r.finds m := by exact fun _ _ => trivial) :
    Upkeep w (charting ω m n graph) k r fun c => holds c ∧ c.Charted n graph ∧ c.Plain k :=
  (base.mono (fun _ _ => trivial) writes (fun request allowed => (requests request allowed).1) finds).besides
    (fun known => ⟨known.1, known.2.1⟩)
    (Crew.Charted.besides w m n graph k on prompts answers (fun m m' allowed => (writes m m' allowed).runs n)
      fun request allowed => (requests request allowed).2)

/-- What leaves the graph alone leaves it tidy. -/
theorem World.Stores.quiet (stores : w.Stores graph) {asks : Ask → Prop} (quiet : ∀ question, asks question → ¬question.alters)
    {question : Ask} (charted : c.Charted n graph) (allowed : asks question) :
    (graph (c.reaction w question).world).Tidy ∧
      ∀ j method, c.Pending j method → (graph (c.reaction w question).world).Lacks method.id := by
  have same : graph (c.reaction w question).world = graph c.world := stores.keeps question c.clock c.world (quiet question allowed)
  exact ⟨same ▸ charted.tidy, fun j method pending => same ▸ charted.lacks j method pending⟩

theorem Remit.works_beside {asks : Ask → Prop} (request : Control) (allowed : (Remit.works asks).requests request) :
    Remit.beside.requests request ∧ request.lone := by
  cases request <;> first | exact ⟨trivial, trivial⟩ | exact allowed.elim

theorem Ask.quiet_of_fetches {question : Ask} (fetches : question.fetches) : ¬question.prompts ∧ ¬question.alters := by
  cases question <;> first | exact fetches.elim | exact ⟨id, id⟩

theorem Ask.quiet_of_indexes {question : Ask} (indexes : question.indexes) : ¬question.prompts ∧ ¬question.alters := by
  cases question with
  | query statement parameters =>
    refine ⟨id, ?_⟩
    cases statement <;> first | exact indexes.elim | rintro (⟨⟨⟩⟩ | ⟨⟨⟩⟩)
  | _ => first | exact indexes.elim | exact ⟨id, id⟩

theorem Ask.not_prompts_of_builds {question : Ask} (builds : question.builds) : ¬question.prompts := by
  cases question <;> first | exact builds.elim | exact id

/-- The owner of a run is on turn, and describes nothing itself. -/
def Crew.Conducts (m : Memory) (n : Nat) (graph : ω → Graph) (k : Who) (c : Crew ω) : Prop :=
  c.Owns m n k ∧ c.Charted n graph ∧ c.Plain k

namespace Crew.Conducts

open Routine

variable {α β : Type}

/-- The owner of a run works in a stage that describes nothing. -/
theorem works {asks : Ask → Prop} {p : Routine α} (conducts : c.Conducts m n graph k) (minds : p.Minds (.works asks))
    (prompts : ∀ question, asks question → ¬question.prompts)
    (answers : ∀ {c : Crew ω} {question}, c.Owns m n k → c.Charted n graph → asks question →
      (graph (c.reaction w question).world).Tidy ∧
        ∀ j method, c.Pending j method → (graph (c.reaction w question).world).Lacks method.id) :
    p.Keeps w (charting ω m n graph) k (fun _ c' => c'.Conducts m n graph k) c :=
  minds.keeps (Crew.Charted.upkeep (Owns.frame w m n k) (fun own => own.1) prompts answers (fun _ _ aside => aside.beside)
    Remit.works_beside) conducts

/-- The graph is left alone as well. -/
theorem quiet {asks : Ask → Prop} {p : Routine α} (stores : w.Stores graph) (conducts : c.Conducts m n graph k)
    (minds : p.Minds (.works asks)) (quiet : ∀ question, asks question → ¬question.prompts ∧ ¬question.alters) :
    p.Keeps w (charting ω m n graph) k (fun _ c' => c'.Conducts m n graph k) c := by
  refine conducts.works minds (fun question allowed => (quiet question allowed).1) fun {c question} _ charted allowed => ?_
  exact stores.quiet (fun question allowed => (quiet question allowed).2) charted allowed

/-- A stage that is carried out outside. -/
theorem outside {question : Ask} (stores : w.Stores graph) (conducts : c.Conducts m n graph k)
    (quiet : ¬question.prompts ∧ ¬question.alters) :
    (query question).Keeps w (charting ω m n graph) k (fun _ c' => c'.Conducts m n graph k) c := by
  have asks : (query question).Minds (.works (· = question)) := .query rfl
  exact conducts.quiet stores asks (by rintro _ rfl; exact quiet)

theorem now_bind {f : Float → Routine β} (conducts : c.Conducts m n graph k)
    (rest : (f c.clock).Keeps w (charting ω m n graph) k (fun _ c' => c'.Conducts m n graph k) c) :
    (now >>= f).Keeps w (charting ω m n graph) k (fun _ c' => c'.Conducts m n graph k) c :=
  keeps_now_bind fun _ => ⟨conducts.2.1, rest⟩

/-- The records of a listing, and nothing is changed by it. -/
theorem lists (stores : w.Stores graph) (conducts : c.Conducts m n graph k) (number : Nat) :
    (GraphClient.run number .undescribedMethods).Keeps w (charting ω m n graph) k
      (Ends (fun records c' => c'.Conducts m n graph k ∧ ∃ t, (graph c'.world).Lists t ∧ t.records = .ok records)
        (Conducts m n graph k)) c := by
  unfold GraphClient.run GraphClient.send
  rw [keeps_view_bind]
  split
  · exact conducts
  · generalize Value.null.orElse (.dict []) = parameters
    have other : ¬(Ask.query .undescribedMethods parameters).alters := by rintro (⟨⟨⟩⟩ | ⟨⟨⟩⟩)
    have quiet : ∀ question, question = Ask.query .undescribedMethods parameters → ¬question.alters := by rintro _ rfl; exact other
    have frame : Upkeep w (charting ω m n graph) k (.works (· = .query .undescribedMethods parameters)) (Conducts m n graph k) :=
      Crew.Charted.upkeep (Owns.frame w m n k) (fun own => own.1) (by rintro _ rfl; exact id)
        (fun _ charted => stores.quiet quiet charted) (fun _ _ aside => aside.beside) Remit.works_beside
    have asked : (query (.query .undescribedMethods parameters)).Keeps w (charting ω m n graph) k
        (Ends (fun table c' => c'.Conducts m n graph k ∧ (graph c'.world).Lists table) (Conducts m n graph k)) c := by
      have same : graph (c.reaction w (.query .undescribedMethods parameters)).world = graph c.world :=
        stores.keeps _ c.clock c.world other
      refine ⟨False.elim, fun soon known => ?_, fun slow => absurd slow (stores.inline _ _ _ _)⟩
      obtain ⟨inv, after⟩ := frame.exchange conducts rfl soon known
      refine ⟨inv, ?_⟩
      have told := stores.lists parameters c.clock c.world
      show Ends _ _ (c.reaction w (.query .undescribedMethods parameters)).reply _
      cases reply : (c.reaction w (.query .undescribedMethods parameters)).reply with
      | error fault => exact after
      | ok table => exact ⟨after, same ▸ told table reply⟩
    refine asked.bind (fun table c₁ after => ?_) fun _ _ after => after
    refine keeps_compute (fun records read => ?_) fun _ _ => after.1
    exact keeps_lift_bind (fun _ => ⟨after.1, table, after.2, read⟩) fun _ => after.1

/-- The methods that are taken up are described by jobs of their own, and the owner waits for them. -/
theorem gathers {e : Enricher} {methods : List PendingMethod} (conducts : c.Conducts m n graph k)
    (lacks : ∀ method ∈ methods, (graph c.world).Lacks method.id)
    (apart : methods.Pairwise fun a b => a.id.same b.id = false ∧ b.id.same a.id = false) :
    (request (.gather e.permits (methods.map (.describe e)))).Keeps w (charting ω m n graph) k
      (fun _ c' => c'.Conducts m n graph k) c := by
  obtain ⟨owns, charted, isPlain⟩ := conducts
  have parts : Remit.beside.requests (.gather e.permits (methods.map (.describe e))) :=
    fun job inside => by
      obtain ⟨method, _, rfl⟩ := List.mem_map.mp inside
      trivial
  have base := Owns.frame w m n k
  refine ⟨?_, fun await read c' rest waits known => ?_⟩
  · rintro _ _ ⟨_, _, rfl⟩
    exact fun _ => ⟨charted, owns, charted, isPlain⟩
  · have goesOn := (base.wait rest owns parts waits known.1).2
    obtain ⟨rfl, rfl, rfl⟩ := waits
    refine ⟨charted.gathers isPlain owns.1 owns.2.2 rest lacks apart, ?_⟩
    intro d h waited d' known' charted' still since found waiting wakes known''
    have isPlain' : d.Plain k := by
      obtain ⟨hk, foundk, _⟩ := owns.1.running
      obtain ⟨h', found', origin, _⟩ := since.hands k _ (hand?_self (gather_found foundk) _)
      intro h'' e' method found'' describes
      cases Option.some.inj (found'.symm.trans found'')
      exact isPlain hk e' method foundk (origin.symm.trans describes)
    have owns' := (goesOn d h waited d' known'.1 known'.2.1 still since found waiting wakes known''.1).2
    have after := charted'.gathered known'.2.1 isPlain' found waiting wakes
    exact ⟨after.1, owns', after⟩

theorem enriches (stores : w.Stores graph) (conducts : c.Conducts m n graph k) (e : Enricher) :
    (enrichMethods e).Keeps w (charting ω m n graph) k (fun _ c' => c'.Conducts m n graph k) c := by
  unfold enrichMethods
  refine conducts.now_bind ?_
  refine (conducts.lists stores e.graph).seq fun records c₁ ⟨conducts, table, lists, read⟩ => ?_
  refine keeps_compute (fun methods made => ?_) fun _ _ => conducts
  obtain ⟨lacks, apart⟩ := conducts.2.1.tidy.listed lists read made
  split
  · exact conducts
  · refine (conducts.gathers lacks apart).bind (fun _ c₂ conducts => conducts.now_bind conducts) fun _ _ conducts => conducts

end Crew.Conducts

/-- What is said of one who works with a coordinator, and has no part in describing. -/
def Crew.Beside (n : Nat) (graph : ω → Graph) (k : Who) (holds : Crew ω → Prop) (c : Crew ω) : Prop :=
  holds c ∧ c.Charted n graph ∧ c.Plain k

/-- The owner of a run stores something and keeps the lock. -/
theorem Crew.Conducts.keep {m' : Memory} (conducts : c.Conducts m n graph k) (owns : (c.store k m').Owns m n k) :
    (c.store k m').Conducts m n graph k := by
  have owner : (c.store k m').owner n = c.owner n := owns.2.2.trans conducts.1.2.2.symm
  exact ⟨owns, conducts.2.1.stored conducts.2.2 conducts.1.1 owns.1 (conducts.2.1.owned owner)⟩

/-- Something is noted beside the run. -/
theorem Crew.Charted.noted {f : Coordinator → Coordinator} (charted : c.Charted n graph) (isPlain : c.Plain k) (idles : c.Idles m n k)
    (idles' : (c.store k (c.memory.onCoordinator n f)).Idles m n k) (run : ∀ x, (f x).run = x.run) :
    (c.store k (c.memory.onCoordinator n f)).Charted n graph ∧ (c.store k (c.memory.onCoordinator n f)).Plain k := by
  have same : ((c.memory.onCoordinator n f).coordinator n).run = (c.memory.coordinator n).run := by
    rw [Memory.coordinator_onCoordinator f idles.2, run]
  exact charted.stored isPlain idles.1 idles'.1 (charted.owned (owner_store_same same))

/-- What is built is tidy, and no job is about to describe anything meanwhile. -/
theorem World.Stores.building (stores : w.Stores graph) {question : Ask} (owns : c.Owns m n k) (charted : c.Charted n graph)
    (builds : question.builds) : (graph (c.reaction w question).world).Tidy ∧
      ∀ j method, c.Pending j method → (graph (c.reaction w question).world).Lacks method.id := by
  refine ⟨?_, fun j method pending => absurd pending ((charted.owner_alone owns.1 owns.2.2).2 j method)⟩
  cases question with
  | query statement parameters =>
    rcases stores.builds statement parameters c.clock c.world builds.1 with written | ⟨same, _⟩
    · exact written ▸ charted.tidy.writeAll builds.2
    · exact same ▸ charted.tidy
  | _ => exact builds.elim

namespace Coordinator

theorem charting_drive (stores : w.Stores graph) (m : Memory) (n : Nat) (k : Who) :
    Drive w (charting ω m n graph) n k (fun _ => True) (Conducts m n graph k) (Beside n graph k (Idles m n k)) where
  looks conducts _ := ⟨conducts.2.1, conducts⟩
  drives f conducts keeps known := by
    have after := conducts.keep (conducts.1.drive keeps known.1).2
    exact ⟨after.2.1, after⟩
  sources _ := trivial
  fetch := by
    intro s c endpoint _ conducts
    cases s with
    | pipeline p => exact conducts.quiet stores (fetchSnapshot_minds _ _) fun _ => Ask.quiet_of_fetches
    | outside => exact conducts.outside stores ⟨id, id⟩
  build := by
    intro s c snapshot _ conducts
    cases s with
    | pipeline p =>
      have minds := (buildGraph_minds p.graph p.graphBatch snapshot).bind fun _ => .pure ()
      exact conducts.works minds (fun _ => Ask.not_prompts_of_builds) stores.building
    | outside => exact conducts.outside stores ⟨id, id⟩
  enrich := by
    intro s c _ conducts
    cases s with
    | pipeline p => exact (conducts.enriches stores p.enricher).bind (fun _ _ after => after) fun _ _ after => after
    | outside => exact conducts.outside stores ⟨id, id⟩
  vectorize := by
    intro s c _ conducts
    cases s with
    | pipeline p =>
      have minds := (vectorize_minds p.graph p.index p.embedding).bind fun _ => .pure ()
      exact conducts.quiet stores minds fun _ => Ask.quiet_of_indexes
    | outside => exact conducts.outside stores ⟨id, id⟩
  release := by
    intro c conducts known
    obtain ⟨_, idles⟩ := conducts.1.release known.1
    have nobody := (conducts.2.1.owner_alone conducts.1.1 conducts.1.2.2).1
    have after := conducts.2.1.stored conducts.2.2 conducts.1.1 idles.1 fun i numbers _ awaits => absurd awaits (nobody i numbers)
    exact ⟨after.1, idles, after⟩

/-- Whoever works with a coordinator leaves descriptions to the jobs for them. -/
theorem charting_conduct (stores : w.Stores graph) (m : Memory) (n : Nat) (k : Who) :
    Conduct w (charting ω m n graph) n k (Beside n graph k (Idles m n k)) (Beside n graph k (Took m n k))
      (fun _ => Beside n graph k (Took m n k)) where
  patient :=
    Crew.Charted.upkeep (Idles.frame w m n k) (fun idles => idles.1) (fun _ => False.elim) (fun _ _ => False.elim)
      (fun _ _ => False.elim) fun request patient => by
        cases request <;> first | exact ⟨trivial, trivial⟩ | exact patient.elim
  acquire := by
    rintro c ⟨idles, charted, isPlain⟩ unlocked known
    obtain ⟨_, took⟩ := idles.acquire unlocked known.1
    have free := idles.1.recorded.free unlocked
    have after := charted.stored isPlain idles.1 took.1 fun i numbers _ awaits => by
      cases free.symm.trans (charted.owners i numbers awaits)
    exact ⟨after.1, took, after⟩
  draw := by
    rintro c took
    have minds : (Routine.query .drawId).Minds (.works (· = .drawId)) := .query rfl
    have frame : Upkeep w (charting ω m n graph) k (.works (· = .drawId)) (Beside n graph k (Took m n k)) :=
      Crew.Charted.upkeep (Took.frame w m n k) (fun took => took.1) (by rintro _ rfl; exact id)
        (fun _ charted => stores.quiet (by rintro _ rfl; exact id) charted) (fun _ _ aside => aside.beside) Remit.works_beside
    refine (minds.keeps frame took).imp fun result c' after => ?_
    cases result with
    | ok => exact after
    | error => exact ⟨after.1.owns.idles, after.2⟩
  prepare _ := by
    refine Crew.Charted.upkeep (Took.frame w m n k) (fun took => took.1) (fun question starting => ?_)
      (fun _ charted => stores.quiet (fun question starting => ?_) charted) (fun _ _ => False.elim) fun request starting => ?_
    · cases question <;> first | exact id | exact starting.elim
    · cases question <;> first | exact id | exact starting.elim
    · cases request <;> first | exact ⟨trivial, trivial⟩ | exact starting.elim
  lapse took := ⟨took.1.owns.idles, took.2⟩
  give := by
    rintro id c ⟨took, charted, isPlain⟩ known
    obtain ⟨_, idles⟩ := took.give id known.1
    have nobody := (charted.owner_alone took.1 took.2.2.1).1
    have serves : Origin.Serves n (.job c.jobs.length) (.job (.ingest n id)) := .ingest
    have after := charted.spawns isPlain took.1 serves nofun fun i numbers awaits => absurd awaits (nobody i numbers)
    exact ⟨after.1, idles, after⟩
  giveBack := by
    rintro id c ⟨took, charted, isPlain⟩ known
    exact (charting_drive stores m n k).release ⟨took.owns, charted, isPlain⟩ known
  run := by
    rintro id c ⟨took, charted, isPlain⟩
    exact (charting_drive stores m n k).runStages id ⟨took.owns, charted, isPlain⟩
  note := by
    rintro c f ⟨idles, charted, isPlain⟩ keeps known
    have idles' := (idles.note (fun x => (keeps x).1) (fun t plans => .inl ((keeps _).2.1 ▸ plans)) known.1).2
    have after := charted.noted isPlain idles idles' fun x => (keeps x).1
    exact ⟨after.1, idles', after⟩
  launch := by
    rintro c ⟨idles, charted, isPlain⟩ known
    obtain ⟨_, idles'⟩ := idles.launch known.1
    have serves : Origin.Serves n (.job c.jobs.length) (.job (.schedule n)) := .schedule
    have after := charted.spawns isPlain idles.1 serves nofun fun i numbers awaits =>
      (Regular.owner_spawn c n k (.schedule n)).trans (charted.owners i numbers awaits)
    exact ⟨after.1, idles', after⟩
  plan := by
    rintro c scheduler ⟨idles, charted, isPlain⟩ there known
    have idles' := (idles.note (f := fun x => { x with scheduler }) (fun _ => rfl) (fun t plans => .inr (there t plans)) known.1).2
    have after := charted.noted (f := fun x => { x with scheduler }) isPlain idles idles' fun _ => rfl
    exact ⟨after.1, idles', after⟩
  planned := fun ⟨idles, _⟩ plans => idles.1.regular.schedulers _ _ plans

/-- A caller may stop the schedule. -/
theorem charting_stops (m : Memory) (n : Nat) (graph : ω → Graph) (i : Nat) :
    MayStop (charting ω m n graph) (Beside n graph (.caller i) (Idles m n (.caller i))) := by
  rintro c t numbers ⟨idles, charted, isPlain⟩ schedules halts known
  obtain ⟨h₀, there, runs⟩ := idles.1.running
  have alone : ∀ k h, c.hand? k = some h → h.station = .running → k = .caller i := by
    intro k h found runs'
    obtain ⟨h', found', _, _, still⟩ := halt_found numbers found
    obtain ⟨h₁, there', _, _, still'⟩ := halt_found numbers there
    exact known.2.2 k (.caller i) h' h₁ found' (still.trans runs') there' (still'.trans runs)
  have idles' := (idles.stop schedules halts known.1).2
  have charted' := charted.halts idles.1.regular alone schedules halts
  exact ⟨charted', idles', charted', fun h e method found => isPlain h e method found⟩

/-- Whoever calls a coordinator, whoever carries out its runs, and whoever describes methods for them. -/
theorem charting_guards (stores : w.Stores graph) (present : n < m.coordinators.length) :
    (charting ω m n graph).Guards w (Caller n) where
  call := by
    intro c program known charted calls _
    refine charted.adds (fun _ _ => call_found) (fun i h found => ?_) (charted.staff.call .caller) charted.owners rfl
    rcases call_cases found with old | ⟨_, rfl⟩
    · exact .inl old
    · exact .inr ⟨rfl, nofun⟩
  pass := by
    intro c time _ charted
    exact charted.adds (fun _ _ found => found) (fun _ _ found => .inl found) charted.staff charted.owners rfl
  drop := by
    intro c k h known charted still found fresh stopped _
    exact ⟨charted.closes found (by simp [fresh]) fun _ _ _ => ⟨stopped, _, rfl⟩, trivial⟩
  begin := by
    intro c k h known charted still found fresh going calls known'
    have on := known.2.1.begins found known'.1
    have idles := on.idles present
    have closes : ∀ {c : Crew ω} {result}, Beside n graph k (Idles m n k) c → (charting ω m n graph).Closes k result c := by
      rintro c result ⟨idles, charted, isPlain⟩ _
      obtain ⟨h', found', runs⟩ := idles.1.running
      exact ⟨charted.closes found' (by simp [runs]) fun e method origin => absurd origin (isPlain h' e method found'), trivial⟩
    have kind := charted.staff k h found
    cases origin : h.origin with
    | caller program =>
      have after := charted.begins found fresh going (by simp [origin])
      rw [origin] at kind idles after
      cases kind with
      | @caller i _ =>
        refine ⟨after.1, ?_⟩
        exact (charting_conduct stores m n _).caller (charting_stops m n graph i) closes (calls program origin) ⟨idles, after⟩
    | job work =>
      cases work with
      | ingest n' id =>
        have after := charted.begins found fresh going (by simp [origin])
        rw [origin] at kind
        cases kind
        have owns := known.2.1.begins_run known.1 found fresh origin known'.1
        rw [origin] at owns after
        have run := (charting_drive stores m n _).runStages id ⟨owns, after⟩
        exact ⟨after.1, run.bind (fun _ _ after => closes after) fun _ _ after => closes after⟩
      | schedule n' =>
        have after := charted.begins found fresh going (by simp [origin])
        rw [origin] at kind idles after
        cases kind
        have round := (charting_conduct stores m n _).scheduleRound ⟨idles, after⟩
        exact ⟨after.1, round.bind (fun _ _ after => closes after) fun _ _ after => closes after⟩
      | describe e method =>
        rw [origin] at kind
        cases kind with
        | @describe j _ _ =>
          have entitled := Describing.begins charted known.2.1 found fresh going origin known'.1
          rw [origin] at entitled
          exact ⟨entitled.1.charted, Job.describe_keeps stores entitled⟩
      | search =>
        rw [origin] at kind
        cases kind

/-- Over all runs of a coordinator, whoever calls it and in whatever order the jobs work, no method ever has two
descriptions, and the language model is asked about none that has one: who asks is a job that describes a method, about
that method, while it has none. -/
theorem described_once {world : ω} {hasLoop : Bool} {a : Shift ω} (stores : w.Stores graph) (resting : m.Resting)
    (present : n < m.coordinators.length) (tidy : (graph world).Tidy)
    (reach : Shift.Reach w (Caller n) m world hasLoop a) :
    (∀ place id x y, (graph a.crew.world).IsMethod place id → (graph a.crew.world).Describes place x →
      (graph a.crew.world).Describes place y → x = y) ∧
    ∀ k question next, a.turn = some (k, .ask question next) → question.prompts → ∃ j h e method, k = .job j ∧
      a.crew.hand? k = some h ∧ h.origin = .job (.describe e method) ∧ question.About method ∧
      (graph a.crew.world).Lacks method.id := by
  have known : ∀ {a}, Shift.Reach w (Caller n) m world hasLoop a → (charting ω m n graph).known a.crew := by
    intro a reach
    exact ⟨reach.recorded resting.unlocked, reach.regular (fun calls on => calls.orderly present on) resting, reach.proper.single⟩
  have nobody : ∀ k, (Crew.start m world hasLoop).hand? k = none := by
    intro k
    cases k <;> rfl
  have initially : (Crew.start m world hasLoop).Charted n graph :=
    .of_still (.start m world hasLoop) tidy (by rintro k _ ⟨h, _, found, _⟩; cases (nobody k).symm.trans found)
      (by rintro j _ ⟨h, _, found, _⟩; cases (nobody _).symm.trans found)
      (by rintro k h found; cases (nobody k).symm.trans found)
  have sound := reach.sound (charting_guards stores present) known initially
  refine ⟨sound.holds.tidy.single, fun k question next turn prompts => ?_⟩
  exact (sound.keeps k _ turn).1 prompts

end Coordinator

section Example

/-- What is told of the methods without a description. -/
def Graph.listing (g : Graph) : Table where
  header := .list (pendingProperties.map fun name => .list [.int 1, .str name])
  rows := (g.undescribed.take maxMethodsPerRun).map fun at_place => .cells ((pendingProperties.map at_place.1.properties).map .plain)

theorem Graph.lists_listing (g : Graph) : g.Lists g.listing where
  header := ⟨_, rfl, List.forall₂_map_right_iff.mpr (List.forall₂_same.mpr fun _ _ => ⟨.int 1, rfl⟩)⟩
  rows := ⟨g.undescribed.take maxMethodsPerRun, (List.take_sublist ..).subperm, List.length_take,
    List.forall₂_map_right_iff.mpr (List.forall₂_same.mpr fun _ _ => rfl)⟩

def Table.empty : Table := ⟨.list [], []⟩

/-- How many descriptions were created. -/
def Table.created (count : Nat) : Table := ⟨.list [.list [.int 1, .str "created"]], [.cells [.plain (.int count)]]⟩

/-- What the analysis answers throughout: a code base with one method. -/
def HttpReply.analysis : HttpReply where
  status := .int 200
  text := .null
  body := .ok (.record [("data", .record [("analysisId", .str "1"), ("status", .str "completed"),
    ("methods", .list [.record [("name", .str "area")]])])])

/-- Surroundings with a graph, an analysis of a code base, and a language model that is not reached. -/
def World.storing : World Graph where
  answer
    | .query .undescribedMethods _, _, g => ⟨g, 0, .ok g.listing⟩
    | .query .createDescription parameters, _, g =>
      ⟨g.describe parameters, 0, .ok (Table.created (g.places "Method" (parameters.field "method_id")).length)⟩
    | .query statement parameters, _, g => ⟨g.writeAll (statement.writes (sentRows parameters)), 0, .ok Table.empty⟩
    | .openSession _, _, g | .closeSession, _, g => ⟨g, 0, .ok ()⟩
    | .requestAnalysis .., _, g => ⟨g, 0, .ok .analysis⟩
    | .drawId, _, g => ⟨g, 0, .ok Nat.zero⟩
    | _, _, g => ⟨g, 1, .error (.foreign .connection none)⟩

theorem World.storing_stores : World.storing.Stores id where
  inline statement _ _ _ := by
    have soon : ¬(0 : Float) < 0 := by decide
    cases statement <;> exact soon
  civil question clock g describes := by
    cases question with
    | query statement => cases statement <;> exact .ok _
    | requestCompletion | complete | contentAt => exact .error rfl
    | openSession | drawId => exact .ok _
    | _ => exact describes.elim
  lists := by
    rintro _ _ g _ ⟨⟩
    exact g.lists_listing
  describes _ _ _ := .inl rfl
  builds statement _ _ _ builds := by
    cases statement <;> first | exact .inl rfl | exact builds.elim
  keeps question _ _ other := by
    cases question with
    | query statement =>
      cases statement <;> first | rfl | exact absurd (.inl rfl) other | exact absurd (.inr trivial) other
    | _ => rfl

/-- A memory with a coordinator that carries out all stages. -/
def Memory.piped : Memory :=
  { Memory.coordinated with
    graphs := [{ (default : GraphClient) with connected := true }]
    coordinators := [{ (default : Coordinator) with
      endpoint := .str ""
      stages := .pipeline { (default : Pipeline) with
        polling := { (default : PollingSettings) with maxPolls := .int 1 }
        graphBatch := .int 10
        enricher := { (default : Enricher) with completion := .outside, permits := .limited 1 } } }] }

/-- A helper outside is asked to complete a text. -/
def Shift.prompting {ω : Type} (a : Shift ω) : Bool :=
  match a.turn with
  | some (_, .ask (.complete ..) _) => true
  | _ => false

theorem Shift.prompts_of_prompting {ω : Type} {a : Shift ω} (prompting : a.prompting = true) :
    ∃ k question next, a.turn = some (k, .ask question next) ∧ question.prompts := by
  unfold Shift.prompting at prompting
  split at prompting
  next turn => exact ⟨_, _, _, turn, trivial⟩
  next => cases prompting

theorem Graph.tidy_empty : Graph.Tidy ⟨[], []⟩ where
  within _ inside := absurd inside List.not_mem_nil
  ids := by
    rintro place id ⟨node, found, _⟩
    simp at found
  distinct := by
    rintro i j a b ⟨node, found, _⟩
    simp at found
  single := by
    rintro place id a b ⟨node, found, _⟩
    simp at found

theorem Memory.piped_resting : Memory.piped.Resting := by
  have either : ∀ n, Memory.piped.coordinator n = Memory.piped.coordinator 0 ∨ Memory.piped.coordinator n = default := by
    intro n
    cases n with
    | zero => exact .inl rfl
    | succ => exact .inr rfl
  refine ⟨fun n => ?_, fun n => ?_, fun n => ?_, ⟨nofun, nofun⟩⟩ <;> rcases either n with same | same <;> rw [same] <;> rfl

/-- A run takes in a code base with one method, and a job is about to ask for the description of the method. -/
theorem Coordinator.described_once_storing : ∃ a, Shift.Reach World.storing (Caller 0) .piped ⟨[], []⟩ true a ∧
    (∃ k question next, a.turn = some (k, .ask question next) ∧ question.prompts) ∧
    (∀ place id x y, a.crew.world.IsMethod place id → a.crew.world.Describes place x → a.crew.world.Describes place y → x = y) ∧
    ∀ k question next, a.turn = some (k, .ask question next) → question.prompts → ∃ j h e method, k = .job j ∧
      a.crew.hand? k = some h ∧ h.origin = .job (.describe e method) ∧ question.About method ∧
      a.crew.world.Lacks method.id := by
  have calls : Caller 0 ((runPipeline 0).andThen fun _ => .done (.ok .nothing)) := .runPipeline fun _ => .done
  have called : Shift.Reach World.storing (Caller 0) .piped ⟨[], []⟩ true _ := .next .start (.call calls)
  have reach := called.leads (Shift.rota_leads [(.caller 0, 100), (.job 0, 1)] _)
  refine ⟨_, reach, ?_, ?_⟩
  · exact Shift.prompts_of_prompting (by decide +kernel)
  · exact described_once World.storing_stores Memory.piped_resting (by decide) Graph.tidy_empty reach

end Example

end CodeAtlas
