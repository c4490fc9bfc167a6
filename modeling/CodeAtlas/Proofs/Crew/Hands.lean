import CodeAtlas.Proofs.Crew.Basic

namespace CodeAtlas

variable {ω : Type}

/-- Jobs are carried out by those who are there for them, and programs by their callers. -/
def Origin.Fits : Origin → Who → Prop
  | .job _, .job _ => True
  | .caller _, .caller _ => True
  | _, _ => False

theorem Origin.Fits.once {origin : Origin} {i : Nat} (fits : origin.Fits (.caller i)) : origin.repeats = false := by
  cases origin with
  | job => exact fits.elim
  | caller => rfl

namespace Crew

variable {c c' : Crew ω} {h : Hand} {j k : Who}

theorem hand?_onHand (c : Crew ω) (k j : Who) (f : Hand → Hand) :
    (c.onHand k f).hand? j = if k = j then (c.hand? j).map f else c.hand? j := by
  cases k <;> cases j <;> simp [onHand, hand?, List.getElem?_modify] <;> split <;> simp_all

/-- At the end of a wait nothing changes, except that a permit may be taken. -/
theorem Wakes.changes {await : Await} {waited : Waited} (wakes : c.Wakes k h await waited c') :
    c' = c ∨ c' = c.onGroup k Permits.less := by
  unfold Wakes at wakes
  split at wakes
  · exact .inl wakes.2
  · cases await with
    | time => exact .inl wakes.2.2
    | permit => exact .inr wakes.2.2
    | members | job => exact .inl wakes.2

theorem hand?_self (found : c.hand? k = some h) (f : Hand → Hand) : (c.onHand k f).hand? k = some (f h) := by
  rw [hand?_onHand, if_pos rfl, found, Option.map_some]

theorem hand?_other (other : k ≠ j) (f : Hand → Hand) : (c.onHand k f).hand? j = c.hand? j := by
  rw [hand?_onHand, if_neg other]

theorem onHand_id (c : Crew ω) (k j : Who) : (c.onHand k id).hand? j = c.hand? j := by
  rw [hand?_onHand]
  split
  · exact Option.map_id_fun' ▸ congrFun Option.map_id_fun _
  · rfl

/-- A hand is the one that was changed, or what it was before. -/
theorem onHand_cases {f : Hand → Hand} (found : (c.onHand k f).hand? j = some h) :
    k = j ∧ (∃ old, c.hand? k = some old ∧ h = f old) ∨ k ≠ j ∧ c.hand? j = some h := by
  rw [hand?_onHand] at found
  split at found
  next same =>
    obtain ⟨old, at_j, rfl⟩ := Option.map_eq_some_iff.mp found
    exact .inl ⟨same, old, same ▸ at_j, rfl⟩
  next other => exact .inr ⟨other, found⟩

theorem hand?_call (c : Crew ω) (program : Routine Yield) (j : Who) : (c.call program).hand? j =
    if j = .caller c.callers.length then some (.new (.caller program) none) else c.hand? j := by
  cases j with
  | job j => simp [hand?, call]
  | caller j => simp [hand?, call, List.getElem?_snoc]

theorem hand?_spawn (c : Crew ω) (k : Who) (job : Job) (j : Who) : (c.spawn k job).hand? j =
    if j = .job c.jobs.length then some (.new (.job job) none) else c.hand? j := by
  cases j with
  | job j => simp [hand?, spawn, add, note, List.getElem?_snoc]
  | caller j => simp [hand?, spawn, add, note]

theorem hand?_halt (c : Crew ω) (numbers : List Nat) (j : Who) : (c.halt numbers).hand? j =
    match j with
    | .job i => (c.hand? j).map fun h => if i ∈ numbers then h.marked else h
    | .caller _ => c.hand? j := by
  cases j with
  | job j => simp [hand?, halt, List.getElem?_mapIdx]
  | caller j => rfl

theorem call_found {program : Routine Yield} (found : c.hand? j = some h) : (c.call program).hand? j = some h := by
  have old : j ≠ .caller c.callers.length := by
    rintro rfl
    simp [hand?] at found
  rw [hand?_call, if_neg old, found]

/-- A hand was there before, or is that of the caller who has come. -/
theorem call_cases {program : Routine Yield} (found : (c.call program).hand? j = some h) :
    c.hand? j = some h ∨ j = .caller c.callers.length ∧ h = .new (.caller program) none := by
  rw [hand?_call] at found
  split at found
  next new => exact .inr ⟨new, (Option.some.inj found).symm⟩
  next => exact .inl found

theorem spawn_found {job : Job} (found : c.hand? j = some h) : (c.spawn k job).hand? j = some h := by
  have old : j ≠ .job c.jobs.length := by
    rintro rfl
    simp [hand?] at found
  rw [hand?_spawn, if_neg old, found]

/-- A hand was there before, or is that of the job that was added. -/
theorem spawn_cases {job : Job} (found : (c.spawn k job).hand? j = some h) :
    c.hand? j = some h ∨ j = .job c.jobs.length ∧ h = .new (.job job) none := by
  rw [hand?_spawn] at found
  split at found
  next new => exact .inr ⟨new, (Option.some.inj found).symm⟩
  next => exact .inl found

/-- Nobody goes anywhere when jobs are stopped. -/
theorem halt_found (numbers : List Nat) (found : c.hand? j = some h) : ∃ h', (c.halt numbers).hand? j = some h' ∧
    h'.origin = h.origin ∧ h'.group = h.group ∧ h'.station = h.station := by
  rw [hand?_halt]
  cases j with
  | job i =>
    refine ⟨_, by simp only [found, Option.map_some]; rfl, ?_⟩
    split
    · exact ⟨h.marked_origin, h.marked_group, h.marked_station⟩
    · exact ⟨rfl, rfl, rfl⟩
  | caller i => exact ⟨h, found, rfl, rfl, rfl⟩

/-- A hand is as it was before, or is that of a job that was stopped. -/
theorem halt_cases {numbers : List Nat} (found : (c.halt numbers).hand? j = some h) : ∃ old, c.hand? j = some old ∧
    ((h = old ∧ ∀ i ∈ numbers, j ≠ .job i) ∨ ∃ i ∈ numbers, j = .job i ∧ h = old.marked) := by
  rw [hand?_halt] at found
  cases j with
  | job i =>
    obtain ⟨old, there, rfl⟩ := Option.map_eq_some_iff.mp found
    refine ⟨old, there, ?_⟩
    by_cases inside : i ∈ numbers
    · exact .inr ⟨i, inside, rfl, if_pos inside⟩
    · exact .inl ⟨if_neg inside, fun _ inside' same => inside (Who.job.inj same ▸ inside')⟩
  | caller i => exact ⟨h, found, .inl ⟨rfl, fun _ _ => nofun⟩⟩

/-- Where somebody stands after jobs were stopped is where they stood. -/
theorem halt_same {numbers : List Nat} (found : (c.halt numbers).hand? j = some h) : ∃ old, c.hand? j = some old ∧
    h.origin = old.origin ∧ h.station = old.station := by
  obtain ⟨old, there, ⟨rfl, _⟩ | ⟨_, _, _, rfl⟩⟩ := halt_cases found
  · exact ⟨h, there, rfl, rfl⟩
  · exact ⟨old, there, old.marked_origin, old.marked_station⟩

theorem gather_found {permits : Permits} {jobs : List Job} (found : c.hand? j = some h) :
    (c.gather permits jobs).hand? j = some h := by
  cases j with
  | job i =>
    have inside : i < c.jobs.length := (List.getElem?_eq_some_iff.mp found).1
    simp only [hand?, gather, List.getElem?_append_left inside]
    exact found
  | caller i => exact found

/-- A hand was there before, or is one of the jobs that were added. -/
theorem gather_cases {permits : Permits} {jobs : List Job} (found : (c.gather permits jobs).hand? j = some h) :
    c.hand? j = some h ∨ ∃ i job, j = .job (c.jobs.length + i) ∧ jobs[i]? = some job ∧
      h = .new (.job job) (some c.groups.length) := by
  cases j with
  | job i =>
    simp only [hand?, gather, List.getElem?_append] at found
    split at found
    · exact .inl found
    next beyond =>
      rw [List.getElem?_map, Option.map_eq_some_iff] at found
      obtain ⟨job, at_i, rfl⟩ := found
      exact .inr ⟨i - c.jobs.length, job, by congr 1; omega, at_i, rfl⟩
  | caller i => exact .inl found

/-- Once jobs were added for somebody who waits, a hand is theirs, or was there before, or is one of the jobs. -/
theorem gathering_cases {permits : Permits} {jobs : List Job} {await : Await} {resume : Waited → Routine Yield} {owner : Hand}
    (there : c.hand? k = some owner) (found : ((c.gather permits jobs).rest k await resume).hand? j = some h) :
    j = k ∧ h = owner.moved (.waiting await resume) ∨ j ≠ k ∧ c.hand? j = some h ∨
      ∃ i job, j = .job (c.jobs.length + i) ∧ jobs[i]? = some job ∧ h = .new (.job job) (some c.groups.length) := by
  rcases onHand_cases found with ⟨rfl, old, before, rfl⟩ | ⟨other, before⟩
  · cases Option.some.inj ((gather_found there).symm.trans before)
    exact .inl ⟨rfl, rfl⟩
  · rcases gather_cases before with old | new
    · exact .inr (.inl ⟨other.symm, old⟩)
    · exact .inr (.inr new)

theorem hand?_onGroup (c : Crew ω) (k : Who) (f : Permits → Permits) (j : Who) : (c.onGroup k f).hand? j = c.hand? j := by
  unfold onGroup
  split <;> cases j <;> rfl

theorem onGroup_memory (c : Crew ω) (k : Who) (f : Permits → Permits) : (c.onGroup k f).memory = c.memory := by
  unfold onGroup
  split <;> rfl

theorem onGroup_world (c : Crew ω) (k : Who) (f : Permits → Permits) : (c.onGroup k f).world = c.world := by
  unfold onGroup
  split <;> rfl

theorem onGroup_log (c : Crew ω) (k : Who) (f : Permits → Permits) : (c.onGroup k f).log = c.log := by
  unfold onGroup
  split <;> rfl

theorem onGroup_hasLoop (c : Crew ω) (k : Who) (f : Permits → Permits) : (c.onGroup k f).hasLoop = c.hasLoop := by
  unfold onGroup
  split <;> rfl

theorem onGroup_clock (c : Crew ω) (k : Who) (f : Permits → Permits) : (c.onGroup k f).clock = c.clock := by
  unfold onGroup
  split <;> rfl

theorem result?_of_found {n : Nat} {result : Except Fault Yield} (found : c.result? n = some result) :
    ∃ h, c.hand? (.job n) = some h ∧ h.station = .over result := by
  unfold result? at found
  split at found
  next h at_n =>
    split at found
    next result' station =>
      cases found
      exact ⟨h, at_n, station⟩
    next => cases found
  next => cases found

/-- What one of a crew does is noted under its name; nobody else goes anywhere, and nobody is taken back. -/
structure Follows (k : Who) (c c' : Crew ω) : Prop where
  log : ∃ new, c'.log = c.log ++ new ∧ ∀ noted ∈ new, noted.2.1 = k
  hands : ∀ j h, c.hand? j = some h → ∃ h', c'.hand? j = some h' ∧ h'.origin = h.origin ∧ h'.group = h.group ∧
    (j ≠ k → h'.station = h.station)
  newcomers : ∀ j h', c'.hand? j = some h' → (∃ h, c.hand? j = some h) ∨ h'.station = .fresh ∧ h'.origin.Fits j
  loop : c'.hasLoop = c.hasLoop

namespace Follows

theorem refl (k : Who) (c : Crew ω) : Follows k c c where
  log := ⟨[], by simp, by simp⟩
  hands := fun _ h found => ⟨h, found, rfl, rfl, fun _ => rfl⟩
  newcomers := fun _ h found => .inl ⟨h, found⟩
  loop := rfl

theorem note (k : Who) (deed : Deed) (c : Crew ω) : Follows k c (c.note k deed) where
  log := ⟨[(c.clock, k, deed)], rfl, by simp⟩
  hands := fun _ h found => ⟨h, found, rfl, rfl, fun _ => rfl⟩
  newcomers := fun _ h found => .inl ⟨h, found⟩
  loop := rfl

/-- What is behind the hands and the log does not matter. -/
theorem of_same {d : Crew ω} (follows : Follows k c c') (hands : ∀ j, d.hand? j = c'.hand? j) (log : d.log = c'.log)
    (loop : d.hasLoop = c'.hasLoop) : Follows k c d where
  log := log ▸ follows.log
  hands := fun j h found => by
    rw [hands]
    exact follows.hands j h found
  newcomers := fun j h found => follows.newcomers j h ((hands j).symm.trans found)
  loop := loop.trans follows.loop

theorem onHand (follows : Follows k c c') {f : Hand → Hand} (origin : ∀ h, (f h).origin = h.origin)
    (group : ∀ h, (f h).group = h.group) (present : ∀ h, c'.hand? k = some h → ∃ h', c.hand? k = some h') :
    Follows k c (c'.onHand k f) where
  log := follows.log
  hands := by
    intro j h found
    obtain ⟨h', found', origin', group', same⟩ := follows.hands j h found
    by_cases own : k = j
    · subst own
      exact ⟨f h', hand?_self found' f, (origin h').trans origin', (group h').trans group', fun other => absurd rfl other⟩
    · exact ⟨h', (hand?_other own f).trans found', origin', group', same⟩
  newcomers := by
    intro j h' found
    obtain ⟨rfl, old, at_k, rfl⟩ | ⟨_, old⟩ := onHand_cases found
    · exact .inl (present old at_k)
    · exact follows.newcomers j h' old
  loop := follows.loop

theorem trans {d : Crew ω} (first : Follows k c c') (second : Follows k c' d)
    (present : ∀ h, c'.hand? k = some h → ∃ h', c.hand? k = some h') : Follows k c d where
  log := by
    obtain ⟨new, log, own⟩ := first.log
    obtain ⟨new', log', own'⟩ := second.log
    refine ⟨new ++ new', by rw [log', log, List.append_assoc], fun noted inside => ?_⟩
    exact (List.mem_append.mp inside).elim (own noted) (own' noted)
  hands := by
    intro j h found
    obtain ⟨h', found', origin', group', same'⟩ := first.hands j h found
    obtain ⟨h'', found'', origin'', group'', same''⟩ := second.hands j h' found'
    exact ⟨h'', found'', origin''.trans origin', group''.trans group', fun other => (same'' other).trans (same' other)⟩
  newcomers := by
    intro j h found
    rcases second.newcomers j h found with ⟨h', found'⟩ | fresh
    · rcases first.newcomers j h' found' with old | ⟨fresh, fits⟩
      · exact .inl old
      · by_cases own : j = k
        · exact .inl (own ▸ present h' (own ▸ found'))
        · obtain ⟨h'', found'', origin, _, same⟩ := second.hands j h' found'
          cases Option.some.inj (found.symm.trans found'')
          exact .inr ⟨(same own).trans fresh, origin ▸ fits⟩
    · exact .inr fresh
  loop := second.loop.trans first.loop

theorem store (k : Who) (memory : Memory) (c : Crew ω) : Follows k c (c.store k memory) :=
  (note k _ c).of_same (fun j => by cases j <;> rfl) rfl rfl

theorem exchange (k : Who) (question : Ask) (r : Reaction ω question) (c : Crew ω) :
    Follows k c (c.exchange k question r) :=
  ((note k _ c).trans (note k _ _) fun h found => ⟨h, found⟩).of_same (fun j => by cases j <;> rfl) rfl rfl

theorem ask (k : Who) (question : Ask) (r : Reaction ω question) (next : Except Fault question.Reply → Routine Yield)
    (c : Crew ω) : Follows k c (c.ask k question r next) :=
  ((note k _ c).onHand (Hand.moved_origin _) (Hand.moved_group _) fun h found => ⟨h, found⟩).of_same (fun j => by cases j <;> rfl) rfl rfl

theorem begin (k : Who) (origin : Origin) (c : Crew ω) : Follows k c (c.begin k origin) :=
  (note k _ c).onHand (Hand.moved_origin _) (Hand.moved_group _) fun h found => ⟨h, found⟩

theorem hear (k : Who) (question : Ask) (heard : Except Fault question.Reply) (c : Crew ω) :
    Follows k c (c.hear k question heard) :=
  (note k _ c).onHand Hand.resumed_origin Hand.resumed_group fun h found => ⟨h, found⟩

theorem rest (k : Who) (await : Await) (resume : Waited → Routine Yield) (c : Crew ω) :
    Follows k c (c.rest k await resume) :=
  (refl k c).onHand (Hand.moved_origin _) (Hand.moved_group _) fun h found => ⟨h, found⟩

theorem goOn (k : Who) (c : Crew ω) : Follows k c (c.goOn k) :=
  (refl k c).onHand Hand.resumed_origin Hand.resumed_group fun h found => ⟨h, found⟩

theorem close (k : Who) (result : Except Fault Yield) (c : Crew ω) : Follows k c (c.close k result) :=
  (refl k c).onHand (Hand.closed_origin result) (Hand.closed_group result) fun h found => ⟨h, found⟩

theorem onGroup (k : Who) (f : Permits → Permits) (c : Crew ω) : Follows k c (c.onGroup k f) :=
  (refl k c).of_same (c.hand?_onGroup k f) (c.onGroup_log k f) (c.onGroup_hasLoop k f)

theorem call (k : Who) (program : Routine Yield) (c : Crew ω) : Follows k c (c.call program) where
  log := ⟨[], by simp [Crew.call], by simp⟩
  hands := fun _ h found => ⟨h, call_found found, rfl, rfl, fun _ => rfl⟩
  newcomers := by
    intro j h found
    rcases call_cases found with old | ⟨rfl, rfl⟩
    · exact .inl ⟨h, old⟩
    · exact .inr ⟨rfl, trivial⟩
  loop := rfl

theorem spawn (k : Who) (job : Job) (c : Crew ω) : Follows k c (c.spawn k job) where
  log := (note k _ c).log
  hands := fun _ h found => ⟨h, spawn_found found, rfl, rfl, fun _ => rfl⟩
  newcomers := by
    intro j h found
    rcases spawn_cases found with old | ⟨rfl, rfl⟩
    · exact .inl ⟨h, old⟩
    · exact .inr ⟨rfl, trivial⟩
  loop := rfl

theorem halt (k : Who) (numbers : List Nat) (c : Crew ω) : Follows k c (c.halt numbers) where
  log := ⟨[], by simp [Crew.halt], by simp⟩
  hands := by
    intro j h found
    obtain ⟨h', found', origin, group, station⟩ := halt_found numbers found
    exact ⟨h', found', origin, group, fun _ => station⟩
  newcomers := fun _ _ found => .inl ((halt_cases found).imp fun _ old => old.1)
  loop := rfl

theorem gather (k : Who) (permits : Permits) (jobs : List Job) (c : Crew ω) : Follows k c (c.gather permits jobs) where
  log := ⟨[], by simp [Crew.gather], by simp⟩
  hands := fun _ h found => ⟨h, gather_found found, rfl, rfl, fun _ => rfl⟩
  newcomers := by
    intro j h found
    rcases gather_cases found with old | ⟨_, _, rfl, _, rfl⟩
    · exact .inl ⟨h, old⟩
    · exact .inr ⟨rfl, trivial⟩
  loop := rfl

theorem of_grants {request : Control} {reply : Except Fault request.Reply} (granted : c.Grants k request reply c') :
    Follows k c c' := by
  cases request with
  | now | hasLoop | ended => obtain ⟨_, rfl⟩ := granted; exact refl k _
  | pause => exact granted.elim
  | spawn job | dispatch job => obtain ⟨_, rfl⟩ := granted; exact spawn k job c
  | join | shield | joinWorker => obtain ⟨_, rfl⟩ := granted; exact refl k _
  | cancel => obtain ⟨_, numbers, _, rfl⟩ := granted; exact halt k numbers c
  | gather => obtain ⟨_, _, rfl⟩ := granted; exact refl k _
  | takePermit => obtain ⟨_, _, rfl⟩ := granted; exact onGroup k _ c
  | givePermit => obtain ⟨_, rfl⟩ := granted; exact onGroup k _ c

theorem of_waits {request : Control} {await : Await} {read : Waited → Except Fault request.Reply}
    (waits : c.Waits request await read c') : Follows k c c' := by
  cases request with
  | gather permits jobs => obtain ⟨_, _, rfl⟩ := waits; exact gather k permits jobs c
  | pause | join | shield | joinWorker | takePermit => obtain ⟨_, _, rfl⟩ := waits; exact refl k _
  | _ => exact waits.elim

theorem of_wakes {await : Await} {waited : Waited} (wakes : c.Wakes k h await waited c') : Follows k c c' := by
  rcases wakes.changes with rfl | rfl
  · exact refl k _
  · exact onGroup k _ c

end Follows

/-- What has happened since somebody went to wait: others did this and that, and nobody who was over began
again. -/
structure Since (k : Who) (c c' : Crew ω) : Prop where
  log : ∃ new, c'.log = c.log ++ new ∧ ∀ noted ∈ new, noted.2.1 ≠ k
  hands : ∀ j h, c.hand? j = some h → ∃ h', c'.hand? j = some h' ∧ h'.origin = h.origin ∧ h'.group = h.group ∧
    ∀ result, h.station = .over result → h'.station = .over result
  loop : c'.hasLoop = c.hasLoop

theorem Since.refl (k : Who) (c : Crew ω) : Since k c c where
  log := ⟨[], by simp, by simp⟩
  hands := fun _ h found => ⟨h, found, rfl, rfl, fun _ ended => ended⟩
  loop := rfl

/-- Whoever does something was not over. -/
def Active (k : Who) (c : Crew ω) : Prop := ∀ h result, c.hand? k = some h → h.station ≠ .over result

theorem Since.follows {d : Crew ω} (since : Since k d c) (follows : Follows j c c') (other : j ≠ k)
    (active : c.Active j) : Since k d c' where
  log := by
    obtain ⟨new, log, others⟩ := since.log
    obtain ⟨new', log', own⟩ := follows.log
    refine ⟨new ++ new', by rw [log', log, List.append_assoc], fun noted inside => ?_⟩
    rcases List.mem_append.mp inside with old | recent
    · exact others noted old
    · exact own noted recent ▸ other
  hands := by
    intro i h found
    obtain ⟨h', found', origin', group', ended'⟩ := since.hands i h found
    obtain ⟨h'', found'', origin'', group'', same⟩ := follows.hands i h' found'
    refine ⟨h'', found'', origin''.trans origin', group''.trans group', fun result ended => ?_⟩
    have idle : i ≠ j := by
      rintro rfl
      exact active h' result found' (ended' result ended)
    exact (same idle).trans (ended' result ended)
  loop := follows.loop.trans since.loop

/-- What is granted leaves everybody where they stood. -/
theorem Grants.hands {request : Control} {reply : Except Fault request.Reply} (granted : c.Grants k request reply c') :
    (∀ j h, c.hand? j = some h → ∃ h', c'.hand? j = some h' ∧ h'.station = h.station) ∧
      ∀ j h, c'.hand? j = some h → (∃ old, c.hand? j = some old ∧ h.station = old.station) ∨ h.station = .fresh := by
  have same : (∀ j, c'.hand? j = c.hand? j) → (∀ j h, c.hand? j = some h → ∃ h', c'.hand? j = some h' ∧ h'.station = h.station) ∧
      ∀ j h, c'.hand? j = some h → (∃ old, c.hand? j = some old ∧ h.station = old.station) ∨ h.station = .fresh :=
    fun hands => ⟨fun j h found => ⟨h, (hands j).trans found, rfl⟩, fun j h found => .inl ⟨h, (hands j).symm.trans found, rfl⟩⟩
  cases request with
  | now | hasLoop | ended | join | shield | joinWorker => obtain ⟨_, rfl⟩ := granted; exact same fun _ => rfl
  | pause => exact granted.elim
  | gather => obtain ⟨_, _, rfl⟩ := granted; exact same fun _ => rfl
  | takePermit => obtain ⟨_, _, rfl⟩ := granted; exact same (c.hand?_onGroup k _)
  | givePermit => obtain ⟨_, rfl⟩ := granted; exact same (c.hand?_onGroup k _)
  | spawn job | dispatch job =>
    obtain ⟨_, rfl⟩ := granted
    refine ⟨fun j h found => ⟨h, spawn_found found, rfl⟩, fun j h found => ?_⟩
    rcases spawn_cases found with old | ⟨_, rfl⟩
    · exact .inl ⟨h, old, rfl⟩
    · exact .inr rfl
  | cancel =>
    obtain ⟨_, numbers, _, rfl⟩ := granted
    refine ⟨fun j h found => ?_, fun j h found => ?_⟩
    · obtain ⟨h', found', _, _, station⟩ := halt_found numbers found
      exact ⟨h', found', station⟩
    · obtain ⟨old, there, _, station⟩ := halt_same found
      exact .inl ⟨old, there, station⟩

end Crew

/-- Whoever is on turn is the one who is running. -/
structure Shift.Proper (a : Shift ω) : Prop where
  runs : ∀ k p, a.turn = some (k, p) → ∃ h, a.crew.hand? k = some h ∧ h.station = .running
  alone : ∀ k h, a.crew.hand? k = some h → h.station = .running → ∃ p, a.turn = some (k, p)

namespace Shift.Proper

variable {c c' : Crew ω} {k : Who} {p : Routine Yield}

/-- Whoever is on turn is not over. -/
theorem active (proper : Proper ⟨c, some (k, p)⟩) : c.Active k := by
  intro h result found ended
  obtain ⟨h', found', runs⟩ := proper.runs k p rfl
  cases Option.some.inj (found.symm.trans found')
  rw [ended] at runs
  cases runs

/-- A turn goes on as long as nobody else is made to run. -/
theorem goesOn (proper : Proper ⟨c, some (k, p)⟩) (q : Routine Yield)
    (kept : ∀ h, c.hand? k = some h → ∃ h', c'.hand? k = some h' ∧ h'.station = h.station)
    (others : ∀ j h', c'.hand? j = some h' → h'.station = .running → ∃ h, c.hand? j = some h ∧ h.station = .running) :
    Proper ⟨c', some (k, q)⟩ where
  runs := by
    rintro _ _ ⟨⟩
    obtain ⟨h, found, runs⟩ := proper.runs k p rfl
    obtain ⟨h', found', same⟩ := kept h found
    exact ⟨h', found', same.trans runs⟩
  alone := by
    intro j h' found' runs'
    obtain ⟨h, found, runs⟩ := others j h' found' runs'
    obtain ⟨_, ⟨⟩⟩ := proper.alone j h found runs
    exact ⟨q, rfl⟩

/-- The hands are as they were. -/
theorem same (proper : Proper ⟨c, some (k, p)⟩) (q : Routine Yield) (hands : ∀ j, c'.hand? j = c.hand? j) :
    Proper ⟨c', some (k, q)⟩ :=
  proper.goesOn q (fun h found => ⟨h, (hands k).trans found, rfl⟩)
    fun j h found runs => ⟨h, (hands j).symm.trans found, runs⟩

theorem ends (proper : Proper ⟨c, some (k, p)⟩) {f : Hand → Hand} (hands : ∀ j, c'.hand? j = (c.onHand k f).hand? j)
    (rests : ∀ h, (f h).station ≠ .running) : Proper ⟨c', none⟩ where
  runs := nofun
  alone := by
    intro j h found runs
    rw [hands] at found
    obtain ⟨_, old, _, rfl⟩ | ⟨other, old⟩ := Crew.onHand_cases found
    · exact absurd runs (rests old)
    · obtain ⟨_, same⟩ := proper.alone j h old runs
      cases same
      exact absurd rfl other

theorem begins {h : Hand} (proper : Proper ⟨c, none⟩) (found : c.hand? k = some h) (q : Routine Yield) {f : Hand → Hand}
    (hands : ∀ j, c'.hand? j = (c.onHand k f).hand? j) (runs : ∀ h, (f h).station = .running) :
    Proper ⟨c', some (k, q)⟩ where
  runs := by
    rintro _ _ ⟨⟩
    exact ⟨f h, (hands k).trans (Crew.hand?_self found f), runs h⟩
  alone := by
    intro j h' found' runs'
    rw [hands] at found'
    obtain ⟨rfl, _⟩ | ⟨_, old⟩ := Crew.onHand_cases found'
    · exact ⟨q, rfl⟩
    · obtain ⟨_, ⟨⟩⟩ := proper.alone j h' old runs'

theorem closed_station (result : Except Fault Yield) (h : Hand) : (h.closed result).station ≠ .running := by
  cases result with
  | ok => cases again : h.origin.repeats <;> simp [Hand.closed, again]
  | error => simp [Hand.closed]

theorem of_grants (proper : Proper ⟨c, some (k, p)⟩) {request : Control} {reply : Except Fault request.Reply}
    (granted : c.Grants k request reply c') (q : Routine Yield) : Proper ⟨c', some (k, q)⟩ := by
  refine proper.goesOn q (granted.hands.1 k) fun j h found runs => ?_
  rcases granted.hands.2 j h found with ⟨old, there, same⟩ | fresh
  · exact ⟨old, there, same.symm.trans runs⟩
  · cases fresh.symm.trans runs

end Shift.Proper

theorem Crew.Waits.hands {c c' : Crew ω} {request : Control} {await : Await}
    {read : Waited → Except Fault request.Reply} (waits : c.Waits request await read c') :
    (∀ j h, c.hand? j = some h → c'.hand? j = some h) ∧
      ∀ j h, c'.hand? j = some h → c.hand? j = some h ∨ h.station = .fresh := by
  cases request with
  | gather permits jobs =>
    obtain ⟨_, _, rfl⟩ := waits
    refine ⟨fun _ _ => gather_found, fun j h found => ?_⟩
    rcases gather_cases found with old | ⟨_, _, _, _, rfl⟩
    · exact .inl old
    · exact .inr rfl
  | pause | join | shield | joinWorker | takePermit =>
    obtain ⟨_, _, rfl⟩ := waits
    exact ⟨fun _ _ found => found, fun _ _ => .inl⟩
  | _ => exact waits.elim

theorem Crew.Wakes.hands {c c' : Crew ω} {k : Who} {h : Hand} {await : Await} {waited : Waited}
    (wakes : c.Wakes k h await waited c') (j : Who) : c'.hand? j = c.hand? j := by
  rcases wakes.changes with rfl | rfl
  · rfl
  · exact c.hand?_onGroup k _ j

theorem Shift.Step.proper {w : World ω} {callers : Routine Yield → Prop} {a b : Shift ω} (step : Shift.Step w callers a b)
    (proper : a.Proper) : b.Proper := by
  cases step with
  | look => exact proper.same _ fun _ => rfl
  | store => exact proper.same _ fun j => by cases j <;> rfl
  | exchange => exact proper.same _ fun j => by cases j <;> rfl
  | @ask c k question next =>
    refine proper.ends (f := Hand.moved (.asking question (w.answer question c.clock c.world).reply
      (c.clock + (w.answer question c.clock c.world).delay) next)) (fun j => ?_) fun _ => nofun
    cases j <;> rfl
  | grant granted => exact proper.of_grants granted _
  | @wait c k request next await read c' waits =>
    obtain ⟨kept, from_⟩ := waits.hands
    have still : Shift.Proper ⟨c', some (k, .control request next)⟩ :=
      proper.goesOn _ (fun h found => ⟨h, kept k h found, rfl⟩) fun j h found runs => by
        rcases from_ j h found with old | fresh
        · exact ⟨h, old, runs⟩
        · rw [fresh] at runs
          cases runs
    exact still.ends (f := Hand.moved _) (fun _ => rfl) fun _ => nofun
  | @close c k result => exact proper.ends (fun _ => rfl) (Shift.Proper.closed_station result)
  | begin found => exact proper.begins found _ (f := Hand.moved .running) (fun j => by cases j <;> rfl) fun _ => rfl
  | @drop c k h found fresh =>
    refine ⟨nofun, fun j h' found' runs => ?_⟩
    obtain ⟨_, old, _, rfl⟩ | ⟨_, old⟩ := Crew.onHand_cases found'
    · exact absurd runs (Shift.Proper.closed_station _ old)
    · exact proper.alone j h' old runs
  | hear found => exact proper.begins found _ (f := Hand.resumed) (fun j => by cases j <;> rfl) fun _ => rfl
  | @resume c k h await resume waited c' found waiting wakes =>
    refine proper.begins found _ (f := Hand.resumed) (fun j => ?_) fun _ => rfl
    rw [Crew.goOn, Crew.hand?_onHand, Crew.hand?_onHand, wakes.hands]
  | @call c program =>
    refine ⟨nofun, fun j h found runs => ?_⟩
    rcases Crew.call_cases found with old | ⟨_, rfl⟩
    · exact proper.alone j h old runs
    · cases runs
  | pass => exact ⟨nofun, proper.alone⟩

theorem Shift.Reach.proper {w : World ω} {callers : Routine Yield → Prop} {memory : Memory} {world : ω} {hasLoop : Bool}
    {a : Shift ω} (reach : Shift.Reach w callers memory world hasLoop a) : a.Proper := by
  induction reach with
  | start => exact ⟨nofun, fun k h found => by cases k <;> simp [Crew.hand?, Crew.start] at found⟩
  | next _ step ih => exact step.proper ih

end CodeAtlas
