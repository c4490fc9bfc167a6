import CodeAtlas.Proofs.Crew.Remit
import CodeAtlas.Proofs.Ingestion.Owner

namespace CodeAtlas

/-- A point in time, with the memory as it is then. -/
structure Moment where
  time : Float
  memory : Memory

/-- What one has done, and when. -/
abbrev Diary := List (Float × Deed)

/-- How a request comes out that is made at a moment: with what reply, what is noted for it, and when one goes on. Only
one who may be cut short hears of a cancellation during a pause. -/
def Control.Goes (cut : Prop) (s : Moment) : (request : Control) → Except Fault request.Reply → Diary → Moment → Prop
  | .now, reply, noted, later => reply = .ok s.time ∧ noted = [] ∧ later = s
  | .spawn job, reply, noted, later => ∃ n, reply = .ok n ∧ noted = [(s.time, .starts job n)] ∧ later = s
  | .dispatch job, reply, noted, later => ∃ n, reply = .ok n ∧ noted = [(s.time, .starts job n)] ∧ later = s
  | .pause seconds, reply, noted, later => noted = [] ∧ ((cut ∧ reply = .error .cancelled) ∨
    (reply = .ok () ∧ later.time = if seconds ≤ 0 then s.time else s.time + seconds))
  | .join _, _, noted, _ | .shield _, _, noted, _ | .joinWorker _, _, noted, _ | .takePermit, _, noted, _
  | .gather .., _, noted, _ => noted = []
  | _, _, noted, later => noted = [] ∧ later = s

/-- From a point of a routine to another one, with what is done between them. While one waits the memory may come to be
anything; an answer is the world's, or one is cut short. -/
inductive Routine.Path {ω α : Type} (w : World ω) (cut : Prop) : Routine α → Moment → Diary → Routine α → Moment → Prop
  | refl {p s} : Path w cut p s [] p s
  | look {next s log q s'} : Path w cut (next s.memory) s log q s' → Path w cut (.look next) s log q s'
  | store {memory next s log q s'} : Path w cut next ⟨s.time, memory⟩ log q s' →
      Path w cut (.store memory next) s ((s.time, .stores s.memory memory) :: log) q s'
  | ask {question next s reply later log q s'} :
      ((∃ world, reply = (w.answer question s.time world).reply) ∨ (cut ∧ reply = .error .cancelled)) →
      Path w cut (next reply) later log q s' →
      Path w cut (.ask question next) s ((s.time, .asks question) :: (later.time, .hears question reply) :: log) q s'
  | control {request next s reply noted later log q s'} : request.Goes cut s reply noted later →
      Path w cut (next reply) later log q s' → Path w cut (.control request next) s (noted ++ log) q s'

namespace Routine

variable {ω α β : Type} {w : World ω} {cut : Prop} {s s' s'' : Moment} {log log' : Diary}

theorem Path.trans {p q r : Routine α} (first : p.Path w cut s log q s') (second : q.Path w cut s' log' r s'') :
    p.Path w cut s (log ++ log') r s'' := by
  induction first with
  | refl => exact second
  | look _ ih => exact .look (ih second)
  | store _ ih => exact .store (ih second)
  | ask answered _ ih => exact .ask answered (ih second)
  | control goes _ ih =>
    rw [List.append_assoc]
    exact .control goes (ih second)

/-- One who does two things in a row is still at the first, or has come to an end of it. -/
theorem Path.andThen_cases {p : Routine α} {f : Except Fault α → Routine β} {q : Routine β}
    (path : (p.andThen f).Path w cut s log q s') : (∃ q', p.Path w cut s log q' s' ∧ q = q'.andThen f) ∨
      ∃ r middle before after, log = before ++ after ∧ p.Path w cut s before (.done r) middle ∧ (f r).Path w cut middle after q s' := by
  induction p generalizing s log with
  | done r => exact .inr ⟨r, s, [], log, rfl, .refl, path⟩
  | look next ih =>
    cases path with
    | refl => exact .inl ⟨_, .refl, rfl⟩
    | look path =>
      obtain ⟨q', first, rfl⟩ | ⟨r, middle, before, after, rfl, first, second⟩ := ih _ path
      · exact .inl ⟨q', .look first, rfl⟩
      · exact .inr ⟨r, middle, before, after, rfl, .look first, second⟩
  | store memory next ih =>
    cases path with
    | refl => exact .inl ⟨_, .refl, rfl⟩
    | store path =>
      obtain ⟨q', first, rfl⟩ | ⟨r, middle, before, after, rfl, first, second⟩ := ih path
      · exact .inl ⟨q', .store first, rfl⟩
      · exact .inr ⟨r, middle, _ :: before, after, rfl, .store first, second⟩
  | ask question next ih =>
    cases path with
    | refl => exact .inl ⟨_, .refl, rfl⟩
    | ask answered path =>
      obtain ⟨q', first, rfl⟩ | ⟨r, middle, before, after, rfl, first, second⟩ := ih _ path
      · exact .inl ⟨q', .ask answered first, rfl⟩
      · exact .inr ⟨r, middle, _ :: _ :: before, after, rfl, .ask answered first, second⟩
  | control request next ih =>
    cases path with
    | refl => exact .inl ⟨_, .refl, rfl⟩
    | control goes path =>
      obtain ⟨q', first, rfl⟩ | ⟨r, middle, before, after, rfl, first, second⟩ := ih _ path
      · exact .inl ⟨q', .control goes first, rfl⟩
      · exact .inr ⟨r, middle, _ ++ before, after, (List.append_assoc ..).symm, .control goes first, second⟩

/-- What is at its end goes no further. -/
theorem Path.of_done {result : Except Fault α} {q : Routine α} (path : (Routine.done result).Path w cut s log q s') :
    q = .done result ∧ log = [] ∧ s' = s := by
  cases path
  exact ⟨rfl, rfl, rfl⟩

/-- One who has come to an end of two things in a row has come to an end of the first. -/
theorem Path.andThen_done {p : Routine α} {f : Except Fault α → Routine β} {result : Except Fault β}
    (path : (p.andThen f).Path w cut s log (.done result) s') : ∃ r middle before after, log = before ++ after ∧
      p.Path w cut s before (.done r) middle ∧ (f r).Path w cut middle after (.done result) s' := by
  rcases path.andThen_cases with ⟨q', first, same⟩ | whole
  · cases q' with
    | done r => exact ⟨r, s', log, [], (List.append_nil log).symm, first, same ▸ .refl⟩
    | _ => cases same
  · exact whole

/-- What comes to a value has come to one before. -/
theorem Path.bind_ok {p : Routine α} {f : α → Routine β} {b : β} (path : (p >>= f).Path w cut s log (.done (.ok b)) s') :
    ∃ a middle before after, log = before ++ after ∧ p.Path w cut s before (.done (.ok a)) middle ∧
      (f a).Path w cut middle after (.done (.ok b)) s' := by
  obtain ⟨result, middle, before, after, rfl, first, second⟩ := Path.andThen_done path
  cases result with
  | ok a => exact ⟨a, middle, before, after, rfl, first, second⟩
  | error => cases second.of_done.1

/-- What is stored on the way is within the remit. -/
theorem Minds.path {p q : Routine α} {r : Remit} (minds : p.Minds r) (finds : ∀ m, r.finds m)
    (path : p.Path w cut s log q s') : ∀ noted ∈ log, ∀ before after, noted.2 = .stores before after → r.writes before after := by
  have stays : p.StaysIn r s.memory := minds s.memory (finds _)
  clear minds
  induction path with
  | refl => exact fun _ inside => absurd inside List.not_mem_nil
  | look _ ih => exact ih stays
  | store _ ih =>
    rintro noted (_ | ⟨_, inside⟩) before after same
    · cases same
      exact stays.1
    · exact ih stays.2 noted inside before after same
  | ask _ _ ih =>
    rintro noted (_ | ⟨_, _ | ⟨_, inside⟩⟩) before after same
    · cases same
    · cases same
    · exact ih (stays.2 _ _ (finds _)) noted inside before after same
  | @control request next s reply new later log q s' goes _ ih =>
    intro noted inside before after same
    rcases List.mem_append.mp inside with own | later
    · have none_stored : ∀ noted ∈ new, ∀ before after, noted.2 ≠ .stores before after := by
        intro noted inside before after
        cases request with
        | spawn | dispatch =>
          obtain ⟨n, _, rfl, _⟩ := goes
          cases List.mem_singleton.mp inside
          exact nofun
        | now => rw [goes.2.1] at inside; cases inside
        | join | shield | joinWorker | takePermit | gather => rw [show new = [] from goes] at inside; cases inside
        | pause | hasLoop | ended | cancel | givePermit => rw [goes.1] at inside; cases inside
      exact absurd same (none_stored noted own before after)
    · exact ih (stays.2 _ _ (finds _)) noted later before after same

end Routine

/-- Whole rounds of a routine that repeats, one after the other. -/
inductive Origin.Rounds {ω : Type} (w : World ω) (cut : Prop) (origin : Origin) : Diary → Prop
  | none : Rounds w cut origin []
  | round {past s log last s'} : origin.repeats = true → Rounds w cut origin past →
      origin.routine.Path w cut s log (.done (.ok last)) s' → Rounds w cut origin (past ++ (s.time, .begins origin) :: log)

namespace Crew

variable {ω : Type} {w : World ω} {cut : Prop} {m : Memory} {c c' : Crew ω} {k : Who} {origin : Origin}

def diary (c : Crew ω) (k : Who) : Diary :=
  c.log.filterMap fun noted => if noted.2.1 = k then some (noted.1, noted.2.2) else none

theorem mem_diary {time : Float} {deed : Deed} : (time, deed) ∈ c.diary k ↔ (time, k, deed) ∈ c.log := by
  simp only [diary, List.mem_filterMap, Option.ite_none_right_eq_some, Option.some.injEq, Prod.mk.injEq]
  constructor
  · rintro ⟨⟨_, _, _⟩, inside, rfl, rfl, rfl⟩
    exact inside
  · exact fun inside => ⟨_, inside, rfl, rfl, rfl⟩

/-- What somebody writes down. -/
def pages (k : Who) (new : Diary) : List Noted := new.map fun entry => (entry.1, k, entry.2)

theorem diary_own {new : Diary} (log : c'.log = c.log ++ pages k new) : c'.diary k = c.diary k ++ new := by
  have own : (pages k new).filterMap (fun noted => if noted.2.1 = k then some (noted.1, noted.2.2) else none) = new := by
    simp [pages, List.filterMap_map, Function.comp_def]
  rw [diary, log, List.filterMap_append, own]
  rfl

theorem diary_other {j : Who} {new : List Noted} (log : c'.log = c.log ++ new) (others : ∀ noted ∈ new, noted.2.1 ≠ j) :
    c'.diary j = c.diary j := by
  have nothing : new.filterMap (fun noted => if noted.2.1 = j then some (noted.1, noted.2.2) else none) = [] :=
    List.filterMap_eq_nil_iff.mpr fun noted inside => if_neg (others noted inside)
  rw [diary, log, List.filterMap_append, nothing, List.append_nil]
  rfl

/-- Somebody has begun, with the memory that the log tells, and has come to a point of the routine; some of what was
done last belongs to what comes next. -/
def Reaches (w : World ω) (cut : Prop) (m : Memory) (c : Crew ω) (k : Who) (origin : Origin) (past pending : Diary)
    (q : Routine Yield) (s' : Moment) : Prop :=
  ∃ earlier later s log, c.log = earlier ++ (s.time, k, .begins origin) :: later ∧ s.memory = Log.memoryFrom m earlier ∧
    c.diary k = past ++ (s.time, .begins origin) :: (log ++ pending) ∧ origin.routine.Path w cut s log q s'

variable {past pending pending' : Diary} {q q' : Routine Yield} {s' s'' : Moment}

theorem Reaches.grown (reaches : c.Reaches w cut m k origin past pending q s') {new : List Noted} (log : c'.log = c.log ++ new)
    (others : ∀ noted ∈ new, noted.2.1 ≠ k) : c'.Reaches w cut m k origin past pending q s' := by
  obtain ⟨earlier, later, s, own, whole, memory, diary, path⟩ := reaches
  refine ⟨earlier, later ++ new, s, own, ?_, memory, (diary_other log others).trans diary, path⟩
  rw [log, whole, List.append_assoc, List.cons_append]

theorem Reaches.goesOn (reaches : c.Reaches w cut m k origin past pending q s') {new more : Diary}
    (log : c'.log = c.log ++ pages k new) (path : q.Path w cut s' more q' s'') (same : pending ++ new = more ++ pending') :
    c'.Reaches w cut m k origin past pending' q' s'' := by
  obtain ⟨earlier, later, s, own, whole, memory, diary, path'⟩ := reaches
  refine ⟨earlier, later ++ pages k new, s, own ++ more, ?_, memory, ?_, path'.trans path⟩
  · rw [log, whole, List.append_assoc, List.cons_append]
  · rw [diary_own log, diary]
    simp only [List.append_assoc, List.cons_append, same]

/-- One who begins has done nothing yet. -/
theorem Recalls.reaches (recalls : c.Recalls m) (diary : c.diary k = past) :
    (c.begin k origin).Reaches w cut m k origin past [] origin.routine ⟨c.clock, c.memory⟩ := by
  refine ⟨c.log, [], ⟨c.clock, c.memory⟩, [], rfl, recalls.memory, ?_, .refl⟩
  have own : (c.begin k origin).diary k = c.diary k ++ [(c.clock, .begins origin)] := diary_own rfl
  rw [own, diary]
  rfl

end Crew

/-- Where somebody stands is a point of the routine, and was come to in whole rounds and a part of one. -/
def Hand.Wrote {ω : Type} (w : World ω) (cut : Prop) (m : Memory) (k : Who) (h : Hand) (a : Shift ω) : Prop :=
  ∃ past, h.origin.Rounds w cut past ∧ match h.station with
    | .fresh => a.crew.diary k = past
    | .running => ∀ q, a.turn = some (k, q) →
      a.crew.Reaches w cut m k h.origin past [] q ⟨a.crew.clock, a.crew.memory⟩
    | .asking question reply _ next => ∃ s', (∃ world, reply = (w.answer question s'.time world).reply) ∧
      a.crew.Reaches w cut m k h.origin past [(s'.time, .asks question)] (.ask question next) s'
    | .waiting await resume => ∃ s' request next, ∃ read : Waited → Except Fault request.Reply,
      resume = (fun waited => next (read waited)) ∧ (cut → ∀ later, request.Goes cut s' (read (.error .cancelled)) [] later) ∧
      (∀ (d : Crew ω) waited d', d.News k await waited d' → request.Goes cut s' (read waited) [] ⟨d.clock, d.memory⟩) ∧
      a.crew.Reaches w cut m k h.origin past [] (.control request next) s'
    | .over result => (cut ∧ result = .error .cancelled ∧ a.crew.diary k = past) ∨
      ∃ s', a.crew.Reaches w cut m k h.origin past [] (.done result) s'

/-- What somebody has written down, at all times. -/
structure Shift.Written {ω : Type} (w : World ω) (cut : Who → Prop) (m : Memory) (a : Shift ω) : Prop where
  recalls : a.crew.Recalls m
  hands : ∀ k h, a.crew.hand? k = some h → h.Wrote w (cut k) m k a
  absent : ∀ k, a.crew.hand? k = none → a.crew.diary k = []

section Steps

open Crew

variable {ω : Type} {w : World ω} {cut : Who → Prop} {m : Memory} {a b : Shift ω} {c c' : Crew ω} {j k : Who}
  {h h' : Hand}

/-- What somebody else does is no part of one's diary. -/
theorem Hand.Wrote.other (wrote : h.Wrote w (cut j) m j a) {new : List Noted} (log : b.crew.log = a.crew.log ++ new)
    (others : ∀ noted ∈ new, noted.2.1 ≠ j) (origin : h'.origin = h.origin) (station : h'.station = h.station)
    (turn : ∀ q, b.turn ≠ some (j, q)) :
    h'.Wrote w (cut j) m j b := by
  have diary := diary_other log others
  unfold Hand.Wrote at wrote ⊢
  rw [origin, station]
  obtain ⟨past, rounds, stands⟩ := wrote
  refine ⟨past, rounds, ?_⟩
  cases at_station : h.station with
  | fresh =>
    simp only [at_station] at stands
    exact diary.trans stands
  | running => exact fun q on => absurd on (turn q)
  | asking question reply due next =>
    simp only [at_station] at stands
    obtain ⟨s', answered, reaches⟩ := stands
    exact ⟨s', answered, reaches.grown log others⟩
  | waiting await resume =>
    simp only [at_station] at stands
    obtain ⟨s', request, next, read, same, cuts, news, reaches⟩ := stands
    exact ⟨s', request, next, read, same, cuts, news, reaches.grown log others⟩
  | _ result =>
    simp only [at_station] at stands
    rcases stands with ⟨may, cancelled, same⟩ | ⟨s', reaches⟩
    · exact .inl ⟨may, cancelled, diary.trans same⟩
    · exact .inr ⟨s', reaches.grown log others⟩

/-- One somebody has done something, and the others have not. -/
theorem Shift.Written.after (written : a.Written w cut m) (recalls : b.crew.Recalls m)
    (follows : Follows k a.crew b.crew) (turn : ∀ j q, b.turn = some (j, q) → j = k) (own : ∃ h, b.crew.hand? k = some h ∧ h.Wrote w (cut k) m k b) : b.Written w cut m := by
  obtain ⟨new, log, mine⟩ := follows.log
  have others : ∀ {j}, j ≠ k → ∀ noted ∈ new, noted.2.1 ≠ j := fun other noted inside same => other (same.symm.trans (mine noted inside))
  have idle : ∀ {j}, j ≠ k → ∀ q, b.turn ≠ some (j, q) := fun other q on => other (turn _ q on)
  refine ⟨recalls, fun j h found => ?_, fun j missing => ?_⟩
  · by_cases self : j = k
    · obtain ⟨h', found', wrote⟩ := own
      subst self
      cases Option.some.inj (found.symm.trans found')
      exact wrote
    · cases before : a.crew.hand? j with
      | some old =>
        obtain ⟨h', found', origin, _, station⟩ := follows.hands j old before
        cases Option.some.inj (found.symm.trans found')
        exact (written.hands j old before).other log (others self) origin (station self) (idle self)
      | none =>
        rcases follows.newcomers j h found with ⟨_, there⟩ | ⟨fresh, _⟩
        · cases before.symm.trans there
        · have nothing := (diary_other log (others self)).trans (written.absent j before)
          refine ⟨[], .none, ?_⟩
          simp only [fresh]
          exact nothing
  · have other : j ≠ k := by
      rintro rfl
      obtain ⟨h', found', _⟩ := own
      cases missing.symm.trans found'
    cases before : a.crew.hand? j with
    | some old =>
      obtain ⟨h', found', _⟩ := follows.hands j old before
      cases missing.symm.trans found'
    | none => exact (diary_other log (others other)).trans (written.absent j before)

/-- Where whoever is on turn stands. -/
theorem Shift.Written.turn {p : Routine Yield} (written : Shift.Written w cut m ⟨c, some (k, p)⟩)
    (proper : Shift.Proper ⟨c, some (k, p)⟩) : ∃ h past, c.hand? k = some h ∧ h.station = .running ∧
      h.origin.Rounds w (cut k) past ∧ c.Reaches w (cut k) m k h.origin past [] p ⟨c.clock, c.memory⟩ := by
  obtain ⟨h, found, runs⟩ := proper.runs k p rfl
  obtain ⟨past, rounds, stands⟩ := written.hands k h found
  simp only [runs] at stands
  exact ⟨h, past, found, runs, rounds, stands p rfl⟩

/-- A turn goes on. -/
theorem Shift.Written.goesOn {p q : Routine Yield} {new : Diary} (written : Shift.Written w cut m ⟨c, some (k, p)⟩)
    (proper : Shift.Proper ⟨c, some (k, p)⟩) (proper' : Shift.Proper ⟨c', some (k, q)⟩) (recalls : c'.Recalls m)
    (follows : Follows k c c') (log : c'.log = c.log ++ pages k new)
    (path : p.Path w (cut k) ⟨c.clock, c.memory⟩ new q ⟨c'.clock, c'.memory⟩) : Shift.Written w cut m ⟨c', some (k, q)⟩ := by
  obtain ⟨h, past, found, running, rounds, reaches⟩ := written.turn proper
  obtain ⟨h', found', running'⟩ := proper'.runs k q rfl
  obtain ⟨h'', found'', origin, _⟩ := follows.hands k h found
  cases Option.some.inj (found'.symm.trans found'')
  refine written.after recalls follows (by rintro _ _ ⟨⟩; rfl) ⟨h', found', past, origin ▸ rounds, ?_⟩
  simp only [running']
  rintro _ ⟨⟩
  rw [origin]
  exact reaches.goesOn log path (List.append_nil new).symm

/-- A request that is granted at once. -/
theorem Crew.Grants.goes {request : Control} {reply : Except Fault request.Reply}
    (granted : c.Grants k request reply c') (cut : Prop) :
    ∃ noted, request.Goes cut ⟨c.clock, c.memory⟩ reply noted ⟨c'.clock, c'.memory⟩ ∧ c'.log = c.log ++ pages k noted := by
  have nothing : c.log = c.log ++ pages k [] := (List.append_nil _).symm
  cases request with
  | now => obtain ⟨rfl, rfl⟩ := granted; exact ⟨[], ⟨rfl, rfl, rfl⟩, nothing⟩
  | spawn job | dispatch job => obtain ⟨rfl, rfl⟩ := granted; exact ⟨_, ⟨_, rfl, rfl, rfl⟩, rfl⟩
  | pause => exact granted.elim
  | hasLoop | ended => obtain ⟨rfl, rfl⟩ := granted; exact ⟨[], ⟨rfl, rfl⟩, nothing⟩
  | join | shield | joinWorker => obtain ⟨_, rfl⟩ := granted; exact ⟨[], rfl, nothing⟩
  | cancel => obtain ⟨_, _, _, rfl⟩ := granted; exact ⟨[], ⟨rfl, rfl⟩, nothing⟩
  | gather => obtain ⟨_, _, rfl⟩ := granted; exact ⟨[], rfl, nothing⟩
  | takePermit => obtain ⟨_, _, rfl⟩ := granted; exact ⟨[], rfl, (c.onGroup_log k _).trans nothing⟩
  | givePermit =>
    obtain ⟨_, rfl⟩ := granted
    refine ⟨[], ⟨rfl, ?_⟩, (c.onGroup_log k _).trans nothing⟩
    rw [onGroup_clock, onGroup_memory]

/-- A request that is put off, whatever news comes of it. -/
theorem Crew.Waits.goes {request : Control} {await : Await} {read : Waited → Except Fault request.Reply}
    (waits : c.Waits request await read c') (cut : Prop) :
    (cut → ∀ later, request.Goes cut ⟨c.clock, c.memory⟩ (read (.error .cancelled)) [] later) ∧
      ∀ (d : Crew ω) waited d', d.News k await waited d' →
        request.Goes cut ⟨c.clock, c.memory⟩ (read waited) [] ⟨d.clock, d.memory⟩ := by
  cases request with
  | pause seconds =>
    obtain ⟨rfl, rfl, _⟩ := waits
    refine ⟨fun may _ => ⟨rfl, .inl ⟨may, rfl⟩⟩, ?_⟩
    rintro d _ d' ⟨due, rfl, _⟩
    exact ⟨rfl, .inr ⟨rfl, due⟩⟩
  | gather | join | shield | joinWorker | takePermit => exact ⟨fun _ _ => rfl, fun _ _ _ _ => rfl⟩
  | _ => exact waits.elim

theorem Crew.Wakes.clock {await : Await} {waited : Waited} (wakes : c.Wakes k h await waited c') : c'.clock = c.clock := by
  rcases wakes.changes with rfl | rfl
  · rfl
  · exact c.onGroup_clock k _

/-- The log stays as it is, with nothing written down by somebody. -/
theorem Crew.log_same {log log' : List Noted} (same : log' = log) (k : Who) : log' = log ++ pages k [] :=
  same.trans (List.append_nil _).symm

/-- Whoever has to wait for an answer stands at the question. -/
theorem Shift.Written.asks {question : Ask} {next : Except Fault question.Reply → Routine Yield}
    (written : Shift.Written w cut m ⟨c, some (k, .ask question next)⟩) (proper : Shift.Proper ⟨c, some (k, .ask question next)⟩)
    (recalls : (c.ask k question (c.reaction w question) next).Recalls m) :
    Shift.Written w cut m ⟨c.ask k question (c.reaction w question) next, none⟩ := by
  obtain ⟨h, past, found, _, rounds, reaches⟩ := written.turn proper
  refine written.after recalls (.ask k question _ next c) (by rintro _ _ ⟨⟩)
    ⟨_, hand?_self (c := { c.note k _ with world := _ }) (by cases k <;> exact found) _, past, rounds, ?_⟩
  have log : (c.ask k question (c.reaction w question) next).log = c.log ++ pages k [(c.clock, .asks question)] := rfl
  exact ⟨⟨c.clock, c.memory⟩, ⟨c.world, rfl⟩, reaches.goesOn log .refl rfl⟩

/-- Whoever is put off stands at the request. -/
theorem Shift.Written.waits {request : Control} {next : Except Fault request.Reply → Routine Yield} {await : Await}
    {read : Waited → Except Fault request.Reply} (written : Shift.Written w cut m ⟨c, some (k, .control request next)⟩)
    (proper : Shift.Proper ⟨c, some (k, .control request next)⟩) (waits : c.Waits request await read c')
    (recalls : (c'.rest k await fun waited => next (read waited)).Recalls m) :
    Shift.Written w cut m ⟨c'.rest k await fun waited => next (read waited), none⟩ := by
  obtain ⟨h, past, found, _, rounds, reaches⟩ := written.turn proper
  have found' := waits.hands.1 k h found
  have follows : Follows k c (c'.rest k await fun waited => next (read waited)) :=
    (Follows.of_waits waits).trans (.rest k _ _ c') fun _ _ => ⟨h, found⟩
  refine written.after recalls follows (by rintro _ _ ⟨⟩) ⟨_, hand?_self found' _, past, rounds, ?_⟩
  have goes := waits.goes (k := k) (cut k)
  exact ⟨⟨c.clock, c.memory⟩, request, next, read, rfl, goes.1, goes.2,
    reaches.goesOn (log_same waits.noted.2 k) .refl rfl⟩

/-- Whoever comes to an end stays there, or has made one more round. -/
theorem Shift.Written.closes {result : Except Fault Yield} (written : Shift.Written w cut m ⟨c, some (k, .done result)⟩)
    (proper : Shift.Proper ⟨c, some (k, .done result)⟩) (recalls : (c.close k result).Recalls m) :
    Shift.Written w cut m ⟨c.close k result, none⟩ := by
  obtain ⟨h, past, found, _, rounds, reaches⟩ := written.turn proper
  refine written.after recalls (.close k result c) (by rintro _ _ ⟨⟩) ⟨_, hand?_self found _, ?_⟩
  have isOver : (h.closed result).station = .over result → (h.closed result).Wrote w (cut k) m k ⟨c.close k result, none⟩ := by
    intro stands
    refine ⟨past, (h.closed_origin result).symm ▸ rounds, ?_⟩
    simp only [stands, h.closed_origin]
    exact .inr ⟨_, reaches.goesOn (log_same rfl k) .refl rfl⟩
  cases result with
  | error fault => exact isOver rfl
  | ok last =>
    cases again : h.origin.repeats with
    | false => exact isOver (by simp [Hand.closed, again])
    | true =>
      obtain ⟨earlier, later, s, log, _, _, diary, path⟩ := reaches
      rw [List.append_nil] at diary
      refine ⟨_, .round again rounds path, ?_⟩
      simp only [Hand.closed, again, if_true, Hand.moved_station]
      exact diary

/-- Whoever hears an answer goes on after the question, with a cancellation if stopped. -/
theorem Shift.Written.hears {question : Ask} {reply : Except Fault question.Reply} {due : Float}
    {next : Except Fault question.Reply → Routine Yield} (written : Shift.Written w cut m ⟨c, none⟩) (found : c.hand? k = some h)
    (asking : h.station = .asking question reply due next) (spared : h.stopped = true → cut k)
    (recalls : (c.hear k question (h.heard reply)).Recalls m) :
    Shift.Written w cut m ⟨c.hear k question (h.heard reply), some (k, next (h.heard reply))⟩ := by
  obtain ⟨past, rounds, stands⟩ := written.hands k h found
  simp only [asking] at stands
  obtain ⟨s', answered, reaches⟩ := stands
  refine written.after recalls (.hear k question _ c) (by rintro _ _ ⟨⟩; rfl)
    ⟨_, hand?_self (h := h) (by cases k <;> exact found) _, past, rounds, ?_⟩
  rintro _ ⟨⟩
  have log : (c.hear k question (h.heard reply)).log = c.log ++ pages k [(c.clock, .hears question (h.heard reply))] := rfl
  refine reaches.goesOn log (.ask ?_ .refl) rfl
  unfold Hand.heard
  split
  next stopped => exact .inr ⟨spared stopped, rfl⟩
  next => exact .inl answered

/-- Whoever has waited goes on after the request. -/
theorem Shift.Written.resumes {await : Await} {resume : Waited → Routine Yield} {waited : Waited}
    (written : Shift.Written w cut m ⟨c, none⟩) (found : c.hand? k = some h) (waiting : h.station = .waiting await resume)
    (wakes : c.Wakes k h await waited c') (spared : h.stopped = true → cut k) (recalls : (c'.goOn k).Recalls m) :
    Shift.Written w cut m ⟨c'.goOn k, some (k, resume waited)⟩ := by
  obtain ⟨past, rounds, stands⟩ := written.hands k h found
  simp only [waiting] at stands
  obtain ⟨s', request, next, read, rfl, cuts, news, reaches⟩ := stands
  have found' := (wakes.hands k).trans found
  have follows : Follows k c (c'.goOn k) := (Follows.of_wakes wakes).trans (.goOn k c') fun _ _ => ⟨h, found⟩
  refine written.after recalls follows (by rintro _ _ ⟨⟩; rfl) ⟨_, hand?_self found' _, past, rounds, ?_⟩
  rintro _ ⟨⟩
  have same : (⟨(c'.goOn k).clock, (c'.goOn k).memory⟩ : Moment) = ⟨c.clock, c.memory⟩ := by
    rw [← wakes.clock, ← wakes.noted.1]
    rfl
  have goes : request.Goes (cut k) s' (read waited) [] ⟨c.clock, c.memory⟩ := by
    unfold Crew.Wakes at wakes
    split at wakes
    next stopped =>
      obtain ⟨rfl, _⟩ := wakes
      exact cuts (spared stopped) _
    next => exact news c waited c' wakes
  rw [same]
  exact reaches.goesOn (log_same wakes.noted.2 k) (.control goes .refl) rfl

/-- Each step leaves everybody at a point of their routine. -/
theorem Shift.Step.written {callers : Routine Yield → Prop} (step : Shift.Step w callers a b) (proper : a.Proper)
    (spared : ∀ k h, a.crew.hand? k = some h → h.stopped = true → cut k)
    (written : a.Written w cut m) : b.Written w cut m := by
  have recalls := step.recalls written.recalls
  have proper' := step.proper proper
  cases step with
  | @look c k next => exact written.goesOn proper proper' recalls (.refl k c) (log_same rfl k) (.look .refl)
  | @store c k memory next =>
    have log : (c.store k memory).log = c.log ++ pages k [(c.clock, .stores c.memory memory)] := rfl
    exact written.goesOn proper proper' recalls (.store k memory c) log (.store .refl)
  | @exchange c k question next soon =>
    have log : (c.exchange k question (c.reaction w question)).log = c.log ++
        pages k [(c.clock, .asks question), (c.clock, .hears question (c.reaction w question).reply)] := List.append_assoc ..
    have path : (Routine.ask question next).Path w (cut k) ⟨c.clock, c.memory⟩ [(c.clock, .asks question),
        (c.clock, .hears question (c.reaction w question).reply)] (next (c.reaction w question).reply) ⟨c.clock, c.memory⟩ :=
      @Routine.Path.ask _ _ w (cut k) question next _ _ ⟨c.clock, c.memory⟩ [] _ _ (.inl ⟨c.world, rfl⟩) .refl
    exact written.goesOn proper proper' recalls (.exchange k question _ c) log path
  | ask => exact written.asks proper recalls
  | @grant c k request next reply c' granted =>
    obtain ⟨noted, goes, log⟩ := granted.goes (cut k)
    have path : (Routine.control request next).Path w (cut k) ⟨c.clock, c.memory⟩ (noted ++ []) (next reply) ⟨c'.clock, c'.memory⟩ :=
      .control goes .refl
    rw [List.append_nil] at path
    exact written.goesOn proper proper' recalls (.of_grants granted) log path
  | wait waits => exact written.waits proper waits recalls
  | close => exact written.closes proper recalls
  | @begin c k h found fresh going =>
    obtain ⟨past, rounds, stands⟩ := written.hands k h found
    simp only [fresh] at stands
    refine written.after recalls (.begin k h.origin c) (by rintro _ _ ⟨⟩; rfl)
      ⟨_, hand?_self (h := h) (by cases k <;> exact found) _, past, rounds, ?_⟩
    rintro _ ⟨⟩
    exact written.recalls.reaches stands
  | @drop c k h found fresh stopped =>
    obtain ⟨past, rounds, stands⟩ := written.hands k h found
    simp only [fresh] at stands
    refine written.after recalls (.close k _ c) (by rintro _ _ ⟨⟩) ⟨_, hand?_self found _, past, ?_, ?_⟩
    · exact rounds
    · exact .inl ⟨spared k h found stopped, rfl, stands⟩
  | hear found asking => exact written.hears found asking (spared _ _ found) recalls
  | resume found waiting wakes => exact written.resumes found waiting wakes (spared _ _ found) recalls
  | @call c program calls =>
    refine written.after (k := .caller c.callers.length) recalls (.call _ program c) (by rintro _ _ ⟨⟩)
      ⟨.new (.caller program) none, by rw [hand?_call, if_pos rfl], [], .none, ?_⟩
    exact written.absent _ (by simp [hand?])
  | @pass c time =>
    refine ⟨recalls, fun j h found => ?_, written.absent⟩
    exact (written.hands j h found).other (List.append_nil _).symm (List.forall_mem_nil _) rfl rfl (by rintro _ ⟨⟩)

end Steps

section Reach

open Crew

variable {ω : Type} {w : World ω} {callers : Routine Yield → Prop} {m : Memory} {world : ω} {hasLoop : Bool} {a b : Shift ω}
  {c c' : Crew ω} {k : Who}

theorem Shift.Written.start (w : World ω) (cut : Who → Prop) (m : Memory) (world : ω) (hasLoop : Bool) :
    Shift.Written w cut m ⟨.start m world hasLoop, none⟩ where
  recalls := ⟨trivial, rfl⟩
  hands k h found := by cases k <;> simp [hand?, Crew.start] at found
  absent _ _ := rfl

/-- No caller is to be stopped. -/
def Crew.Unhindered (c : Crew ω) : Prop := ∀ i h, c.hand? (.caller i) = some h → h.stopped = false

theorem Crew.Unhindered.same (unhindered : c.Unhindered) (callers : c'.callers = c.callers) : c'.Unhindered := by
  intro i h found
  exact unhindered i h (by rwa [hand?, callers] at found)

theorem Crew.Unhindered.onHand (unhindered : c.Unhindered) {f : Hand → Hand} (keeps : ∀ h, h.stopped = false → (f h).stopped = false)
    (callers : c'.callers = (c.onHand k f).callers) : c'.Unhindered := by
  intro i h found
  have found : (c.onHand k f).hand? (.caller i) = some h := by rwa [hand?, callers] at found
  obtain ⟨rfl, old, there, rfl⟩ | ⟨_, there⟩ := onHand_cases found
  · exact keeps old (unhindered i old there)
  · exact unhindered i h there

theorem Shift.Step.unhindered (step : Shift.Step w callers a b) (unhindered : a.crew.Unhindered) : b.crew.Unhindered := by
  cases step with
  | look | store | exchange | pass => exact unhindered.same rfl
  | ask => exact unhindered.onHand (f := Hand.moved (.asking ..)) (fun _ => id) rfl
  | grant granted => exact unhindered.same (Crew.callers_of_grants granted)
  | wait waits => exact (unhindered.same (Crew.callers_of_waits waits)).onHand (f := Hand.moved (.waiting ..)) (fun _ => id) rfl
  | close | drop => exact unhindered.onHand (fun h going => (Hand.closed_stopped _ h).trans going) rfl
  | begin => exact unhindered.onHand (f := Hand.moved .running) (fun _ => id) rfl
  | hear => exact unhindered.onHand (f := Hand.resumed) (fun _ _ => rfl) rfl
  | resume _ _ wakes => exact (unhindered.same (Crew.callers_of_wakes wakes)).onHand (f := Hand.resumed) (fun _ _ => rfl) rfl
  | call =>
    intro i h found
    rcases call_cases found with old | ⟨_, rfl⟩
    · exact unhindered i h old
    · rfl

theorem Shift.Reach.unhindered (reach : Shift.Reach w callers m world hasLoop a) : a.crew.Unhindered := by
  induction reach with
  | start => exact fun i h found => by simp [hand?, Crew.start] at found
  | next _ step ih => exact step.unhindered ih

/-- Only jobs are cut short. -/
def Who.Employed (k : Who) : Prop := ∃ j, k = .job j

theorem Shift.Reach.written (reach : Shift.Reach w callers m world hasLoop a) : a.Written w Who.Employed m := by
  induction reach with
  | start => exact .start ..
  | next reach step ih =>
    refine step.written reach.proper (fun k h found stopped => ?_) ih
    cases k with
    | job j => exact ⟨j, rfl⟩
    | caller i => exact absurd stopped (by simp [reach.unhindered i h found])

theorem Origin.Rounds.once {cut : Prop} {origin : Origin} {past : Diary} (rounds : origin.Rounds w cut past)
    (once : origin.repeats = false) : past = [] := by
  cases rounds with
  | none => rfl
  | round again => cases again.symm.trans once

/-- What holds of all that is done on the way holds of all that was written down. -/
theorem Hand.Wrote.all {cut : Prop} {h : Hand} {good : Float × Deed → Prop} (wrote : h.Wrote w cut m k a)
    (turn : h.station = .running → ∃ q, a.turn = some (k, q)) (begins : ∀ time, good (time, .begins h.origin))
    (asks : ∀ time question, good (time, .asks question))
    (goes : ∀ {s log q s'}, h.origin.routine.Path w cut s log q s' → ∀ entry ∈ log, good entry) :
    ∀ entry ∈ a.crew.diary k, good entry := by
  obtain ⟨past, rounds, stands⟩ := wrote
  have before : ∀ entry ∈ past, good entry := by
    clear stands
    induction rounds with
    | none => exact List.forall_mem_nil _
    | round _ _ path ih => exact List.forall_mem_append.mpr ⟨ih, List.forall_mem_cons.mpr ⟨begins _, goes path⟩⟩
  have reached : ∀ {pending q s'}, a.crew.Reaches w cut m k h.origin past pending q s' →
      (∀ entry ∈ pending, good entry) → ∀ entry ∈ a.crew.diary k, good entry := by
    rintro pending q s' ⟨_, _, s, log, _, _, diary, path⟩ last
    rw [diary]
    exact List.forall_mem_append.mpr ⟨before, List.forall_mem_cons.mpr ⟨begins _, List.forall_mem_append.mpr ⟨goes path, last⟩⟩⟩
  cases at_station : h.station with
  | fresh =>
    simp only [at_station] at stands
    exact stands.symm ▸ before
  | running =>
    simp only [at_station] at stands
    obtain ⟨q, on⟩ := turn at_station
    exact reached (stands q on) (List.forall_mem_nil _)
  | asking question =>
    simp only [at_station] at stands
    obtain ⟨s', _, reaches⟩ := stands
    exact reached reaches (List.forall_mem_singleton.mpr (asks _ question))
  | waiting =>
    simp only [at_station] at stands
    obtain ⟨_, _, _, _, _, _, _, reaches⟩ := stands
    exact reached reaches (List.forall_mem_nil _)
  | _ =>
    simp only [at_station] at stands
    rcases stands with ⟨_, _, same⟩ | ⟨s', reaches⟩
    · exact same.symm ▸ before
    · exact reached reaches (List.forall_mem_nil _)

/-- Where a caller is who has begun and is not on turn. -/
theorem Shift.Reach.begun {i : Nat} {h : Hand} (reach : Shift.Reach w callers m world hasLoop a)
    (found : a.crew.hand? (.caller i) = some h) (begun : h.station ≠ .fresh) (idle : h.station ≠ .running) :
    ∃ earlier later s log pending q s', a.crew.log = earlier ++ (s.time, .caller i, .begins h.origin) :: later ∧
      s.memory = Log.memoryFrom m earlier ∧ a.crew.diary (.caller i) = (s.time, .begins h.origin) :: (log ++ pending) ∧
      h.origin.routine.Path w False s log q s' ∧ (∀ next, q ≠ .look next) ∧
      ∀ result, h.station = .over result → q = .done result ∧ pending = [] := by
  have never : Who.Employed (.caller i) = False := propext ⟨by rintro ⟨_, ⟨⟩⟩, False.elim⟩
  obtain ⟨past, rounds, stands⟩ := reach.written.hands _ h found
  cases rounds.once (reach.knows.fits _ h found).once
  rw [never] at stands
  cases station : h.station with
  | fresh => exact absurd station begun
  | running => exact absurd station idle
  | asking =>
    simp only [station] at stands
    obtain ⟨s', _, earlier, later, s, log, whole, memory, diary, path⟩ := stands
    exact ⟨earlier, later, s, log, _, _, s', whole, memory, diary, path, nofun, nofun⟩
  | waiting =>
    simp only [station] at stands
    obtain ⟨s', _, _, _, _, _, _, earlier, later, s, log, whole, memory, diary, path⟩ := stands
    exact ⟨earlier, later, s, log, _, _, s', whole, memory, diary, path, nofun, nofun⟩
  | _ =>
    simp only [station] at stands
    obtain ⟨impossible, _⟩ | ⟨s', earlier, later, s, log, whole, memory, diary, path⟩ := stands
    · exact impossible.elim
    · exact ⟨earlier, later, s, log, _, _, s', whole, memory, diary, path, nofun, by rintro _ ⟨⟩; exact ⟨rfl, rfl⟩⟩

/-- A caller who is over has come to the end of the program. -/
theorem Shift.Reach.ended {i : Nat} {h : Hand} {result : Except Fault Yield} (reach : Shift.Reach w callers m world hasLoop a)
    (found : a.crew.hand? (.caller i) = some h) (isOver : h.station = .over result) : ∃ s s' log,
      a.crew.diary (.caller i) = (s.time, .begins h.origin) :: log ∧ h.origin.routine.Path w False s log (.done result) s' := by
  have begun : h.station ≠ .fresh ∧ h.station ≠ .running := by rw [isOver]; exact ⟨nofun, nofun⟩
  obtain ⟨_, _, s, log, _, _, s', _, _, diary, path, _, ended⟩ := reach.begun found begun.1 begun.2
  obtain ⟨rfl, rfl⟩ := ended result isOver
  exact ⟨s, s', log, by simpa using diary, path⟩

end Reach

end CodeAtlas
