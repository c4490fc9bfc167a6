import CodeAtlas.Proofs.Ingestion.Pacing

namespace CodeAtlas

open Routine

variable {ω : Type}

namespace Crew

variable {x : Timetable} {c : Crew ω} {t : Nat} {k : Who} {h : Hand} {w : World ω}

theorem Standing.keeps {station : Station} (stands : c.Standing x t station) :
    x.Keeps (c.Barred x t) (c.diary (.job t)) := by
  cases station with
  | fresh =>
    obtain ⟨⟨_, paced, _⟩, _⟩ := stands
    exact .whole paced
  | running => exact stands
  | asking =>
    obtain ⟨⟨_, driving, _⟩, _⟩ := stands
    exact driving.keeps
  | waiting => exact stands.1.keeps
  | _ => exact Finished.keeps stands

/-- Time may pass as long as nobody is to begin the next round. -/
theorem Attended.pass {time : Float} (attended : c.Attended x)
    (timely : Shift.Timely ⟨c, none⟩ ⟨{ c with clock := time }, none⟩) : { c with clock := time }.Attended x where
  placed := by
    refine ⟨fun k h found => ?_, fun t h found => attended.placed.doomed t h found⟩
    have found : c.hand? k = some h := by cases k <;> exact found
    obtain ⟨keeps, owns, joined⟩ := attended.placed.stands k h found
    refine ⟨?_, owns, joined⟩
    rintro t rfl loop
    have stands := keeps t rfl loop
    cases station : h.station with
    | fresh =>
      rw [station] at stands
      refine ⟨?_, stands.2.unowned, stands.2.untouched⟩
      by_cases nothing : c.diary (.job t) = []
      · exact nothing ▸ ⟨none, .none, by simp⟩
      · have same : time = c.clock := timely _ h found station nothing
        exact same ▸ stands.1
    | waiting =>
      rw [station] at stands
      exact ⟨stands.1, stands.2.unowned, stands.2.untouched⟩
    | running | asking =>
      rw [station] at stands
      exact stands
    | _ =>
      rw [station] at stands
      exact ⟨stands.keeps, stands.unowned, stands.called, stands.aborts⟩
  heeded still := attended.heeded fun k h found => still k h (by cases k <;> exact found)

theorem Attended.call (attended : c.Attended x) (program : Routine Yield) (known : c.Manned x) (known' : (c.call program).Manned x) :
    (c.call program).Attended x where
  placed := by
    have acts : ActsAlone (.caller c.callers.length) [] c (c.call program) := .call program
    refine attended.placed.acts known known' acts (fun _ => False.elim) fun h found => .of_caller fun result isOver => ?_
    rcases call_cases found with old | ⟨_, rfl⟩
    · simp [hand?] at old
    · cases isOver
  heeded still := by
    have acts : ActsAlone (.caller c.callers.length) [] c (c.call program) := .call program
    exact (attended.heeded fun k h found => still k h (call_found found)).calls known acts (by simp)

/-- A job that is stopped before it begins has nothing to give up. -/
theorem Attended.drops (attended : c.Attended x) (known : c.Manned x) (still : c.Still) (found : c.hand? k = some h)
    (fresh : h.station = .fresh) (stopped : h.stopped = true) : (attending ω x).Closes k (.error .cancelled) c := by
  intro known'
  have kind := known.scheduled.furnished.staff k h found
  cases origin : h.origin with
  | caller program =>
    rw [origin] at kind
    cases kind
    cases stopped.symm.trans (known.unhindered _ h found)
  | job work =>
    rw [origin] at kind
    cases kind with
    | ingest => cases stopped.symm.trans ((known.regular.hands _ h found).ingest _ _ origin).1
    | @schedule t =>
      have stands := (attended.placed.stands _ h found).keeps t rfl origin
      rw [fresh] at stands
      obtain ⟨⟨_, paced, _⟩, aloof⟩ := stands
      have acts : ActsAlone (.job t) [] c (c.close (.job t) (.error .cancelled)) :=
        .close (active_of found fresh nofun) _
      have called := attended.placed.doomed t h found origin stopped
      have finished : (c.close (.job t) (.error .cancelled)).Finished x t :=
        Aloof.finished (aloof.same rfl) known' (.whole paced) fun spared => called (spared.old acts.log)
      obtain ⟨placed, heeded⟩ := attended.placed.loop_acts (attended.heeded still) known known' acts found origin
        (hand?_self found _) finished (.inr (.inr ⟨_, rfl⟩))
      exact ⟨⟨placed, fun _ => heeded⟩, trivial⟩

end Crew

open Crew

variable {x : Timetable}

/-- Callers of a coordinator, and its jobs, keep to the timetable. -/
theorem Coordinator.attending_opens {w : World ω} (timed : x.Timed) (draws : w.Draws) : (attending ω x).Opens w x.Calls where
  call known attended _ known' := attended.call _ known known'
  drop known attended still found fresh stopped := attended.drops known still found fresh stopped
  begin := by
    intro c k h known attended still found fresh going calls
    have kind := known.scheduled.furnished.staff k h found
    cases origin : h.origin with
    | job work =>
      rw [origin] at kind
      rw [← origin]
      cases kind with
      | ingest => exact attended.ingests w known still found fresh origin
      | schedule => exact attended.rounds timed draws known still found fresh going origin
    | caller program =>
      obtain ⟨errand, rfl⟩ := calls program origin
      rw [origin] at kind
      rw [← origin]
      cases kind
      by_cases stop : h.origin = x.stopping
      · exact attended.stops w known still found fresh stop
      · refine attended.calls w known still found fresh origin stop ?_
        cases errand with
        | startScheduler => exact (Coordinator.startScheduler_lenient _).andThen fun _ => .done _
        | stopScheduler => exact absurd origin stop
        | trigger => exact Coordinator.lenient_errands (Coordinator.trigger_errands.andThen fun _ => .done _)
        | runPipeline => exact Coordinator.lenient_errands (Coordinator.runPipeline_errands.andThen fun _ => .done _)

/-- Callers of a coordinator, and its jobs, keep to the timetable at all times, if time passes only where nobody is to begin
again. -/
theorem Shift.Prompt.attended {w : World ω} {world : ω} {hasLoop : Bool} {a : Shift ω} (resting : x.memory.Resting)
    (present : x.coordinator < x.memory.coordinators.length)
    (outside : (x.memory.coordinator x.coordinator).stages = .outside) (timed : x.Timed) (draws : w.Draws)
    (prompt : Shift.Prompt w x.Calls x.memory world hasLoop a) : a.Sound w (attending ω x) := by
  refine prompt.sound (Coordinator.attending_opens timed draws) (fun attended timely => attended.pass timely)
    (fun prompt => prompt.reach.manned resting present outside) ⟨⟨fun k h found => ?_, fun t h found => ?_⟩, fun _ => ?_⟩
  · cases k <;> simp [Crew.hand?, Crew.start] at found
  · simp [Crew.hand?, Crew.start] at found
  · intro i t _ _ h _ _ found
    simp [Crew.hand?, Crew.start] at found

/-- A step that adds a job ends nobody, and nobody begins in it. -/
theorem Shift.Step.adds {w : World ω} {callers : Routine Yield → Prop} {a b : Shift ω} {t : Nat} {h : Hand}
    (step : Shift.Step w callers a b) (proper : a.Proper) (absent : a.crew.hand? (.job t) = none)
    (found : b.crew.hand? (.job t) = some h) : ∃ k new, Acts (fun _ => True) (fun _ => True) k new a.crew b.crew ∧
      (∀ entry ∈ new, ∀ origin, entry.2 ≠ .begins origin) ∧
      ∃ h, b.crew.hand? k = some h ∧ ∀ result, h.station ≠ .over result := by
  have moved : ∀ {c d : Crew ω} {k : Who} {f : Hand → Hand}, (∀ j, d.hand? j = c.hand? j) → c.hand? (.job t) = none →
      (d.onHand k f).hand? (.job t) ≠ some h := by
    intro c d k f same absent found
    rcases onHand_cases found with ⟨rfl, old, there, _⟩ | ⟨_, there⟩
    · cases absent.symm.trans ((same _).symm.trans there)
    · cases absent.symm.trans ((same _).symm.trans there)
  have noted : ∀ (c : Crew ω) (k : Who) (deed : Deed) (j : Who), (c.note k deed).hand? j = c.hand? j := by
    intro c k deed j
    cases j <;> rfl
  have stays : ∀ (c : Crew ω) (j : Who), c.hand? j = c.hand? j := fun _ _ => rfl
  cases step with
  | look | store | exchange | pass => cases absent.symm.trans found
  | ask => exact absurd found (moved (d := { Crew.note _ _ _ with world := _ }) (fun j => by cases j <;> rfl) absent)
  | begin => exact absurd found (moved (noted _ _ _) absent)
  | hear => exact absurd found (moved (noted _ _ _) absent)
  | close => exact absurd found (moved (stays _) absent)
  | drop => exact absurd found (moved (stays _) absent)
  | resume _ _ wakes => exact absurd found (moved wakes.hands absent)
  | call =>
    rcases call_cases found with old | ⟨⟨⟩, _⟩
    cases absent.symm.trans old
  | @grant c k request _ _ _ granted =>
    obtain ⟨own, there, runs⟩ := proper.runs _ _ rfl
    have may : ∀ job, request.Brings job → (fun _ => True) job := fun _ _ => trivial
    have stops : ∀ t, c.Halting t request → (fun _ => True) t := fun _ _ => trivial
    obtain ⟨new, acts, _, starts⟩ := granted.acts (active_of there runs nofun) may stops
    obtain ⟨h', found', same⟩ := granted.hands.1 _ _ there
    refine ⟨k, new, acts, fun entry inside origin begins => ?_, h', found', by rw [same, runs]; exact nofun⟩
    obtain ⟨_, _, started⟩ := starts entry inside
    cases started.symm.trans begins
  | @wait c k request next await read c' waits =>
    obtain ⟨own, there, runs⟩ := proper.runs _ _ rfl
    exact ⟨k, [], waits.acts (active_of there runs nofun) there (fun _ _ => trivial) _, by simp, _,
      hand?_self (waits.hands.1 k own there) _, nofun⟩

/-- As long as a job keeps to the timetable to which nobody has begun to put an end, no other is added. -/
theorem Shift.Reach.alone {w : World ω} {world : ω} {hasLoop : Bool} {a b : Shift ω} {t t' : Nat} {h : Hand}
    (resting : x.memory.Resting) (present : x.coordinator < x.memory.coordinators.length)
    (outside : (x.memory.coordinator x.coordinator).stages = .outside)
    (reach : Shift.Reach w x.Calls x.memory world hasLoop a) (step : Shift.Step w x.Calls a b) (ticking : a.crew.Ticking x t)
    (found : b.crew.hand? (.job t') = some h) (loop : h.origin = x.loop) : ∃ h, a.crew.hand? (.job t') = some h := by
  by_contra absent
  have absent : a.crew.hand? (.job t') = none := Option.eq_none_iff_forall_ne_some.mpr fun h there => absent ⟨h, there⟩
  obtain ⟨k, new, acts, unbegun, own, there, going⟩ := step.adds reach.proper absent found
  obtain ⟨_, before⟩ := reach.scheduled resting present outside
  obtain ⟨_, after⟩ := (reach.next step).scheduled resting present outside
  have ticks : b.crew.Ticking x t := by
    obtain ⟨h₀, found₀, loop₀, going₀, spared⟩ := ticking
    obtain ⟨h₁, found₁, origin, _, station⟩ := acts.follows.hands _ h₀ found₀
    refine ⟨h₁, found₁, origin.trans loop₀, ?_, spared.goesOn acts.log fun entry inside => unbegun entry inside _⟩
    by_cases self : .job t = k
    · cases Option.some.inj ((self ▸ found₁).symm.trans there)
      exact going
    · rw [station self]
      exact going₀
  have another : b.crew.Ticking x t' := by
    refine ⟨h, found, loop, fun result isOver => ?_, fun i earlier later stops => ?_⟩
    · rcases acts.follows.newcomers _ h found with ⟨old, there⟩ | ⟨fresh, _⟩
      · cases absent.symm.trans there
      · cases fresh.symm.trans isOver
    · obtain ⟨since, _, old⟩ := stops.old acts.log fun entry inside => unbegun entry inside _
      obtain ⟨old, there, _⟩ := before.furnished.hired i t' earlier since old
      cases absent.symm.trans there
  cases after.single _ _ ticks another
  obtain ⟨old, there, _⟩ := ticking
  cases absent.symm.trans there

/-- Nothing is cut short that a job does that was given a run. -/
theorem Shift.Reach.uncut {w : World ω} {world : ω} {hasLoop : Bool} {a : Shift ω} {t : Nat} (resting : x.memory.Resting)
    (present : x.coordinator < x.memory.coordinators.length)
    (outside : (x.memory.coordinator x.coordinator).stages = .outside)
    (reach : Shift.Reach w x.Calls x.memory world hasLoop a)
    (ingests : ∀ h, a.crew.hand? (.job t) = some h → ∃ id, h.origin = .job (.ingest x.coordinator id)) :
    a.Written w (· ≠ .job t) x.memory := by
  induction reach with
  | start => exact .start ..
  | @next a b reach step ih =>
    have before : ∀ h, a.crew.hand? (.job t) = some h → ∃ id, h.origin = .job (.ingest x.coordinator id) := by
      intro h found
      rcases step.acts reach.proper with ⟨time, same⟩ | ⟨k, new, acts, _⟩
      · exact ingests h (by rw [same]; exact found)
      · obtain ⟨h', found', origin, _⟩ := acts.follows.hands _ h found
        exact origin ▸ ingests h' found'
    refine step.written reach.proper ?_ (ih before)
    rintro k h found stopped rfl
    obtain ⟨id, origin⟩ := before h found
    cases stopped.symm.trans (((reach.manned resting present outside).regular.hands _ h found).ingest _ id origin).1

/-- Whatever anybody else does leaves a job alone that was given a run, and the run as well. -/
theorem Shift.Reach.undisturbed {w : World ω} {world : ω} {hasLoop : Bool} {a b : Shift ω} {t : Nat} {h : Hand} {id : String}
    (resting : x.memory.Resting) (present : x.coordinator < x.memory.coordinators.length)
    (outside : (x.memory.coordinator x.coordinator).stages = .outside)
    (reach : Shift.Reach w x.Calls x.memory world hasLoop a) (step : Shift.Step w x.Calls a b)
    (beside : ∀ q, a.turn ≠ some (.job t, q) ∧ b.turn ≠ some (.job t, q)) (found : a.crew.hand? (.job t) = some h)
    (ingests : h.origin = .job (.ingest x.coordinator id)) (own : a.crew.owner x.coordinator = some (.job t)) :
    b.crew.hand? (.job t) = some h ∧ b.crew.owner x.coordinator = some (.job t) ∧
      (b.crew.memory.coordinator x.coordinator).run = (a.crew.memory.coordinator x.coordinator).run := by
  have known := reach.manned resting present outside
  have known' := (reach.next step).manned resting present outside
  have going := ((known.regular.hands _ h found).ingest _ id ingests).1
  rcases step.acts reach.proper with ⟨time, same⟩ | ⟨k, new, acts, does⟩
  · rw [same]
    exact ⟨found, own, rfl⟩
  · have other : k ≠ .job t := by
      rintro rfl
      rcases does with ⟨q, on⟩ | ⟨q, on⟩ | ⟨h', there, stopped⟩ | absent
      · exact (beside q).1 on
      · exact (beside q).2 on
      · cases Option.some.inj (found.symm.trans there)
        cases going.symm.trans stopped
      · cases absent.symm.trans found
    obtain ⟨h', found', origin, group, station⟩ := acts.follows.hands _ h found
    have going' := ((known'.regular.hands _ h' found').ingest _ id (origin.trans ingests)).1
    have same : h' = h := by
      cases h
      cases h'
      cases origin
      cases group
      cases going.trans going'.symm
      cases station (Ne.symm other)
      rfl
    exact ⟨same ▸ found', known'.regular.kept known'.recorded (acts.since other) known.recorded own⟩

/-- Nothing has come of a run that was given up, and nothing will until somebody takes the lock. -/
theorem Timetable.Aborts.undone {c : Crew ω} {t i : Nat} {before : Memory} {earlier later : List Noted} (regular : c.Regular)
    (recorded : c.Recorded x.memory) (stops : c.CallsOff x i t earlier later) (aborts : x.Aborts t before earlier later)
    (untaken : ∀ noted ∈ later, ¬noted.2.2.Takes x.coordinator) :
    RunState.Undone (before.coordinator x.coordinator).run (c.memory.coordinator x.coordinator).run := by
  obtain ⟨begun, whole, _⟩ := stops
  cases aborts with
  | @intro first rest past due after log heard question time given freed _ _ _ _ _ frees undone =>
    have split : c.log = (earlier ++ (begun, .caller i, .begins x.stopping) :: first ++ [(time, .job t, .stores given freed)]) ++ rest := by
      rw [whole]
      simp
    have lawful := regular.lawful x.coordinator
    have chained := recorded.chained
    have memory := recorded.memory
    rw [split] at lawful chained memory
    have unowned : ∀ owner, (Deed.stores given freed).passes x.coordinator (.job t) owner = none := by
      intro owner
      rw [Deed.passes, frees.1, undone.unlocked]
    have lawful := ((Log.lawful_append ..).mp lawful).2
    rw [Log.ownerFrom_append] at lawful
    have lawful : Log.Lawful x.coordinator none rest := (unowned _) ▸ lawful
    have chained : Log.Chained freed rest := by
      have onward := ((Log.chained_append ..).mp chained).2
      rw [Log.memoryFrom_append] at onward
      exact onward
    rw [Log.memoryFrom_append, Log.memoryFrom_append] at memory
    have later : ∀ noted ∈ rest, ¬noted.2.2.Takes x.coordinator := fun noted inside =>
      untaken noted (List.mem_append_right _ (List.mem_cons_of_mem _ inside))
    have kept := Log.unowned lawful chained undone.unlocked later
    rw [memory]
    exact kept.symm ▸ undone

/-- A caller who has put an end to the timetable has waited for the end of the job that was scheduled then; what run the job
carried out was given up. -/
theorem Crew.Attended.stopped {c : Crew ω} {i t : Nat} {h : Hand} {result : Except Fault Yield} {earlier later : List Noted}
    (attended : c.Attended x) (known : c.Manned x) (found : c.hand? (.caller i) = some h) (stopping : h.origin = x.stopping)
    (isOver : h.station = .over result) (stops : c.CallsOff x i t earlier later) : c.ended t = true ∧
      (Log.ownerFrom x.coordinator none earlier = some (.job t) → ∃ before, x.Aborts t before earlier later) := by
  have ended := (attended.placed.stands _ h found).joined i result rfl stopping isOver t earlier later stops
  refine ⟨ended, fun own => ?_⟩
  obtain ⟨h', found', loop⟩ := known.scheduled.furnished.hired i t earlier later stops
  obtain ⟨last, there⟩ := Option.isSome_iff_exists.mp ended
  obtain ⟨h'', found'', last⟩ := result?_of_found there
  cases Option.some.inj (found'.symm.trans found'')
  have stands := (attended.placed.stands _ h' found').keeps t rfl loop
  rw [last] at stands
  exact stands.aborts i earlier later stops own

/-- How a coordinator keeps to its timetable. At most one job does that nobody has begun to stop, and none is added while there
is one. Such a job makes its rounds at the times that are due, and does not end unless a stage is cancelled or interrupted.
Whoever has stopped it has waited for its end, and a run that it carried out then has come to nothing. A run that was given
to a job goes its own way. -/
structure Shift.Disciplined (w : World ω) (x : Timetable) (a : Shift ω) : Prop where
  single : ∀ t t', a.crew.Ticking x t → a.crew.Ticking x t' → t = t'
  alone : ∀ b t t' h, Shift.Step w x.Calls a b → a.crew.Ticking x t → b.crew.hand? (.job t') = some h → h.origin = x.loop →
    ∃ h, a.crew.hand? (.job t') = some h
  paced : ∀ t h, a.crew.hand? (.job t) = some h → h.origin = x.loop →
    x.Keeps (a.crew.Barred x t) (a.crew.diary (.job t)) ∧
    ∀ await resume, h.station = .waiting await resume → a.crew.Asleep x t await
  lasts : ∀ t h, a.crew.hand? (.job t) = some h → h.origin = x.loop → a.crew.Spared x t →
    h.stopped = false ∧ ∀ result, h.station = .over result → a.crew.Broken t
  stops : ∀ i h result, a.crew.hand? (.caller i) = some h → h.origin = x.stopping → h.station = .over result →
    ∃ time earlier later, a.crew.log = earlier ++ (time, .caller i, .begins x.stopping) :: later ∧
      ∀ t, ((Log.memoryFrom x.memory earlier).coordinator x.coordinator).scheduler = some t → a.crew.ended t = true ∧
        (Log.ownerFrom x.coordinator none earlier = some (.job t) → ∃ before, x.Aborts t before earlier later ∧
          ((∀ noted ∈ later, ¬noted.2.2.Takes x.coordinator) →
            RunState.Undone (before.coordinator x.coordinator).run (a.crew.memory.coordinator x.coordinator).run))
  spares : ∀ t h id, a.crew.hand? (.job t) = some h → h.origin = .job (.ingest x.coordinator id) →
    h.Wrote w False x.memory (.job t) a ∧
      (h.station ≠ .running → (∀ result, h.station ≠ .over result) → a.crew.owner x.coordinator = some (.job t)) ∧
      ∀ b, Shift.Step w x.Calls a b → (∀ q, a.turn ≠ some (.job t, q) ∧ b.turn ≠ some (.job t, q)) →
        a.crew.owner x.coordinator = some (.job t) → b.crew.hand? (.job t) = some h ∧
          b.crew.owner x.coordinator = some (.job t) ∧
          (b.crew.memory.coordinator x.coordinator).run = (a.crew.memory.coordinator x.coordinator).run

/-- Whatever the callers of a coordinator do and in whatever order, and whatever becomes of its stages, it keeps to its
timetable. -/
theorem Coordinator.schedule_disciplined {w : World ω} {world : ω} {hasLoop : Bool} {a : Shift ω} (resting : x.memory.Resting)
    (present : x.coordinator < x.memory.coordinators.length)
    (outside : (x.memory.coordinator x.coordinator).stages = .outside) (timed : x.Timed) (draws : w.Draws)
    (prompt : Shift.Prompt w x.Calls x.memory world hasLoop a) : a.Disciplined w x := by
  have reach := prompt.reach
  have known := reach.manned resting present outside
  have attended : a.crew.Attended x := (prompt.attended resting present outside timed draws).holds
  refine {
    single := known.scheduled.single
    alone := fun b t t' h step ticking found loop => reach.alone resting present outside step ticking found loop
    paced := fun t h found loop => ?_
    lasts := fun t h found loop spared => ?_
    stops := fun i h result found stopping isOver => ?_
    spares := fun t h id found ingests => ?_ }
  · have stands := (attended.placed.stands _ h found).keeps t rfl loop
    refine ⟨stands.keeps, fun await resume waiting => ?_⟩
    rw [waiting] at stands
    exact stands.1
  · have stands := (attended.placed.stands _ h found).keeps t rfl loop
    refine ⟨Bool.eq_false_iff.mpr fun stopped => attended.placed.doomed t h found loop stopped spared, fun result isOver => ?_⟩
    rw [isOver] at stands
    exact stands.called spared
  · have begun : h.station ≠ .fresh ∧ h.station ≠ .running := by
      rw [isOver]
      exact ⟨nofun, nofun⟩
    obtain ⟨earlier, later, s, _, _, _, _, whole, _⟩ := reach.begun found begun.1 begun.2
    rw [stopping] at whole
    refine ⟨s.time, earlier, later, whole, fun t scheduled => ?_⟩
    have stops : a.crew.CallsOff x i t earlier later := ⟨s.time, whole, scheduled⟩
    obtain ⟨ended, aborts⟩ := attended.stopped known found stopping isOver stops
    refine ⟨ended, fun own => ?_⟩
    obtain ⟨before, aborts⟩ := aborts own
    exact ⟨before, aborts, aborts.undone known.regular known.recorded stops⟩
  · have wrote := (reach.uncut resting present outside fun h' there => ⟨id, by
      cases Option.some.inj (found.symm.trans there)
      exact ingests⟩).hands _ h found
    have never : (Who.job t ≠ .job t) = False := by simp
    rw [never] at wrote
    exact ⟨wrote, fun idle going => (attended.placed.stands _ h found).owns t id rfl ingests idle going,
      fun b step beside own => reach.undisturbed resting present outside step beside found ingests own⟩

/-- Surroundings in which a snapshot takes five seconds, and then there is none. -/
def World.dawdling : World Unit where
  answer
    | .drawId, _, _ => ⟨(), 0, .ok (7 : Nat)⟩
    | .fetchSnapshot _, _, _ => ⟨(), 5, .ok none⟩
    | _, _, _ => ⟨(), 0, .error .cancelled⟩

/-- A run every minute. -/
def Timetable.minutely : Timetable where
  memory :=
    { (default : Memory) with
      coordinators := [{ (default : Coordinator) with stages := .outside, scheduled := .bool true, interval := .float 60 }] }
  coordinator := 0
  seconds := 60

theorem Timetable.minutely_resting : minutely.memory.Resting := by
  have either : ∀ n, minutely.memory.coordinator n = minutely.memory.coordinator 0 ∨ minutely.memory.coordinator n = default := by
    intro n
    cases n with
    | zero => exact .inl rfl
    | succ => exact .inr rfl
  refine ⟨fun n => ?_, fun n => ?_, fun n => ?_, ⟨nofun, nofun⟩⟩ <;> rcases either n with same | same <;> rw [same] <;> rfl

theorem Timetable.minutely_timed : minutely.Timed where
  number := ⟨_, rfl⟩
  reads := rfl
  positive := by decide +kernel

/-- A run of the timetable that was given up for a caller who stopped the job, and then one that was triggered and is under
way. -/
theorem Coordinator.schedule_disciplined_aborted : ∃ a,
    Shift.Prompt World.dawdling Timetable.minutely.Calls Timetable.minutely.memory () true a ∧ a.turn = none ∧
      a.crew.ended 0 = true ∧ a.crew.owner 0 = some (.job 1) ∧ a.Disciplined World.dawdling Timetable.minutely := by
  have soon : ¬(0 : Float) < 0 := by decide
  have slow : (0 : Float) < 5 := by decide +kernel
  have due : (60 : Float) = if (60 : Float) ≤ 0 then 0 else 0 + 60 := by decide +kernel
  have starts : Timetable.minutely.Calls (Errand.startScheduler.program 0) := ⟨.startScheduler, rfl⟩
  have triggers : Timetable.minutely.Calls (Errand.trigger.program 0) := ⟨.trigger, rfl⟩
  have stops : Timetable.minutely.Calls (Errand.stopScheduler.program 0) := ⟨.stopScheduler, rfl⟩
  have r : Shift.Prompt World.dawdling Timetable.minutely.Calls Timetable.minutely.memory () true _ := .start
  have r := r.goesOn (.call starts) rfl
  have r := r.goesOn (.begin (k := .caller 0) rfl rfl rfl) rfl
  have r := r.goesOn .look rfl
  have r := r.goesOn (.grant ⟨rfl, rfl⟩) rfl
  have r := r.goesOn (.grant ⟨rfl, rfl⟩) rfl
  have r := r.goesOn .look rfl
  have r := r.goesOn .store rfl
  have r := r.goesOn .close rfl
  -- the job begins, and waits for a minute
  have r := r.goesOn (.begin (k := .job 0) rfl rfl rfl) rfl
  have r := r.goesOn .look rfl
  have r := r.goesOn (.wait ⟨rfl, rfl, rfl⟩) rfl
  have r := r.later 60 (List.forall_mem_cons.mpr ⟨nofun, List.forall_mem_singleton.mpr nofun⟩)
  -- it takes the lock and asks for a snapshot
  have r := r.goesOn (.resume (k := .job 0) rfl rfl ⟨due, rfl, rfl⟩) rfl
  have r := r.goesOn .look rfl
  have r := r.goesOn .look rfl
  have r := r.goesOn .store rfl
  have r := r.goesOn (.exchange soon) rfl
  have r := r.goesOn (.grant ⟨rfl, rfl⟩) rfl
  have r := r.goesOn .look rfl
  have r := r.goesOn .store rfl
  have r := r.goesOn .look rfl
  have r := r.goesOn .look rfl
  have r := r.goesOn .store rfl
  have r := r.goesOn (.ask slow) rfl
  -- another caller has it stopped, and it gives the run up
  have r := r.goesOn (.call stops) rfl
  have r := r.goesOn (.begin (k := .caller 1) rfl rfl rfl) rfl
  have r := r.goesOn .look rfl
  have r := r.goesOn .look rfl
  have r := r.goesOn .store rfl
  have r := r.goesOn (.grant ⟨rfl, [0], .inr ⟨rfl, by rintro _ _ _ ⟨⟩ ⟨⟩⟩, rfl⟩) rfl
  have r := r.goesOn (.wait ⟨rfl, rfl, rfl⟩) rfl
  have r := r.goesOn (.hear (k := .job 0) rfl rfl nofun) rfl
  have r := r.goesOn .look rfl
  have r := r.goesOn .store rfl
  have r := r.goesOn .close rfl
  have r := r.goesOn (.resume (k := .caller 1) rfl rfl ⟨⟨_, rfl, rfl⟩, rfl⟩) rfl
  have r := r.goesOn .close rfl
  -- a run is triggered, and asks for a snapshot
  have r := r.goesOn (.call triggers) rfl
  have r := r.goesOn (.begin (k := .caller 2) rfl rfl rfl) rfl
  have r := r.goesOn .look rfl
  have r := r.goesOn .look rfl
  have r := r.goesOn .store rfl
  have r := r.goesOn (.exchange soon) rfl
  have r := r.goesOn (.grant ⟨rfl, rfl⟩) rfl
  have r := r.goesOn (.grant ⟨rfl, rfl⟩) rfl
  have r := r.goesOn .look rfl
  have r := r.goesOn .store rfl
  have r := r.goesOn (.grant ⟨rfl, rfl⟩) rfl
  have r := r.goesOn .close rfl
  have r := r.goesOn (.begin (k := .job 1) rfl rfl rfl) rfl
  have r := r.goesOn (.grant ⟨rfl, rfl⟩) rfl
  have r := r.goesOn .look rfl
  have r := r.goesOn .store rfl
  have r := r.goesOn .look rfl
  have r := r.goesOn .look rfl
  have r := r.goesOn .store rfl
  have r := r.goesOn (.ask slow) rfl
  refine ⟨_, r, rfl, rfl, by decide, ?_⟩
  have draws : World.dawdling.Draws := fun _ _ => ⟨soon, 7, rfl⟩
  exact schedule_disciplined Timetable.minutely_resting (by decide) rfl Timetable.minutely_timed draws r

end CodeAtlas
