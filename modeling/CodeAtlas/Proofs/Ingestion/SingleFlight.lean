import CodeAtlas.Proofs.Ingestion.Calls
import CodeAtlas.Proofs.Ingestion.Flight

namespace CodeAtlas

variable {n : Nat}

def Deed.stage? : Deed → Option Stage
  | .asks question => question.stage?
  | _ => none

/-- The stages that were called, by whom and in what order. -/
def stageCalls (trace : List (Who × Deed)) : List (Who × Stage) :=
  trace.filterMap fun entry => entry.2.stage?.map (entry.1, ·)

def RunEvent.stage? : RunEvent → Option Stage
  | .called question => question.stage?
  | _ => none

theorem Deed.event_stage (n : Nat) (deed : Deed) : (deed.event n).bind RunEvent.stage? = deed.stage? := by
  unfold Deed.event
  split
  · split <;> rfl
  · rfl
  · split <;> rfl
  next question =>
    cases isStage : question.stage? <;> simp [Deed.stage?, RunEvent.stage?, isStage]
  · rfl
  next question reply _ => cases question.stage? <;> rfl
  · split <;> rfl
  · rfl

theorem stageCalls_eq (n : Nat) (trace : List (Who × Deed)) :
    stageCalls trace = (runEvents n trace).filterMap fun entry => entry.2.stage?.map (entry.1, ·) := by
  rw [stageCalls, runEvents, List.filterMap_filterMap]
  refine congrArg (List.filterMap · trace) (funext fun entry => ?_)
  rw [← entry.2.event_stage n]
  cases entry.2.event n <;> rfl

namespace Flight

/-- The stages of a run, each called by the one who carries it out. -/
def segment (f : Flight) : List (Who × Stage) := f.stages.map (f.runner, ·)

theorem segment_calls (k : Who) (calls : List Call) :
    (calls.flatMap (Call.events k)).filterMap (fun entry => entry.2.stage?.map (entry.1, ·)) =
      (calls.filterMap (·.question.stage?)).map (k, ·) := by
  induction calls with
  | nil => rfl
  | cons c rest ih =>
    have called : (Call.events k c).filterMap (fun entry => entry.2.stage?.map (entry.1, ·)) =
        (c.question.stage?.map (k, ·)).toList := by
      cases isStage : c.question.stage? <;> cases c.reply <;> simp [Call.events, RunEvent.stage?, isStage]
    rw [List.flatMap_cons, List.filterMap_append, ih, called]
    cases isStage : c.question.stage? <;> simp [isStage]

theorem segment_eq (f : Flight) :
    f.events.filterMap (fun entry => entry.2.stage?.map (entry.1, ·)) = f.segment := by
  have silent : (f.handover.events f.opener).filterMap (fun entry => entry.2.stage?.map (entry.1, ·)) = [] := by
    cases f.handover <;> rfl
  have last : (if f.closed then [(f.runner, RunEvent.freed)] else []).filterMap
      (fun entry => entry.2.stage?.map (entry.1, ·)) = [] := by
    cases f.closed <;> rfl
  simp only [events, List.filterMap_append, List.filterMap_cons, silent, segment_calls, last, segment, stages]
  simp [RunEvent.stage?]

end Flight

theorem stageCalls_flights {trace : List (Who × Deed)} {flights : List Flight}
    (events : runEvents n trace = flights.flatMap Flight.events) :
    stageCalls trace = flights.flatMap Flight.segment := by
  rw [stageCalls_eq n, events, List.filterMap_flatMap]
  exact congrArg (List.flatMap · flights) (funext Flight.segment_eq)

namespace Flight

/-- Calls, answers and the end apart, a run consists of how it was handed over. -/
theorem tally_events (kind : RunEvent.Kind) (notCalled : .called ≠ kind) (notHeard : .heard ≠ kind)
    (notFreed : .freed ≠ kind) (f : Flight) :
    tally kind f.events = tally kind ((f.opener, .took) :: f.handover.events f.opener) := by
  have last : tally kind (if f.closed then [(f.runner, .freed)] else []) = 0 := by
    cases f.closed <;> simp [tally, RunEvent.kind, notFreed]
  rw [events, tally_append, tally_append, tally_calls notCalled notHeard, last, Nat.add_zero]

/-- Whether the stages of a run were called as soon as it began. -/
def Settled (f : Flight) : Prop := f.calls.isEmpty = !f.handover.started

theorem Finished.settled {f : Flight} (finished : f.Finished) : f.Settled := by
  cases finished with
  | gaveBack => rfl
  | ended started => simp [Settled, started]

theorem At.settled {f : Flight} {c : Course} (at_c : f.At c)
    (between : (∃ k, c = .given k) ∨ ∃ k question, c = .calling k question) : f.Settled := by
  rcases between with ⟨k, rfl⟩ | ⟨k, question, rfl⟩
  · cases at_c
    rfl
  · obtain - | - | - | - | started := at_c
    simp [Settled, started]

/-- A job begins what it was given, and whoever takes the lock begins what is neither given away nor
refused a worker. -/
theorem Settled.counted {f : Flight} (settled : f.Settled) :
    tally .gave f.events + tally .refused f.events ≤ tally .took f.events ∧
      (if f.calls.isEmpty then 0 else 1) + (tally .gave f.events + tally .refused f.events) =
        tally .begun f.events + tally .took f.events := by
  have gave := tally_events .gave nofun nofun nofun f
  have refused := tally_events .refused nofun nofun nofun f
  have begun := tally_events .begun nofun nofun nofun f
  have took := tally_events .took nofun nofun nofun f
  rw [gave, refused, begun, took, settled]
  cases f.handover <;> simp [tally, Handover.events, Handover.started, RunEvent.kind]

end Flight

/-- The runs of accepted triggers that have begun. -/
def triggeredRuns (events : List (Who × RunEvent)) : Nat := tally .begun events

/-- The runs of those who took the lock and neither gave it to a job nor were refused a worker, as only
a trigger does. -/
def directRuns (events : List (Who × RunEvent)) : Nat :=
  tally .took events - tally .gave events - tally .refused events

theorem countP_of_settled {flights : List Flight} (settled : ∀ f ∈ flights, f.Settled) :
    flights.countP (!·.calls.isEmpty) =
      triggeredRuns (flights.flatMap Flight.events) + directRuns (flights.flatMap Flight.events) := by
  suffices tally .gave (flights.flatMap Flight.events) + tally .refused (flights.flatMap Flight.events) ≤
      tally .took (flights.flatMap Flight.events) ∧
      flights.countP (!·.calls.isEmpty) + (tally .gave (flights.flatMap Flight.events) +
        tally .refused (flights.flatMap Flight.events)) =
      tally .begun (flights.flatMap Flight.events) + tally .took (flights.flatMap Flight.events) by
    unfold triggeredRuns directRuns
    omega
  induction flights with
  | nil => exact ⟨Nat.le_refl _, rfl⟩
  | cons f rest ih =>
    have first := (settled f (by simp)).counted
    have others := ih fun g member => settled g (by simp [member])
    simp only [List.countP_cons, List.flatMap_cons, tally_append]
    cases empty : f.calls.isEmpty <;> simp_all <;> omega

/-- What the runs of a coordinator are like, of which at most the current one is not over. -/
structure Coordinator.SingleFlight (n : Nat) (a : Pool) (past : List Flight) (current : Option Flight) : Prop where
  /-- What happened is one run after the other. -/
  events : runEvents n a.scene.trace = (past ++ current.toList).flatMap Flight.events
  closed : ∀ f ∈ past, f.closed = true
  underway : ∀ f ∈ current, f.closed = false
  /-- The stages of different runs are not mixed. -/
  segments : stageCalls a.scene.trace = (past ++ current.toList).flatMap Flight.segment
  inOrder : ∀ f ∈ past ++ current.toList, f.calls ≠ [] → f.stages ≠ [] ∧ f.stages <+: Stage.all
  cutShort : ∀ f ∈ past, f.calls ≠ [] → f.stages ≠ Stage.all → ∃ c, f.calls.getLast? = some c ∧ c.CutsShort
  number : a.turn = none →
    (past ++ current.toList).countP (!·.calls.isEmpty) =
      triggeredRuns (runEvents n a.scene.trace) + directRuns (runEvents n a.scene.trace)

/-- Whoever calls a coordinator, and in whatever order tasks take their turns, its runs never overlap. -/
theorem Coordinator.single_flight {m : Memory} {a : Pool} (atRest : m.AtRest n)
    (reach : Pool.Reach (Coordinator.Caller n) m a) : ∃ past current, SingleFlight n a past current := by
  obtain ⟨c, orderly⟩ := reach.ordered atRest
  have flights : ∃ (past : List Flight) (current : Option Flight), (∀ f ∈ past, f.Finished) ∧
      (∀ f ∈ current, f.At c) ∧ runEvents n a.scene.trace = (past ++ current.toList).flatMap Flight.events := by
    obtain ⟨past, finished, ⟨_, logged⟩ | ⟨f, at_c, logged⟩⟩ := orderly.along.flights
    · exact ⟨past, none, finished, nofun, by simpa using logged⟩
    · exact ⟨past, some f, finished, by simpa using at_c, by simpa using logged⟩
  obtain ⟨past, current, finished, at_c, events⟩ := flights
  exact ⟨past, current, {
    events
    closed := fun f member => (finished f member).closed
    underway := fun f member => (at_c f member).closed
    segments := stageCalls_flights events
    inOrder := by
      intro f member
      rcases List.mem_append.mp member with earlier | last
      · exact (finished f earlier).inOrder
      · exact (at_c f (Option.mem_toList.mp last)).inOrder
    cutShort := fun f member => (finished f member).cutsShort
    number := by
      intro between
      rw [events]
      refine countP_of_settled fun f member => ?_
      rcases List.mem_append.mp member with earlier | last
      · exact (finished f earlier).settled
      · have single : Pool.Single ⟨a.scene, none⟩ := between ▸ reach.single
        have at_f := at_c f (Option.mem_toList.mp last)
        obtain rfl | ⟨k, _, given, _⟩ | ⟨k, _, question, _, calling, _⟩ := orderly.between single
        · cases at_f
        · exact at_f.settled (.inl ⟨k, given⟩)
        · exact at_f.settled (.inr ⟨k, question, calling⟩) }⟩

/-- A run that was given to a job, which found nothing to work on. -/
theorem Coordinator.single_flight_triggered : ∃ a, Pool.Reach (Caller 0) .coordinated a ∧ a.turn = none ∧
    stageCalls a.scene.trace = [(.job 0, .fetch)] ∧ triggeredRuns (runEvents 0 a.scene.trace) = 1 ∧
      ∃ past current, SingleFlight 0 a past current := by
  have caller : Caller 0 ((trigger 0).andThen fun _ => .done (.ok .nothing)) := .trigger fun _ => .done
  have r : Pool.Reach (Caller 0) .coordinated _ := .next .start (.call caller)
  have r := r.next (.begin (k := .caller 0) (t := .new (.caller _)) rfl rfl rfl)
  have r := ((r.next .look).next .look).next .store
  have r := r.next (.exchange rfl ⟨(7 : Nat), rfl⟩)
  have r := r.next (.grant ⟨⟨true, rfl⟩, rfl⟩)
  have r := r.next (.grant ⟨rfl, rfl⟩)
  have r := (r.next .look).next .store
  have r := r.next (.grant ⟨⟨(0 : Float), rfl⟩, rfl⟩)
  have r := r.next .close
  have r := r.next (.begin (k := .job 0) (t := .new (.job _)) rfl rfl rfl)
  have r := r.next (.grant ⟨⟨(0 : Float), rfl⟩, rfl⟩)
  have r := (r.next .look).next .store
  have r := ((r.next .look).next .look).next .store
  have r := r.next (.ask rfl)
  have r := r.next (@Pool.Step.hear _ _ (.job 0) _ (.fetchSnapshot _) _ (.ok (none : Option Snapshot)) rfl rfl trivial)
  have r := (r.next .look).next .store
  have r := r.next .close
  exact ⟨_, r, rfl, by decide, by decide, single_flight Memory.coordinated_atRest r⟩

end CodeAtlas
