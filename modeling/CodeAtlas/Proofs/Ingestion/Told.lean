import CodeAtlas.Proofs.Crew.Staff
import CodeAtlas.Proofs.Ingestion.Chronicle
import CodeAtlas.Proofs.Ingestion.Rounds

namespace CodeAtlas

open Crew

variable {ω : Type} {m : Memory} {n : Nat} {k : Who} {c c' d : Crew ω}

/-- What is kept of the runs of a coordinator says what their history is. -/
structure RunState.Tells (r : RunState) (runs : List Run) : Prop where
  lastId : r.lastId = runs.getLast?.map Run.id
  lastError : r.lastError = runs.getLast?.bind Run.error?
  finishedAt : r.finishedAt = (Run.lastSpan? runs).map Prod.snd
  duration : r.duration = (Run.lastSpan? runs).map fun span => span.2 - span.1

theorem RunState.Tells.of_same {r r' : RunState} {runs : List Run} (tells : r.Tells runs) (lastId : r'.lastId = r.lastId)
    (lastError : r'.lastError = r.lastError) (finishedAt : r'.finishedAt = r.finishedAt)
    (duration : r'.duration = r.duration) : r'.Tells runs :=
  ⟨lastId.trans tells.lastId, lastError.trans tells.lastError, finishedAt.trans tells.finishedAt,
    duration.trans tells.duration⟩

/-- A deed that does not tell of a run. -/
def Deed.Untold (deed : Deed) : Prop := ∀ time name runs, deed.tells time name runs = runs

namespace Crew

/-- What those who had the lock of a coordinator did for its runs. -/
def chronicle (n : Nat) (c : Crew ω) : Chronicle := Chronicle.blank.after n c.log

theorem chronicle_owner (c : Crew ω) : (c.chronicle n).owner = c.owner n := Chronicle.after_owner n _ _

theorem chronicle_append {new : List Noted} (log : c'.log = c.log ++ new) :
    c'.chronicle n = (c.chronicle n).after n new := by
  rw [chronicle, log, Chronicle.after_append]
  rfl

theorem chronicle_noted {noted : Noted} (log : c'.log = c.log ++ [noted]) :
    c'.chronicle n = (c.chronicle n).enter n noted := chronicle_append log

theorem chronicle_same (log : c'.log = c.log) : c'.chronicle n = c.chronicle n := by
  rw [chronicle, log]
  rfl

theorem runs_untold {time : Float} {deed : Deed} (log : d.log = c.log ++ [(time, k, deed)]) (untold : deed.Untold) :
    (d.chronicle n).runs = (c.chronicle n).runs := by
  rw [chronicle_noted log, Chronicle.enter]
  simp only [untold time, ite_self]

theorem name_unnamed {time : Float} {deed : Deed} (log : d.log = c.log ++ [(time, k, deed)])
    (unnamed : ∀ name, deed.names n name = name) : (d.chronicle n).name = (c.chronicle n).name := by
  rw [chronicle_noted log, Chronicle.enter]
  simp only [unnamed, ite_self]

/-- What the others did is not told of the run of an owner. -/
theorem chronicle_since (regular : c.Regular) (recorded : c.Recorded m) (since : Since k d c)
    (own : d.owner n = some k) :
    (c.chronicle n).name = (d.chronicle n).name ∧ (c.chronicle n).runs = (d.chronicle n).runs := by
  obtain ⟨new, log, others, lawful, chained⟩ := regular.since recorded since n
  rw [chronicle_append log]
  exact Chronicle.after_others (chronicle_owner d ▸ own) (own ▸ lawful) chained others

/-- Who carries out what for one coordinator, whose stages are carried out outside. -/
structure Familiar (n : Nat) (c : Crew ω) : Prop where
  outside : (c.memory.coordinator n).stages = .outside
  staff : c.Staffed fun k origin => origin.Known n k

/-- All runs so far have come to an end. -/
def Settled (n : Nat) (c : Crew ω) : Prop := ∀ r ∈ (c.chronicle n).runs, r.fate ≠ .underway

/-- Nobody carries out a run: the lock is free, or was given to a job that has not begun. -/
def Unbegun (n : Nat) (c : Crew ω) : Prop := c.owner n = none ∨
  ∃ k h id, c.owner n = some k ∧ c.hand? k = some h ∧ h.origin = .job (.ingest n id) ∧ h.station = .fresh

/-- All is told of the runs of a coordinator. -/
structure Told (n : Nat) (c : Crew ω) : Prop where
  familiar : c.Familiar n
  tells : (c.memory.coordinator n).run.Tells (c.chronicle n).runs
  settled : c.Unbegun n → c.Settled n

/-- All is told, unless the one who has the lock is about to. -/
structure Accounted (n : Nat) (c : Crew ω) : Prop where
  familiar : c.Familiar n
  tells : (∀ k h, c.owner n = some k → c.hand? k = some h → h.station ≠ .running) →
    (c.memory.coordinator n).run.Tells (c.chronicle n).runs
  settled : c.Unbegun n → c.Settled n

theorem Told.accounted (told : c.Told n) : c.Accounted n := ⟨told.familiar, fun _ => told.tells, told.settled⟩

theorem Accounted.told (accounted : c.Accounted n) (still : c.Still) : c.Told n :=
  ⟨accounted.familiar, accounted.tells fun k h _ found => still k h found, accounted.settled⟩

/-- The rules that all is told of the runs. -/
def account (ω : Type) (m : Memory) (n : Nat) : Rules ω where
  known c := c.Recorded m ∧ c.Regular
  inv := Accounted n
  may _ _ _ := True

theorem Settled.of_same (settled : c.Settled n) (runs : (c'.chronicle n).runs = (c.chronicle n).runs) : c'.Settled n := by
  intro r inside
  rw [runs] at inside
  exact settled r inside

/-- A run that was given to a job and has not begun was not begun before. -/
theorem Unbegun.before (unbegun : c'.Unbegun n) (owner : c'.owner n = c.owner n)
    (hands : ∀ k h', c'.hand? k = some h' → h'.station = .fresh → (∀ id, h'.origin = .job (.ingest n id) →
      ∃ h, c.hand? k = some h ∧ h.origin = h'.origin ∧ h.station = .fresh)) : c.Unbegun n := by
  rcases unbegun with free | ⟨k, h', id, own, found, origin, fresh⟩
  · exact .inl (owner.symm.trans free)
  · obtain ⟨h, found', same, fresh'⟩ := hands k h' found fresh id origin
    exact .inr ⟨k, h, id, owner.symm.trans own, found', same.trans origin, fresh'⟩

/-- Whoever moves on does not become a run that has not begun. -/
theorem Unbegun.moved {f : Hand → Hand} (unbegun : c'.Unbegun n) (owner : c'.owner n = c.owner n)
    (hands : ∀ j, c'.hand? j = (c.onHand k f).hand? j)
    (moves : ∀ h, (f h).origin = h.origin ∧ ((f h).station = .fresh →
      h.station = .fresh ∨ ∀ id, h.origin ≠ .job (.ingest n id))) : c.Unbegun n := by
  refine unbegun.before owner fun j h' found fresh id ingests => ?_
  rw [hands] at found
  obtain ⟨rfl, old, at_k, rfl⟩ | ⟨_, old⟩ := onHand_cases found
  · rcases (moves old).2 fresh with was | other
    · exact ⟨old, at_k, (moves old).1.symm, was⟩
    · exact absurd ((moves old).1.symm.trans ingests) (other id)
  · exact ⟨h', old, rfl, fresh⟩

/-- Somebody who is on turn and has the lock carries out a run. -/
theorem Owns.begun (owns : c.Owns m n k) : ¬c.Unbegun n := by
  obtain ⟨h, found, runs⟩ := owns.1.running
  rintro (free | ⟨j, h', id, own, found', _, fresh⟩)
  · cases owns.2.2.symm.trans free
  · cases Option.some.inj (owns.2.2.symm.trans own)
    cases Option.some.inj (found.symm.trans found')
    cases runs.symm.trans fresh

theorem owner_log {new : List Noted} (log : c'.log = c.log ++ new) (quiet : ∀ noted ∈ new, noted.2.2.isQuiet = true) :
    c'.owner n = c.owner n := by
  rw [owner, log, Log.ownerFrom_append, Log.ownerFrom_quiet n _ quiet]
  rfl

theorem Unbegun.asked {question : Ask} {r : Reaction ω question} {next : Except Fault question.Reply → Routine Yield}
    (unbegun : (c.ask k question r next).Unbegun n) : c.Unbegun n :=
  unbegun.moved (k := k) (f := Hand.moved (.asking question r.reply (c.clock + r.delay) next))
    (owner_log (c := c) rfl (by simp [Deed.isQuiet])) (fun j => by cases j <;> rfl) fun _ => ⟨rfl, nofun⟩

/-- Nothing happens that is told. -/
theorem Told.of_same (told : c.Told n) (staff : c'.Staffed fun k origin => origin.Known n k) (memory : c'.memory = c.memory)
    (runs : (c'.chronicle n).runs = (c.chronicle n).runs) (unbegun : c'.Unbegun n → c.Unbegun n) : c'.Told n where
  familiar := ⟨memory ▸ told.familiar.outside, staff⟩
  tells := by
    rw [runs, memory]
    exact told.tells
  settled := fun idle => (told.settled (unbegun idle)).of_same runs

theorem Told.rest (told : c.Told n) (await : Await) (resume : Waited → Routine Yield) : (c.rest k await resume).Told n :=
  told.of_same (told.familiar.staff.rest k await resume) rfl (congrArg _ (chronicle_same rfl)) fun unbegun =>
    unbegun.moved (k := k) (f := Hand.moved _) rfl (fun _ => rfl) fun _ => ⟨rfl, nofun⟩

theorem Told.goOn (told : c.Told n) : (c.goOn k).Told n :=
  told.of_same (told.familiar.staff.goOn k) rfl (congrArg _ (chronicle_same rfl)) fun unbegun =>
    unbegun.moved (k := k) (f := Hand.resumed) rfl (fun _ => rfl) fun _ => ⟨rfl, nofun⟩

theorem Told.woken {h : Hand} {await : Await} {waited : Waited} (told : c.Told n) (wakes : c.Wakes k h await waited c') :
    c'.Told n := by
  refine told.of_same (told.familiar.staff.woken wakes) wakes.noted.1 (congrArg _ (chronicle_same wakes.noted.2)) ?_
  intro unbegun
  refine unbegun.before (by rw [owner, owner, wakes.noted.2]) fun j h' found fresh _ _ => ?_
  exact ⟨h', (wakes.hands j).symm.trans found, rfl, fresh⟩

theorem Told.close (told : c.Told n) (result : Except Fault Yield) : (c.close k result).Told n := by
  refine told.of_same (told.familiar.staff.close k result) rfl (congrArg _ (chronicle_same rfl)) fun unbegun => ?_
  refine unbegun.moved (k := k) rfl (fun _ => rfl) fun h => ⟨h.closed_origin result, fun fresh => .inr ?_⟩
  intro id ingests
  cases result with
  | ok => simp [Hand.closed, ingests, Origin.repeats, Job.repeats] at fresh
  | error => simp [Hand.closed] at fresh

theorem Told.exchange (told : c.Told n) {question : Ask} {r : Reaction ω question} (asks : (Deed.asks question).Untold)
    (hears : (Deed.hears question r.reply).Untold) : (c.exchange k question r).Told n := by
  have log : (c.exchange k question r).log =
      c.log ++ [(c.clock, k, .asks question), (c.clock, k, .hears question r.reply)] := List.append_assoc ..
  refine told.of_same (told.familiar.staff.exchange k question r) rfl ?_ fun unbegun => ?_
  · have asked := runs_untold (n := n) (c := c) (d := c.note k (.asks question)) rfl asks
    exact (runs_untold (c := c.note k (.asks question)) (d := c.exchange k question r) rfl hears).trans asked
  · exact unbegun.before (owner_log log (by simp [Deed.isQuiet])) fun j h' found fresh _ _ =>
      ⟨h', by cases j <;> exact found, rfl, fresh⟩

theorem Told.ask (told : c.Told n) {question : Ask} {r : Reaction ω question} (asks : (Deed.asks question).Untold)
    (next : Except Fault question.Reply → Routine Yield) : (c.ask k question r next).Told n := by
  exact told.of_same (told.familiar.staff.ask k question r next) rfl (runs_untold (c := c) rfl asks) Unbegun.asked

theorem Told.hear (told : c.Told n) {question : Ask} {reply : Except Fault question.Reply}
    (hears : (Deed.hears question reply).Untold) : (c.hear k question reply).Told n := by
  refine told.of_same (told.familiar.staff.hear k question reply) rfl (runs_untold (c := c) rfl hears) fun unbegun => ?_
  exact unbegun.moved (k := k) (f := Hand.resumed) (owner_log (c := c) rfl (by simp [Deed.isQuiet]))
    (fun j => by cases j <;> rfl) fun _ => ⟨rfl, nofun⟩

theorem Told.begin (told : c.Told n) (origin : Origin) : (c.begin k origin).Told n := by
  refine told.of_same (told.familiar.staff.begin k origin) rfl (runs_untold (c := c) rfl fun _ _ _ => rfl) fun unbegun => ?_
  exact unbegun.moved (k := k) (f := Hand.moved .running) (owner_log (c := c) rfl (by simp [Deed.isQuiet]))
    (fun j => by cases j <;> rfl) fun _ => ⟨rfl, nofun⟩

/-- A run is given away only when all the others have come to an end. -/
theorem Told.spawn (told : c.Told n) {job : Job} (kind : (Origin.job job).Known n (.job c.jobs.length))
    (settled : (∃ id, job = .ingest n id) → c.Settled n) : (c.spawn k job).Told n where
  familiar := ⟨told.familiar.outside, told.familiar.staff.spawn k kind⟩
  tells := by
    rw [runs_untold (c := c) (d := c.spawn k job) rfl fun _ _ _ => rfl]
    exact told.tells
  settled := by
    intro unbegun
    refine Settled.of_same (c := c) ?_ (runs_untold (c := c) rfl fun _ _ _ => rfl)
    cases job with
    | ingest i id =>
      cases kind
      exact settled ⟨id, rfl⟩
    | schedule | describe | search =>
      refine told.settled (unbegun.before (Recorded.owner_snoc ..) fun j h' found fresh id ingests => ?_)
      rcases spawn_cases found with old | ⟨_, rfl⟩
      · exact ⟨h', old, rfl, fresh⟩
      · cases ingests

theorem Told.halt (told : c.Told n) (numbers : List Nat) : (c.halt numbers).Told n := by
  refine told.of_same (told.familiar.staff.halt numbers) rfl (congrArg _ (chronicle_same rfl)) fun unbegun => ?_
  refine unbegun.before rfl fun j h' found fresh _ _ => ?_
  obtain ⟨old, there, origin, station⟩ := halt_same found
  exact ⟨old, there, origin.symm, station.symm.trans fresh⟩

theorem Accounted.call (accounted : c.Accounted n) (program : Routine Yield) : (c.call program).Accounted n := by
  refine ⟨⟨accounted.familiar.outside, accounted.familiar.staff.call .caller⟩, fun rests => ?_, fun unbegun => ?_⟩
  · exact accounted.tells fun k h own found => rests k h own (call_found found)
  · refine accounted.settled (unbegun.before rfl fun j h' found fresh id ingests => ?_)
    rcases call_cases found with old | ⟨_, rfl⟩
    · exact ⟨h', old, rfl, fresh⟩
    · cases ingests

/-- What is changed of a coordinator, apart from what is told of its runs and who has the lock. -/
theorem Told.store {f : Coordinator → Coordinator} (told : c.Told n) (present : n < c.memory.coordinators.length)
    (stages : ∀ x, (f x).stages = x.stages) (tells : ∀ x runs, x.run.Tells runs → (f x).run.Tells runs)
    (settled : (c.store k (c.memory.onCoordinator n f)).Unbegun n → c.Settled n) :
    (c.store k (c.memory.onCoordinator n f)).Told n where
  familiar := by
    refine ⟨?_, told.familiar.staff.store k _⟩
    show ((c.memory.onCoordinator n f).coordinator n).stages = .outside
    rw [Memory.coordinator_onCoordinator f present, stages]
    exact told.familiar.outside
  tells := by
    rw [runs_untold (c := c) (d := c.store k _) rfl fun _ _ _ => rfl]
    show ((c.memory.onCoordinator n f).coordinator n).run.Tells _
    rw [Memory.coordinator_onCoordinator f present]
    exact tells _ _ told.tells
  settled := fun unbegun => (settled unbegun).of_same (runs_untold (c := c) rfl fun _ _ _ => rfl)

/-- The same, where the run is left alone altogether. -/
theorem Told.store_beside {f : Coordinator → Coordinator} (told : c.Told n) (present : n < c.memory.coordinators.length)
    (stages : ∀ x, (f x).stages = x.stages) (run : ∀ x, (f x).run = x.run) :
    (c.store k (c.memory.onCoordinator n f)).Told n := by
  refine told.store present stages (fun x _ tells => run x ▸ tells) fun unbegun => told.settled ?_
  have same : ((c.memory.onCoordinator n f).coordinator n).run = (c.memory.coordinator n).run := by
    rw [Memory.coordinator_onCoordinator f present, run]
  refine unbegun.before (owner_store_same same) fun j h' found fresh _ _ => ?_
  exact ⟨h', by cases j <;> exact found, rfl, fresh⟩

end Crew

end CodeAtlas
