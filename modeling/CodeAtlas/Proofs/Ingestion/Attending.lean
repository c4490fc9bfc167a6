import CodeAtlas.Proofs.Ingestion.Attended

namespace CodeAtlas

open Routine

variable {ω : Type}

section Manned

open Crew

variable {w : World ω} {callers : Routine Yield → Prop} {m : Memory} {world : ω} {hasLoop : Bool} {a : Shift ω}

/-- Whoever has a lock has done something, or was given a run. -/
theorem Shift.Reach.owned (reach : Shift.Reach w callers m world hasLoop a) (n : Nat) (k : Who)
    (own : a.crew.owner n = some k) : ∃ h, a.crew.hand? k = some h := by
  induction reach generalizing k with
  | start => cases own
  | @next a b reach step ih =>
    rcases step.acts reach.proper with ⟨time, same⟩ | ⟨j, new, acts, _⟩
    · rw [same] at own ⊢
      obtain ⟨h, found⟩ := ih k own
      exact ⟨h, by cases k <;> exact found⟩
    · cases there : b.crew.hand? k with
      | some h => exact ⟨h, rfl⟩
      | none =>
        have fresh : a.crew.owner n ≠ some k := by
          intro own
          obtain ⟨h, found⟩ := ih k own
          obtain ⟨h', found', _⟩ := acts.follows.hands k h found
          cases there.symm.trans found'
        have kept : ∀ entry ∈ new, ∀ i id t, entry.2 = .starts (.ingest i id) t → .job t ≠ k := by
          rintro entry inside i id t starts rfl
          obtain ⟨_, h', found', _⟩ := acts.starts entry inside _ t starts
          cases there.symm.trans found'
        rw [Crew.owner, acts.log, Log.ownerFrom_append] at own
        rcases Log.owner_pages kept own with rfl | before
        · have nothing := (diary_own acts.log).symm.trans ((reach.next step).written.absent k there)
          rw [(List.append_eq_nil_iff.mp nothing).2] at own
          exact absurd own fresh
        · exact absurd before fresh

theorem Shift.Reach.manned {x : Timetable} (resting : x.memory.Resting) (present : x.coordinator < x.memory.coordinators.length)
    (outside : (x.memory.coordinator x.coordinator).stages = .outside)
    (reach : Shift.Reach w x.Calls x.memory world hasLoop a) : a.crew.Manned x := by
  obtain ⟨⟨recorded, regular⟩, scheduled⟩ := reach.scheduled resting present outside
  refine ⟨recorded, regular, scheduled, ?_, reach.unhindered, reach.owned, reach.written.absent, fun i h found fresh => ?_⟩
  · rw [recorded.memory]
    exact Nat.lt_of_lt_of_le present (Log.grown recorded.chained regular.growing)
  · obtain ⟨past, rounds, stands⟩ := reach.written.hands _ h found
    simp only [fresh] at stands
    exact stands.trans (rounds.once (reach.knows.fits _ h found).once)

end Manned

/-- Everything but stopping jobs; who carries out the stages of a coordinator is left as it is. -/
def Remit.lenient (n : Nat) : Remit where
  asks _ := True
  writes m m' := (m'.coordinator n).stages = (m.coordinator n).stages
  requests
    | .cancel _ => False
    | _ => True
  finds m := (m.coordinator n).stages = .outside
  leaves found same := same.trans found

/-- What a run does that has the lock: it looks at the clock, asks, and changes what is kept of it. -/
def Remit.running (n : Nat) : Remit where
  asks _ := True
  writes m m' := (m'.coordinator n).run.locked = (m.coordinator n).run.locked
  requests
    | .now => True
    | _ => False

namespace Coordinator

theorem lenient_errands {n : Nat} {α : Type} {p : Routine α} (minds : p.Minds (.errands n)) : p.Minds (.lenient n) :=
  minds.mono (fun _ => id) (fun _ _ writes => writes.2.1)
    (fun request allowed => by cases request <;> trivial) fun _ found => found

theorem startScheduler_lenient (n : Nat) : (startScheduler n).Minds (.lenient n) := by
  have begins : ∀ interval : Value, (do
      let hasLoop : Bool ← request .hasLoop
      if !hasLoop then Routine.fail (.failure .noLoop)
      let task : Nat ← request (.spawn (.schedule n))
      change (Memory.onCoordinator n fun c => { c with scheduler := some task })
      let _ ← interval.fixed 0
      return true : Routine Bool).Minds (.lenient n) := by
    intro interval
    refine (Minds.request (c := .hasLoop) trivial).bind fun (hasLoop : Bool) => ?_
    cases hasLoop with
    | false => exact .fail _
    | true =>
      have spawns : (request (.spawn (.schedule n))).Minds (.lenient n) := .request trivial
      have writes : ∀ (task : Nat) (m : Memory), (Remit.lenient n).writes m
          (m.onCoordinator n fun c => { c with scheduler := some task }) := by
        intro task m
        exact Memory.part_onCoordinator (p := Coordinator.stages) fun _ => rfl
      refine spawns.bind fun task => (Minds.change (writes task)).bind fun _ => ?_
      exact (Minds.ofExcept _).bind fun _ => .pure _
  refine (Minds.view _).bind fun c => .ite (fun _ => .pure _) fun _ => ?_
  split
  · exact begins _
  · have asks : ∀ task, (request (.ended task)).Minds (.lenient n) := fun _ => .request trivial
    refine (asks _).bind fun (ended : Bool) => ?_
    cases ended with
    | false => exact .pure _
    | true => exact begins _

end Coordinator

namespace Crew

/-- The rules by which a timetable is kept. -/
def attending (ω : Type) (x : Timetable) : Rules ω where
  known := Manned x
  inv := Attended x
  may _ _ _ := True

variable {x : Timetable} {c c' : Crew ω} {i t : Nat} {k : Who} {h : Hand} {new : Diary} {brings : Job → Prop}
  {halts : Nat → Prop} {o : Origin}

/-- Everybody stands where they may, and somebody has nothing to do with the timetable. -/
structure Serves (x : Timetable) (k : Who) (o : Origin) (c : Crew ω) : Prop where
  origin : ∃ h, c.hand? k = some h ∧ h.origin = o
  placed : c.Placed x
  heeded : c.Heeded x none

/-- What somebody does who has nothing to do with the timetable. -/
theorem Serves.acts (serves : c.Serves x k o) (known : c.Manned x) (known' : c'.Manned x)
    (acts : Acts brings (fun _ => False) k new c c') (other : o ≠ x.loop) (calls : o ≠ x.stopping)
    (unbegun : ∀ entry ∈ new, entry.2 ≠ .begins x.stopping)
    (owns : ∀ t id h', k = .job t → o = .job (.ingest x.coordinator id) → c'.hand? k = some h' → h'.station ≠ .running →
      (∀ result, h'.station ≠ .over result) → c'.owner x.coordinator = some (.job t)) : c'.Serves x k o := by
  obtain ⟨h, found, origin⟩ := serves.origin
  obtain ⟨h', found', same, _⟩ := acts.follows.hands k h found
  have origin' := same.trans origin
  refine ⟨⟨h', found', origin'⟩, serves.placed.acts known known' acts (fun _ => False.elim) fun h'' found'' => ?_,
    serves.heeded.acts known acts (fun _ _ _ => unbegun) fun t h'' _ found'' loop => ?_⟩
  · cases Option.some.inj (found'.symm.trans found'')
    exact ⟨fun t _ loop => absurd (origin'.symm.trans loop) other,
      fun t id job ingests => owns t id h' job (origin'.symm.trans ingests) found',
      fun i _ _ stopping => absurd (origin'.symm.trans stopping) calls⟩
  · cases Option.some.inj (found'.symm.trans found'')
    exact absurd (origin'.symm.trans loop) other

theorem Serves.attended (serves : c.Serves x k o) : c.Attended x := ⟨serves.placed, fun _ => serves.heeded⟩

theorem Serves.again (serves : c.Serves x k o) (attended : c'.Attended x) (still : c'.Still) (since : c.Since k c') :
    c'.Serves x k o := by
  obtain ⟨h, found, origin⟩ := serves.origin
  obtain ⟨h', found', same, _⟩ := since.hands k h found
  exact ⟨⟨h', found', same.trans origin⟩, attended.placed, attended.heeded still⟩

/-- Callers who do not stop the schedule keep everybody where they are. -/
theorem Serves.caller_upkeep (w : World ω) (other : o ≠ x.loop) (calls : o ≠ x.stopping) :
    Upkeep w (attending ω x) (.caller i) (.lenient x.coordinator)
      fun c => ((attending ω x).known c ∧ ∃ h, c.hand? (.caller i) = some h ∧ h.station = .running) ∧
        c.Serves x (.caller i) o := by
  have stops : ∀ (c : Crew ω) request t, (Remit.lenient x.coordinator).requests request → c.Halting t request →
      (fun _ => False) t := by
    intro c request t may halted
    cases request with
    | cancel => exact may
    | _ => exact halted
  refine Upkeep.of_acts (fun _ _ _ _ => (trivial : (fun _ => True) _)) stops (fun _ _ => trivial) ?_ ?_ ?_ ?_
  · exact fun known _ => known.scheduled.furnished.outside
  · exact fun _ serves _ attended still since => serves.again attended still since
  · exact fun known known' serves acts _ unbegun =>
      serves.acts known known' acts other calls (fun entry inside => unbegun entry inside _) fun _ _ _ job => by cases job
  · exact fun _ serves => serves.attended

/-- A lock that stays locked is still that of its owner, if the owner starts no run. -/
theorem Acts.keepsOwner {m : Memory} {n : Nat} (acts : Acts (fun _ => False) halts k new c c') (recorded : c.Recorded m)
    (recorded' : c'.Recorded m) (locked : (c'.memory.coordinator n).run.locked = (c.memory.coordinator n).run.locked)
    (own : c.owner n = some k) : c'.owner n = some k := by
  have held : (c'.owner n).isSome = true := by
    rw [← recorded'.locked, locked, recorded.locked, own]
    rfl
  obtain ⟨j, own'⟩ := Option.isSome_iff_exists.mp held
  have kept : ∀ entry ∈ new, ∀ i id t, entry.2 = .starts (.ingest i id) t → .job t ≠ j := by
    intro entry inside i id t starts
    obtain ⟨absent, h', found, _⟩ := acts.starts entry inside _ t starts
    rcases acts.brought t h' found with ⟨h, found'⟩ | ⟨_, _, never⟩
    · cases absent.symm.trans found'
    · exact never.elim
  have same : Log.ownerFrom n (c.owner n) (pages k new) = some j := by
    rw [← own', Crew.owner, Crew.owner, acts.log, Log.ownerFrom_append]
  rcases Log.owner_pages kept same with rfl | before
  · exact own'
  · exact own'.trans (before.symm.trans own)

/-- A job that carries out a run has its lock, and leaves everybody else where they are. -/
theorem Serves.run_upkeep (w : World ω) (other : o ≠ x.loop) (calls : o ≠ x.stopping) :
    Upkeep w (attending ω x) (.job t) (.running x.coordinator) fun c =>
      ((attending ω x).known c ∧ ∃ h, c.hand? (.job t) = some h ∧ h.station = .running) ∧ c.Serves x (.job t) o ∧
        c.owner x.coordinator = some (.job t) := by
  have brings : ∀ request job, (Remit.running x.coordinator).requests request → request.Brings job → (fun _ => False) job := by
    intro request job may brings
    cases request <;> first | exact may | exact brings
  have stops : ∀ (c : Crew ω) request t, (Remit.running x.coordinator).requests request → c.Halting t request →
      (fun _ => False) t := by
    intro c request t may halted
    cases request <;> first | exact may | exact halted
  refine Upkeep.of_acts brings stops (fun _ _ => trivial) ?_ ?_ ?_ ?_
  · exact fun _ _ => trivial
  · exact fun known own known' attended still since =>
      ⟨own.1.again attended still since, (known'.regular.kept known'.recorded since known.recorded own.2).1⟩
  · intro c c' new known known' own acts memory unbegun
    have locked : (c'.memory.coordinator x.coordinator).run.locked = (c.memory.coordinator x.coordinator).run.locked := by
      rcases memory with same | writes
      · rw [same]
      · exact writes
    have owner := acts.keepsOwner known.recorded known'.recorded locked own.2
    refine ⟨own.1.acts known known' acts other calls (fun entry inside => unbegun entry inside _) ?_, owner⟩
    rintro t' id h' ⟨⟩ _ _ _ _
    exact owner
  · exact fun _ own => own.1.attended

/-- Whoever begins has nothing to do with the timetable, or keeps to it, or puts an end to it. -/
theorem Attended.begins (attended : c.Attended x) (known : c.Manned x) (still : c.Still) (found : c.hand? k = some h)
    (fresh : h.station = .fresh) (other : h.origin ≠ x.loop) (calls : h.origin ≠ x.stopping)
    (known' : (c.begin k h.origin).Manned x) : (c.begin k h.origin).Serves x k h.origin := by
  have serves : c.Serves x k h.origin := ⟨⟨h, found, rfl⟩, attended.placed, attended.heeded still⟩
  have acts : ActsAlone k _ c (c.begin k h.origin) := .begin (active_of found fresh nofun) h.origin
  refine serves.acts known known' acts other calls (by simpa using calls) fun t id h' _ _ found' idle => ?_
  have noted : (c.note k (.begins h.origin)).hand? k = some h := by cases k <;> exact found
  cases Option.some.inj (found'.symm.trans (hand?_self noted (Hand.moved .running)))
  exact absurd rfl idle

theorem Serves.closes {result : Except Fault Yield} (serves : c.Serves x k o) (known : c.Manned x) (found : c.hand? k = some h)
    (runs : h.station = .running) (other : o ≠ x.loop) (calls : o ≠ x.stopping) (once : o.repeats = false) :
    (attending ω x).Closes k result c := by
  intro known'
  have acts : ActsAlone k [] c (c.close k result) := .close (active_of found runs nofun) result
  refine ⟨(serves.acts known known' acts other calls (by simp) fun t id h' _ _ found' _ going => ?_).attended, trivial⟩
  obtain ⟨h₀, found₀, origin⟩ := serves.origin
  cases Option.some.inj (found.symm.trans found₀)
  cases Option.some.inj (found'.symm.trans (hand?_self found (Hand.closed result)))
  cases result with
  | ok last => exact absurd (by simp [Hand.closed, origin, once]) (going (.ok last))
  | error fault => exact absurd rfl (going (.error fault))

/-- Whoever carries out a run that was given to them leaves everybody else where they are, and frees the lock. -/
theorem Serves.drive (w : World ω) (other : o ≠ x.loop) (calls : o ≠ x.stopping) :
    Coordinator.Drive w (attending ω x) x.coordinator (.job t) (· = .outside)
      (fun c => (c.Manned x ∧ ∃ h, c.hand? (.job t) = some h ∧ h.station = .running) ∧ c.Serves x (.job t) o ∧
        c.owner x.coordinator = some (.job t))
      (fun c => (c.Manned x ∧ ∃ h, c.hand? (.job t) = some h ∧ h.station = .running) ∧ c.Serves x (.job t) o) := by
  have frame := Serves.run_upkeep (t := t) w other calls
  have asks : ∀ {c : Crew ω} (question : Ask), _ → (query question).Keeps w (attending ω x) (.job t) _ c := fun question =>
    (Minds.query (q := question) trivial).keeps frame
  exact {
    looks := fun own _ => ⟨own.2.1.attended, own⟩
    drives := fun {c} f own keeps => by
      have locked : ((c.onRun x.coordinator f).coordinator x.coordinator).run.locked =
          (c.memory.coordinator x.coordinator).run.locked := by
        rw [run_onRun own.1.1.present, keeps]
      exact frame.store own locked
    sources := fun own => own.1.1.scheduled.furnished.outside
    fetch := by rintro _ c endpoint rfl own; exact asks _ own
    build := by rintro _ c snapshot rfl own; exact asks _ own
    enrich := by rintro _ c rfl own; exact asks _ own
    vectorize := by rintro _ c rfl own; exact asks _ own
    release := by
      rintro c ⟨⟨known, h, found, runs⟩, serves, _⟩ known'
      have acts : ActsAlone (.job t) _ c _ :=
        .store (active_of found runs nofun) (c.onRun x.coordinator RunState.release)
      have serves' := serves.acts known known' acts other calls (by simp) fun _ _ h' _ _ found' idle => by
        cases Option.some.inj (found.symm.trans found')
        exact absurd runs idle
      exact ⟨serves'.attended, ⟨known', h, found, runs⟩, serves'⟩ }

/-- A job that was given a run carries it out, and leaves everybody else where they are. -/
theorem Attended.ingests {id : String} (w : World ω) (attended : c.Attended x) (known : c.Manned x) (still : c.Still)
    (found : c.hand? (.job t) = some h) (fresh : h.station = .fresh) (origin : h.origin = .job (.ingest x.coordinator id)) :
    (attending ω x).After (c.begin (.job t) h.origin)
      (h.origin.routine.Keeps w (attending ω x) (.job t) ((attending ω x).Closes (.job t)) (c.begin (.job t) h.origin)) := by
  intro known'
  have other : h.origin ≠ x.loop := by
    rw [origin]
    nofun
  have calls : h.origin ≠ x.stopping := by
    rw [origin]
    nofun
  have serves := attended.begins known still found fresh other calls known'
  have runs := hand?_self (c := c.note (.job t) (.begins h.origin)) (k := .job t) found (Hand.moved .running)
  have own : (c.begin (.job t) h.origin).owner x.coordinator = some (.job t) :=
    (Recorded.owner_snoc ..).trans (((known.regular.hands _ h found).ingest _ id origin).2 fresh)
  refine ⟨serves.attended, ?_⟩
  have routine : h.origin.routine = (do
      Coordinator.runStages x.coordinator id
      return .nothing) := by rw [origin]; rfl
  rw [routine]
  have drives := (Serves.drive (t := t) w other calls).runStages id ⟨⟨known', _, runs, rfl⟩, serves, own⟩
  have once : h.origin.repeats = false := by rw [origin]; rfl
  refine Keeps.bind drives ?_ ?_
  · rintro _ c' ⟨⟨known'', h', found', runs'⟩, serves'⟩
    exact serves'.closes known'' found' runs' other calls once
  · rintro _ c' ⟨⟨known'', h', found', runs'⟩, serves'⟩
    exact serves'.closes known'' found' runs' other calls once

/-- A caller who does not put an end to the timetable leaves everybody where they are. -/
theorem Attended.calls {p : Routine Yield} (w : World ω) (attended : c.Attended x) (known : c.Manned x) (still : c.Still)
    (found : c.hand? (.caller i) = some h) (fresh : h.station = .fresh) (origin : h.origin = .caller p)
    (calls : h.origin ≠ x.stopping) (minds : p.Minds (.lenient x.coordinator)) :
    (attending ω x).After (c.begin (.caller i) h.origin)
      (h.origin.routine.Keeps w (attending ω x) (.caller i) ((attending ω x).Closes (.caller i)) (c.begin (.caller i) h.origin)) := by
  intro known'
  have other : h.origin ≠ x.loop := by
    rw [origin]
    nofun
  have serves := attended.begins known still found fresh other calls known'
  have runs := hand?_self (c := c.note (.caller i) (.begins h.origin)) (k := .caller i) found (Hand.moved .running)
  have routine : h.origin.routine = p := by rw [origin]; rfl
  have once : h.origin.repeats = false := by rw [origin]; rfl
  refine ⟨serves.attended, ?_⟩
  rw [routine]
  refine (minds.keeps (Serves.caller_upkeep w other calls) ⟨⟨known', _, runs, rfl⟩, serves⟩).imp ?_
  rintro _ c' ⟨⟨known'', h', found', runs'⟩, serves'⟩
  exact serves'.closes known'' found' runs' other calls once

end Crew

end CodeAtlas
