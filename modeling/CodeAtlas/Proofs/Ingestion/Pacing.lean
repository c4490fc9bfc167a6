import CodeAtlas.Proofs.Ingestion.Calling
import CodeAtlas.Proofs.Ingestion.Keeping

namespace CodeAtlas

open Routine

variable {ω : Type}

namespace Crew

/-- A round has begun just now. -/
structure Begun (x : Timetable) (t : Nat) (c : Crew ω) : Prop extends c.Unstopped x t where
  asleep : c.Asleep x t (.time (c.clock + x.seconds))
  unowned : c.owner x.coordinator ≠ some (.job t)

variable {x : Timetable} {c c' : Crew ω} {t : Nat} {h : Hand} {new : Diary} {before : Memory} {w : World ω}

theorem Asleep.keeps {await : Await} (asleep : c.Asleep x t await) :
    x.Keeps (c.Barred x t) (c.diary (.job t)) := by
  obtain ⟨past, start, resumes, wrote, _⟩ := asleep
  rw [wrote]
  exact .asleep resumes

theorem Pristine.enter (w : World ω) (pristine : c.Pristine x t) (stage : Stage) :
    (Coordinator.onRun x.coordinator (RunState.enter stage)).Keeps w (attending ω x) (.job t)
      (Unless (Pristine x t) (Forsaken x t)) c := by
  obtain ⟨before, driven, opened⟩ := pristine
  refine keeps_change.mpr fun known => ?_
  obtain ⟨inv, after, run⟩ := driven.drive (f := RunState.enter stage) (fun _ => rfl) known
  exact ⟨inv, before, after, by rw [run]; exact ⟨opened.lastError, opened.finishedAt, opened.duration⟩⟩

theorem AtWork.note (w : World ω) (atWork : c.AtWork x t) {f : RunState → RunState} (keeps : ∀ r, (f r).locked = r.locked)
    (cut : Crew ω → Prop) : (Coordinator.onRun x.coordinator f).Keeps w (attending ω x) (.job t)
      (Ends (fun _ => AtWork x t) cut) c := by
  obtain ⟨before, driven⟩ := atWork
  refine keeps_change.mpr fun known => ?_
  obtain ⟨inv, after, _⟩ := driven.drive (f := f) keeps known
  exact ⟨inv, before, after⟩

/-- The stages one after the other: whoever is stopped meanwhile gives the run up before anything comes of it. -/
theorem Pristine.stages (w : World ω) (pristine : c.Pristine x t) (endpoint : Value) (start : Float) :
    (Coordinator.stagesInOrder x.coordinator .outside endpoint start).Keeps w (attending ω x) (.job t)
      (Unless (AtWork x t) (Forsaken x t)) c := by
  have weaker : ∀ c' : Crew ω, c'.Pristine x t → c'.AtWork x t := fun _ => Pristine.atWork
  refine (pristine.enter w .fetch).unless weaker fun _ c₁ pristine => ?_
  refine (pristine.stage w (.fetchSnapshot endpoint)).unless weaker fun found c₂ pristine => ?_
  cases found with
  | none => exact pristine.atWork
  | some snapshot =>
    dsimp only
    split
    · exact pristine.atWork
    · refine (pristine.enter w .build).unless weaker fun _ c₃ pristine => ?_
      refine (pristine.stage w (.perform .build)).unless weaker fun _ c₄ pristine => ?_
      refine (pristine.enter w .enrich).unless weaker fun _ c₅ pristine => ?_
      refine (pristine.stage w (.perform .enrich)).unless weaker fun _ c₆ pristine => ?_
      refine (pristine.enter w .vectorize).unless weaker fun _ c₇ pristine => ?_
      refine (pristine.stage w (.perform .vectorize)).unless weaker fun _ c₈ pristine => ?_
      obtain ⟨before, driven, _⟩ := pristine
      refine keeps_now_bind fun _ => ⟨driven.attended, keeps_change.mpr fun known => ?_⟩
      obtain ⟨inv, after, _⟩ := driven.drive (f := RunState.complete start c₈.clock) (fun _ => rfl) known
      exact ⟨inv, before, after⟩

/-- A run: a round is over after it, or it was given up. -/
theorem Driven.run (w : World ω) (driven : c.Driven x t before)
    (taken : (c.memory.coordinator x.coordinator).run = (before.coordinator x.coordinator).run.acquire) (id : String) :
    (Coordinator.runStages x.coordinator id).Keeps w (attending ω x) (.job t) (Ends (fun _ => Rested x t) (Done x t)) c := by
  unfold Coordinator.runStages
  refine keeps_now_bind fun _ => ⟨driven.attended, ?_⟩
  rw [Coordinator.onRun, keeps_change_bind]
  intro known
  obtain ⟨inv, driven, run⟩ := driven.drive (f := RunState.start id c.clock) (fun _ => rfl) known
  have pristine : (c.store (.job t) (c.onRun x.coordinator (RunState.start id c.clock))).Pristine x t :=
    ⟨before, driven, by rw [run, taken]; exact ⟨rfl, rfl, rfl⟩⟩
  refine ⟨inv, ?_⟩
  rw [keeps_view_bind, driven.known.scheduled.furnished.outside]
  refine ((pristine.stages w _ _).rescued fun fault c' atWork =>
    atWork.note w (f := RunState.fail fault) (fun _ => rfl) _).andThen fun result c' after => ?_
  cases result with
  | ok =>
    obtain ⟨before, driven⟩ := after
    exact keeps_change_bind.mpr driven.release
  | error => exact keeps_change_bind.mpr (Forsaken.release after)

/-- Where somebody else has the lock, the round is over. -/
theorem Due.skips (due : c.Due x t) (locked : (c.memory.coordinator x.coordinator).run.locked = true) : c.Rested x t where
  toUnstopped := due.toUnstopped
  unowned := due.unowned
  resumes := by
    obtain ⟨past, start, ⟨ended, paced, begins⟩, wrote, same⟩ := due.asleep
    have now : c.clock = start + x.seconds := Await.time.inj same
    have held : (c.owner x.coordinator).isSome = true := due.known.recorded.locked _ ▸ locked
    obtain ⟨k, own⟩ := Option.isSome_iff_exists.mp held
    have other : k ≠ .job t := by
      rintro rfl
      exact due.unowned own
    rw [wrote, now]
    have barred : c.Barred x t (past ++ [(start, .begins x.loop)]) := ⟨c.log, [], k, (List.append_nil _).symm, wrote, own, other⟩
    exact ⟨_, .skipped paced begins barred, fun time ended => Option.some.inj ended⟩

/-- Where nobody has the lock, the job takes it for a run. -/
theorem Due.takes (due : c.Due x t) (free : (c.memory.coordinator x.coordinator).run.locked = false) :
    (attending ω x).After (c.store (.job t) (c.onRun x.coordinator RunState.acquire))
      ((c.store (.job t) (c.onRun x.coordinator RunState.acquire)).Driven x t c.memory ∧
        ((c.store (.job t) (c.onRun x.coordinator RunState.acquire)).memory.coordinator x.coordinator).run =
          (c.memory.coordinator x.coordinator).run.acquire) := by
  intro known'
  obtain ⟨h, found, runs, _⟩ := due.turn
  obtain ⟨past, start, resumes, wrote, same⟩ := due.asleep
  have now : c.clock = start + x.seconds := Await.time.inj same
  have run : ((c.onRun x.coordinator RunState.acquire).coordinator x.coordinator).run =
      (c.memory.coordinator x.coordinator).run.acquire := run_onRun due.known.present
  have acts : ActsAlone (.job t) _ c _ :=
    .store (active_of found runs nofun) (c.onRun x.coordinator RunState.acquire)
  have driving : (c.store (.job t) (c.onRun x.coordinator RunState.acquire)).Driving x t c.memory := by
    refine ⟨past, start, c.onRun x.coordinator RunState.acquire, [], resumes.mono (Barred.grown acts.log), ?_, ⟨free, run⟩, by simp⟩
    rw [diary_own acts.log, wrote, ← now, List.append_assoc]
    rfl
  have own : (c.store (.job t) (c.onRun x.coordinator RunState.acquire)).owner x.coordinator = some (.job t) := by
    rw [owner_store, Deed.passes, free, run]
    rfl
  have driven : (c.store (.job t) (c.onRun x.coordinator RunState.acquire)).Driven x t c.memory :=
    ⟨⟨due.toKeeping.goesOn acts known' found runs driving.keeps, due.spared.goesOn acts.log (by simp)⟩, driving, own⟩
  exact ⟨driven.attended, driven, run⟩

/-- A run is named on the spot. -/
theorem Driven.names (draws : w.Draws) (driven : c.Driven x t before)
    (taken : (c.memory.coordinator x.coordinator).run = (before.coordinator x.coordinator).run.acquire) :
    Coordinator.drawRunId.Keeps w (attending ω x) (.job t) (Ends (fun _ c' => c'.Driven x t before ∧
      (c'.memory.coordinator x.coordinator).run = (before.coordinator x.coordinator).run.acquire) (Done x t)) c := by
  obtain ⟨prompt, drawn, reply⟩ := draws c.clock c.world
  refine ⟨trivial, fun _ known' => ?_, fun slow => absurd slow prompt⟩
  obtain ⟨inv, after⟩ := driven.exchange .drawId (c.reaction w .drawId) known'
  have named : (c.reaction w .drawId).reply = .ok drawn := reply
  refine ⟨inv, ?_⟩
  rw [named]
  exact ⟨after, taken⟩

/-- A run is tried when it is due; a round is over after it, or the job has nothing left to do. -/
theorem Due.runPipeline (draws : w.Draws) (due : c.Due x t) :
    (Coordinator.runPipeline x.coordinator).Keeps w (attending ω x) (.job t) (Ends (fun _ => Rested x t) (Done x t)) c := by
  have tries : (Coordinator.tryAcquire x.coordinator).Keeps w (attending ω x) (.job t) (Ends (fun taken c' =>
      taken = true ∧ (∃ before, c'.Driven x t before ∧
        (c'.memory.coordinator x.coordinator).run = (before.coordinator x.coordinator).run.acquire) ∨
      taken = false ∧ c'.Rested x t) (Done x t)) c := by
    unfold Coordinator.tryAcquire
    rw [keeps_view_bind]
    split
    next locked => exact .inr ⟨rfl, due.skips locked⟩
    next free =>
      rw [Coordinator.onRun, keeps_change_bind]
      intro known
      obtain ⟨inv, driven⟩ := due.takes (Bool.eq_false_iff.mpr free) known
      exact ⟨inv, .inl ⟨rfl, c.memory, driven⟩⟩
  refine tries.bind ?_ fun _ _ done => done
  rintro taken c₁ (⟨rfl, before, driven, run⟩ | ⟨rfl, rested⟩)
  · refine (driven.names draws run).bind ?_ fun _ _ done => done
    rintro id c₂ ⟨driven, run⟩
    exact driven.run w run id
  · exact rested

theorem Aloof.same (aloof : c.Aloof x t) (log : c'.log = c.log) : c'.Aloof x t where
  unowned := by simpa only [Crew.owner, log] using aloof.unowned
  untouched := by simpa only [Untouched, CallsOff, log] using aloof.untouched

/-- A job that waits for the next run to be due goes on when it is, or hears that it was stopped. -/
theorem Attended.wakes {await : Await} {resume : Waited → Routine Yield} {waited : Waited} (attended : c.Attended x)
    (still : c.Still) (known : c.Manned x) (found : c.hand? (.job t) = some h) (loop : h.origin = x.loop)
    (waiting : h.station = .waiting await resume) (wakes : c.Wakes (.job t) h await waited c') : (attending ω x).After (c'.goOn (.job t))
      (Ends (fun _ => Due x t) (Done x t) (Agenda.overOnly waited) (c'.goOn (.job t))) := by
  intro known'
  have stands := (attended.placed.stands _ h found).keeps t rfl loop
  rw [waiting] at stands
  obtain ⟨asleep, aloof⟩ := stands
  have acts : ActsAlone (.job t) [] c (c'.goOn (.job t)) :=
    wakes.acts (active_of found waiting nofun) found
  have resumed := hand?_self ((wakes.hands _).trans found) Hand.resumed
  have log : (c'.goOn (.job t)).log = c.log := acts.log.trans (List.append_nil _)
  have diary : (c'.goOn (.job t)).diary (.job t) = c.diary (.job t) := (diary_own acts.log).trans (List.append_nil _)
  have keeps : x.Keeps ((c'.goOn (.job t)).Barred x t) ((c'.goOn (.job t)).diary (.job t)) :=
    diary ▸ asleep.keeps.mono (Barred.grown acts.log)
  have keeping := attended.keeping still known known' acts found loop resumed rfl keeps
  refine ⟨keeping.attended, ?_⟩
  unfold Crew.Wakes at wakes
  split at wakes
  next stopped =>
    obtain ⟨rfl, rfl⟩ := wakes
    have called := attended.placed.doomed t h found loop stopped
    exact ⟨keeping, (aloof.same log).finished known' keeps fun spared => called (spared.old acts.log)⟩
  next going =>
    obtain ⟨past, start, resumes, wrote, rfl⟩ := asleep
    obtain ⟨due, rfl, rfl⟩ := wakes
    have spared := attended.spared still found (by simpa using going) (by rw [waiting]; exact nofun)
    have unstopped : (c'.goOn (.job t)).Unstopped x t := ⟨keeping, spared.goesOn acts.log (by simp)⟩
    refine ⟨unstopped, ⟨past, start, resumes, diary.trans wrote, ?_⟩, (aloof.same log).unowned⟩
    rw [acts.clock, due]

/-- The seconds between two runs pass, unless the job is stopped. -/
theorem Begun.pauses (w : World ω) (timed : x.Timed) (begun : c.Begun x t) :
    (pauseFor (c.memory.coordinator x.coordinator).interval).Keeps w (attending ω x) (.job t)
      (Ends (fun _ => Due x t) (Done x t)) c := by
  obtain ⟨few, compares⟩ := timed.number
  obtain ⟨h, found, runs, loop⟩ := begun.turn
  unfold pauseFor
  rw [begun.known.scheduled.furnished.interval, compares, timed.reads]
  refine ⟨fun _ _ granted => granted.elim, ?_⟩
  rintro _ _ c rest ⟨rfl, rfl, rfl⟩
  rw [if_neg timed.positive]
  intro known'
  have rests : ActsAlone (.job t) [] _ _ := (Acts.refl (active_of found runs nofun)).onHand found
    (Hand.moved_origin (.waiting (.time (c.clock + x.seconds)) rest)) (Hand.moved_group _) fun _ => id
  have found' := hand?_self found (Hand.moved (.waiting (.time (c.clock + x.seconds)) rest))
  have aloof : (c.rest (.job t) (.time (c.clock + x.seconds)) rest).Aloof x t :=
    Aloof.same ⟨begun.unowned, begun.spared.untouched⟩ rfl
  obtain ⟨placed, heeded⟩ := begun.acts rests known' found' ⟨begun.asleep, aloof⟩ (.inl begun.spared)
  refine ⟨⟨placed, fun _ => heeded⟩, fun d h' waited d' known attended still since there waiting wakes => ?_⟩
  obtain ⟨h'', there', same, _⟩ := since.hands _ _ found'
  cases Option.some.inj (there.symm.trans there')
  exact attended.wakes still known there (same.trans loop) waiting wakes

/-- A round of the timetable: the seconds pass, and a run is tried. -/
theorem Begun.round (timed : x.Timed) (draws : w.Draws) (begun : c.Begun x t) :
    (Coordinator.scheduleRound x.coordinator).Keeps w (attending ω x) (.job t) (Ends (fun _ => Rested x t) (Done x t)) c := by
  unfold Coordinator.scheduleRound
  rw [keeps_view_bind]
  exact (begun.pauses w timed).bind (fun _ _ due => due.runPipeline draws) fun _ _ done => done

/-- A job that keeps to the timetable begins each round as soon as the one before it is over. -/
theorem Attended.rounds (timed : x.Timed) (draws : w.Draws) (attended : c.Attended x) (known : c.Manned x) (still : c.Still)
    (found : c.hand? (.job t) = some h) (fresh : h.station = .fresh) (going : h.stopped = false) (loop : h.origin = x.loop) :
    (attending ω x).After (c.begin (.job t) h.origin)
      (h.origin.routine.Keeps w (attending ω x) (.job t) ((attending ω x).Closes (.job t)) (c.begin (.job t) h.origin)) := by
  rw [loop]
  intro known'
  have stands := (attended.placed.stands _ h found).keeps t rfl loop
  rw [fresh] at stands
  obtain ⟨resumes, aloof⟩ := stands
  have begins : ActsAlone (.job t) _ c (c.begin (.job t) x.loop) :=
    .begin (active_of found fresh nofun) x.loop
  have found' := hand?_self (c := c.note (.job t) (.begins x.loop)) (k := .job t) found (Hand.moved .running)
  have asleep : (c.begin (.job t) x.loop).Asleep x t (.time (c.clock + x.seconds)) :=
    ⟨c.diary (.job t), c.clock, resumes.mono (Barred.grown begins.log), diary_own begins.log, rfl⟩
  have spared := attended.spared still found going (by rw [fresh]; exact nofun)
  have keeping := attended.keeping still known known' begins found loop found' rfl asleep.keeps
  have unowned : (c.begin (.job t) x.loop).owner x.coordinator ≠ some (.job t) := by
    rw [show (c.begin (.job t) x.loop).owner x.coordinator = c.owner x.coordinator from Recorded.owner_snoc ..]
    exact aloof.unowned
  have begun : (c.begin (.job t) x.loop).Begun x t :=
    ⟨⟨keeping, spared.goesOn begins.log (by simp [Timetable.loop, Timetable.stopping])⟩, asleep, unowned⟩
  refine ⟨keeping.attended, ?_⟩
  refine Keeps.bind (begun.round timed draws) ?_ ?_
  · intro _ c' rested
    exact Keeping.again rested
  · rintro fault c' ⟨keeping, finished⟩
    exact keeping.ends finished

end Crew

end CodeAtlas
