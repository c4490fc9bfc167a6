import CodeAtlas.Proofs.Ingestion.Attending

namespace CodeAtlas

open Routine

variable {ω : Type}

/-- The name of a run is drawn on the spot. -/
def World.Draws (w : World ω) : Prop :=
  ∀ time world, ¬0 < (w.answer .drawId time world).delay ∧ ∃ drawn : Nat, (w.answer .drawId time world).reply = .ok drawn

/-- The seconds between two runs are what the coordinator is set to, and time passes meanwhile. -/
structure Timetable.Timed (x : Timetable) : Prop where
  number : ∃ few, Value.compare .atMost (x.memory.coordinator x.coordinator).interval (.int 0) = .ok few
  reads : (x.memory.coordinator x.coordinator).interval.toFloat = .ok x.seconds
  positive : ¬x.seconds ≤ 0

/-- What holds after a routine, unless somebody was cut short. -/
def Routine.Unless {α : Type} (holds cut : Crew ω → Prop) : Except Fault α → Crew ω → Prop
  | .ok _, c => holds c
  | .error fault, c => if fault.ordinary then holds c else cut c

namespace Routine

variable {α β : Type} {w : World ω} {R : Rules ω} {k : Who} {c : Crew ω} {holds holds' cut : Crew ω → Prop}

theorem Keeps.unless {p : Routine α} {f : α → Routine β} (keeps : p.Keeps w R k (Unless holds cut) c)
    (weaker : ∀ c', holds c' → holds' c') (rest : ∀ a c', holds c' → (f a).Keeps w R k (Unless holds' cut) c') :
    (p >>= f).Keeps w R k (Unless holds' cut) c := by
  refine keeps.bind rest fun fault c' after => ?_
  simp only [Unless] at after ⊢
  by_cases ordinary : fault.ordinary = true
  · rw [if_pos ordinary] at after ⊢
    exact weaker c' after
  · rw [if_neg ordinary] at after ⊢
    exact after

/-- Only whoever was cut short comes to a fault where ordinary ones are handled. -/
theorem Keeps.rescued {p : Routine α} {handler : Fault → Routine α} (keeps : p.Keeps w R k (Unless holds cut) c)
    (handles : ∀ fault c', holds c' → (handler fault).Keeps w R k (Ends (fun _ => holds) cut) c') :
    (p.rescue handler).Keeps w R k (Ends (fun _ => holds) cut) c := by
  refine keeps.andThen fun result c' after => ?_
  cases result with
  | ok => exact after
  | error fault =>
    simp only [Unless] at after
    dsimp only
    split
    next ordinary =>
      rw [if_pos ordinary] at after
      exact handles fault c' after
    next special =>
      rw [if_neg special] at after
      exact after

end Routine

namespace Crew

/-- It is the turn of a job that keeps to a timetable. -/
structure Keeping (x : Timetable) (t : Nat) (c : Crew ω) : Prop where
  known : c.Manned x
  turn : ∃ h, c.hand? (.job t) = some h ∧ h.station = .running ∧ h.origin = x.loop
  placed : c.Placed x
  heeded : c.Heeded x none

/-- Nobody has begun to put an end to it. -/
structure Unstopped (x : Timetable) (t : Nat) (c : Crew ω) : Prop extends c.Keeping x t where
  spared : c.Spared x t

/-- It carries out a run, for which it has taken the lock. -/
structure Driven (x : Timetable) (t : Nat) (before : Memory) (c : Crew ω) : Prop extends c.Unstopped x t where
  driving : c.Driving x t before
  own : c.owner x.coordinator = some (.job t)

/-- A round is over, and the next one is to begin. -/
structure Rested (x : Timetable) (t : Nat) (c : Crew ω) : Prop extends c.Unstopped x t where
  resumes : x.Resumes (c.Barred x t) (c.diary (.job t)) c.clock
  unowned : c.owner x.coordinator ≠ some (.job t)

/-- It is time for a run. -/
structure Due (x : Timetable) (t : Nat) (c : Crew ω) : Prop extends c.Unstopped x t where
  asleep : c.Asleep x t (.time c.clock)
  unowned : c.owner x.coordinator ≠ some (.job t)

/-- It was cut short in a run of which nothing has come; all that it has done since is to hear of it. -/
structure CutShort (x : Timetable) (t : Nat) (c : Crew ω) : Prop extends c.Keeping x t where
  own : c.owner x.coordinator = some (.job t)
  called : ¬c.Spared x t
  given : ∃ past start before after log heard question, x.Resumes (c.Barred x t) past start ∧
    c.diary (.job t) = past ++ (start, .begins x.loop) :: (start + x.seconds, .stores before after) ::
      (log ++ [(heard, .hears question (.error .cancelled))]) ∧
    (Deed.stores before after).Takes x.coordinator ∧ (∀ entry ∈ log, entry.2.Holds x.coordinator) ∧
    (before.coordinator x.coordinator).run.Open (c.memory.coordinator x.coordinator).run ∧
    ∀ i earlier later, c.CallsOff x i t earlier later →
      Log.entries (.job t) earlier = past ++ (start, .begins x.loop) :: (start + x.seconds, .stores before after) :: log ∧
        Log.entries (.job t) later = [(heard, .hears question (.error .cancelled))]

variable {x : Timetable} {c c' : Crew ω} {t : Nat} {h : Hand} {new : Diary} {before : Memory} {w : World ω}

/-- Whatever a job does that keeps to the timetable, everybody stands where they may if it does. -/
theorem Placed.loop_acts {h' : Hand} (placed : c.Placed x) (heeded : c.Heeded x none) (known : c.Manned x) (known' : c'.Manned x)
    (acts : ActsAlone (.job t) new c c') (found : c.hand? (.job t) = some h) (loop : h.origin = x.loop)
    (found' : c'.hand? (.job t) = some h') (stands : c'.Standing x t h'.station)
    (heeds : c'.Spared x t ∨ h'.station = .running ∨ ∃ result, h'.station = .over result) : c'.Placed x ∧ c'.Heeded x none := by
  obtain ⟨h'', found'', same, _⟩ := acts.follows.hands _ h found
  cases Option.some.inj (found'.symm.trans found'')
  refine ⟨placed.acts known known' acts (fun _ => False.elim) fun h'' found'' => ?_, heeded.acts known acts (by rintro j _ ⟨⟩) ?_⟩
  · cases Option.some.inj (found'.symm.trans found'')
    refine ⟨?_, ?_, by rintro i result ⟨⟩⟩
    · rintro _ ⟨⟩ _
      exact stands
    · rintro _ id ⟨⟩ ingests
      cases (same.trans loop).symm.trans ingests
  · rintro _ h'' ⟨⟩ found'' _
    cases Option.some.inj (found'.symm.trans found'')
    exact heeds

/-- Nobody has begun to put an end to a job that is not to be stopped. -/
theorem Attended.spared (attended : c.Attended x) (still : c.Still) (found : c.hand? (.job t) = some h) (going : h.stopped = false)
    (waits : ∀ result, h.station ≠ .over result) : c.Spared x t := by
  intro i earlier later stops
  rcases attended.heeded still i t earlier later h nofun stops found with stopped | runs | ⟨result, isOver⟩
  · cases going.symm.trans stopped
  · exact still _ h found runs
  · exact waits result isOver

/-- A job that keeps to the timetable takes its turn. -/
theorem Attended.keeping {h' : Hand} (attended : c.Attended x) (still : c.Still) (known : c.Manned x) (known' : c'.Manned x)
    (acts : ActsAlone (.job t) new c c') (found : c.hand? (.job t) = some h) (loop : h.origin = x.loop)
    (found' : c'.hand? (.job t) = some h') (runs : h'.station = .running)
    (keeps : x.Keeps (c'.Barred x t) (c'.diary (.job t))) : c'.Keeping x t := by
  obtain ⟨h'', found'', same, _⟩ := acts.follows.hands _ h found
  cases Option.some.inj (found'.symm.trans found'')
  obtain ⟨placed, heeded⟩ := attended.placed.loop_acts (attended.heeded still) known known' acts found loop found' (runs ▸ keeps)
    (.inr (.inl runs))
  exact ⟨known', ⟨h', found', runs, same.trans loop⟩, placed, heeded⟩

namespace Keeping

theorem attended (keeping : c.Keeping x t) : c.Attended x := ⟨keeping.placed, fun _ => keeping.heeded⟩

/-- Whatever a job does that keeps to the timetable, everybody stands where they may if it does. -/
theorem acts (keeping : c.Keeping x t) (acts : ActsAlone (.job t) new c c') (known' : c'.Manned x)
    (found : c'.hand? (.job t) = some h) (stands : c'.Standing x t h.station)
    (heeds : c'.Spared x t ∨ h.station = .running ∨ ∃ result, h.station = .over result) : c'.Placed x ∧ c'.Heeded x none := by
  obtain ⟨h₀, found₀, _, loop⟩ := keeping.turn
  exact keeping.placed.loop_acts keeping.heeded keeping.known known' acts found₀ loop found stands heeds

/-- The turn goes on. -/
theorem goesOn (keeping : c.Keeping x t) (does : ActsAlone (.job t) new c c') (known' : c'.Manned x)
    (found : c'.hand? (.job t) = some h) (runs : h.station = .running)
    (keeps : x.Keeps (c'.Barred x t) (c'.diary (.job t))) : c'.Keeping x t := by
  obtain ⟨h₀, found₀, _, loop⟩ := keeping.turn
  obtain ⟨h', found', same, _⟩ := does.follows.hands _ h₀ found₀
  cases Option.some.inj (found.symm.trans found')
  obtain ⟨placed, heeded⟩ := keeping.acts does known' found (runs ▸ keeps) (.inr (.inl runs))
  exact ⟨known', ⟨h, found, runs, same.trans loop⟩, placed, heeded⟩

/-- A job whose round is over begins again. -/
theorem again {last : Yield} (rested : c.Rested x t) : (attending ω x).Closes (.job t) (.ok last) c := by
  intro known'
  obtain ⟨h, found, runs, loop⟩ := rested.turn
  have acts : ActsAlone (.job t) [] c (c.close (.job t) (.ok last)) :=
    .close (active_of found runs nofun) _
  have fresh : (h.closed (.ok last)).station = .fresh := by
    have again : h.origin.repeats = true := by rw [loop]; rfl
    simp [Hand.closed, again]
  have spared : (c.close (.job t) (.ok last)).Spared x t := rested.spared.goesOn acts.log (by simp)
  have stands : (c.close (.job t) (.ok last)).Standing x t (h.closed (.ok last)).station := by
    rw [fresh]
    exact ⟨rested.resumes, rested.unowned, spared.untouched⟩
  obtain ⟨placed, heeded⟩ := rested.acts acts known' (hand?_self found _) stands (.inl spared)
  exact ⟨⟨placed, fun _ => heeded⟩, trivial⟩

/-- A job that has nothing left to do comes to its end. -/
theorem ends {fault : Fault} (keeping : c.Keeping x t) (finished : c.Finished x t) :
    (attending ω x).Closes (.job t) (.error fault) c := by
  intro known'
  obtain ⟨h, found, runs, _⟩ := keeping.turn
  have acts : ActsAlone (.job t) [] c (c.close (.job t) (.error fault)) :=
    .close (active_of found runs nofun) _
  have stands : (c.close (.job t) (.error fault)).Finished x t :=
    ⟨finished.keeps, finished.unowned, finished.called, finished.aborts⟩
  obtain ⟨placed, heeded⟩ := keeping.acts acts known' (hand?_self found _) stands (.inr (.inr ⟨_, rfl⟩))
  exact ⟨⟨placed, fun _ => heeded⟩, trivial⟩

end Keeping

namespace Driven

/-- What a job does in a run leaves it the lock. -/
theorem goesOn (driven : c.Driven x t before) (acts : ActsAlone (.job t) new c c')
    (known' : c'.Manned x) (found : c'.hand? (.job t) = some h) (runs : h.station = .running)
    (holds : ∀ entry ∈ new, entry.2.Holds x.coordinator)
    (locked : (c'.memory.coordinator x.coordinator).run.locked = (c.memory.coordinator x.coordinator).run.locked) :
    c'.Driven x t before := by
  have unbegun : ∀ entry ∈ new, entry.2 ≠ .begins x.stopping := by
    intro entry inside begins
    have held := holds entry inside
    rw [begins] at held
    exact held
  have driving := driven.driving.goesOn acts.log holds
  exact ⟨⟨driven.toKeeping.goesOn acts known' found runs driving.keeps, driven.spared.goesOn acts.log unbegun⟩, driving,
    acts.keepsOwner driven.known.recorded known'.recorded locked driven.own⟩

theorem locked (driven : c.Driven x t before) : (c.memory.coordinator x.coordinator).run.locked = true := by
  rw [driven.known.recorded.locked, driven.own]
  rfl

/-- What is noted of a run leaves it the lock. -/
theorem drive (driven : c.Driven x t before) {f : RunState → RunState} (keeps : ∀ r, (f r).locked = r.locked) :
    (attending ω x).After (c.store (.job t) (c.onRun x.coordinator f))
      ((c.store (.job t) (c.onRun x.coordinator f)).Driven x t before ∧
        ((c.store (.job t) (c.onRun x.coordinator f)).memory.coordinator x.coordinator).run =
          f (c.memory.coordinator x.coordinator).run) := by
  intro known'
  obtain ⟨h, found, runs, _⟩ := driven.turn
  have run : ((c.onRun x.coordinator f).coordinator x.coordinator).run = f (c.memory.coordinator x.coordinator).run :=
    run_onRun driven.known.present
  have locked := (congrArg RunState.locked run).trans (keeps _)
  have after := driven.goesOn (.store (active_of found runs nofun) _) known' found runs
    (List.forall_mem_singleton.mpr ⟨driven.locked, locked.trans driven.locked⟩) locked
  exact ⟨after.attended, after, run⟩

/-- An answer on the spot leaves a run the lock. -/
theorem exchange (driven : c.Driven x t before) (question : Ask) (r : Reaction ω question) :
    (attending ω x).After (c.exchange (.job t) question r) ((c.exchange (.job t) question r).Driven x t before) := by
  intro known'
  obtain ⟨h, found, runs, _⟩ := driven.turn
  have after := driven.goesOn (.exchange (active_of found runs nofun) question r) known' found runs
    (by simp [Deed.Holds]) rfl
  exact ⟨after.attended, after⟩

/-- A round is over once the lock is freed. -/
theorem release (driven : c.Driven x t before) : (attending ω x).After (c.store (.job t) (c.onRun x.coordinator RunState.release))
    ((c.store (.job t) (c.onRun x.coordinator RunState.release)).Rested x t) := by
  intro known'
  obtain ⟨h, found, runs, _⟩ := driven.turn
  have run : ((c.onRun x.coordinator RunState.release).coordinator x.coordinator).run =
      (c.memory.coordinator x.coordinator).run.release := run_onRun driven.known.present
  have acts : ActsAlone (.job t) _ c _ :=
    .store (active_of found runs nofun) (c.onRun x.coordinator RunState.release)
  have frees : (Deed.stores c.memory (c.onRun x.coordinator RunState.release)).Frees x.coordinator := ⟨driven.locked, run⟩
  have paced := driven.driving.ends frees acts.log
  have rested : (c.store (.job t) (c.onRun x.coordinator RunState.release)).Rested x t := by
    refine ⟨⟨driven.toKeeping.goesOn acts known' found runs (.whole paced), driven.spared.goesOn acts.log (by simp)⟩,
      ⟨_, paced, by rintro _ ⟨⟩; rfl⟩, ?_⟩
    rw [owner_store, Deed.passes, driven.locked, run]
    rintro ⟨⟩
  exact ⟨rested.attended, rested⟩

end Driven

namespace CutShort

/-- Somebody who was cut short frees the lock, and leaves the run as it was before. -/
theorem release (cut : c.CutShort x t) : (attending ω x).After (c.store (.job t) (c.onRun x.coordinator RunState.release))
    ((c.store (.job t) (c.onRun x.coordinator RunState.release)).Keeping x t ∧
      (c.store (.job t) (c.onRun x.coordinator RunState.release)).Finished x t) := by
  intro known'
  obtain ⟨h, found, runs, _⟩ := cut.turn
  obtain ⟨past, start, before, after, log, heard, question, resumes, wrote, takes, holds, opened, heardLast⟩ := cut.given
  obtain ⟨ended, paced, begins⟩ := resumes
  have locked : (c.memory.coordinator x.coordinator).run.locked = true := by
    rw [cut.known.recorded.locked, cut.own]
    rfl
  have run : ((c.onRun x.coordinator RunState.release).coordinator x.coordinator).run =
      (c.memory.coordinator x.coordinator).run.release := run_onRun cut.known.present
  have frees : (Deed.stores c.memory (c.onRun x.coordinator RunState.release)).Frees x.coordinator := ⟨locked, run⟩
  have acts : ActsAlone (.job t) _ c _ :=
    .store (active_of found runs nofun) (c.onRun x.coordinator RunState.release)
  have held : ∀ entry ∈ log ++ [(heard, .hears question (.error .cancelled))], entry.2.Holds x.coordinator :=
    List.forall_mem_append.mpr ⟨holds, List.forall_mem_singleton.mpr trivial⟩
  have whole : x.Keeps ((c.store (.job t) (c.onRun x.coordinator RunState.release)).Barred x t)
      ((c.store (.job t) (c.onRun x.coordinator RunState.release)).diary (.job t)) := by
    rw [diary_own acts.log, wrote, List.append_assoc]
    exact .whole (.ran (paced.mono (Barred.grown acts.log)) begins takes held frees)
  have keeping := cut.toKeeping.goesOn acts known' found runs whole
  refine ⟨keeping.attended, keeping, whole, ?_, fun spared => absurd (spared.old acts.log) cut.called, ?_⟩
  · rw [owner_store, Deed.passes, locked, run]
    rintro ⟨⟩
  · intro i earlier later stops _
    obtain ⟨since, rfl, old⟩ := stops.old acts.log (by simp)
    obtain ⟨first, last⟩ := heardLast i earlier since old
    have entries : Log.entries (.job t) earlier =
        (past ++ [(start, .begins x.loop)]) ++ (start + x.seconds, .stores before after) :: log := by
      rw [first, List.append_assoc]
      rfl
    exact ⟨before, .intro entries takes holds last rfl frees (run ▸ opened.release)⟩

end CutShort

/-- It carries out a run. -/
def AtWork (x : Timetable) (t : Nat) (c : Crew ω) : Prop := ∃ before, c.Driven x t before

/-- It carries out a run of which nothing has come so far. -/
def Pristine (x : Timetable) (t : Nat) (c : Crew ω) : Prop := ∃ before, c.Driven x t before ∧
  (before.coordinator x.coordinator).run.Open (c.memory.coordinator x.coordinator).run

/-- A job that waits in a stage goes on with the run, or hears that it was stopped. -/
theorem Attended.hears {question : Ask} {reply : Except Fault question.Reply} {due : Float}
    {next : Except Fault question.Reply → Routine Yield} (attended : c.Attended x) (still : c.Still) (known : c.Manned x)
    (found : c.hand? (.job t) = some h) (loop : h.origin = x.loop) (asking : h.station = .asking question reply due next) :
    (attending ω x).After (c.hear (.job t) question (h.heard reply))
      ((h.stopped = false → (c.hear (.job t) question (h.heard reply)).Pristine x t) ∧
        (h.stopped = true → (c.hear (.job t) question (h.heard reply)).CutShort x t)) := by
  intro known'
  have stands := (attended.placed.stands _ h found).keeps t rfl loop
  rw [asking] at stands
  obtain ⟨⟨before, driving, opened⟩, own, untouched⟩ := stands
  have acts : ActsAlone (.job t) _ c (c.hear (.job t) question (h.heard reply)) :=
    .hear (active_of found asking nofun) question _
  have holds : ∀ entry ∈ [(c.clock, Deed.hears question (h.heard reply))], entry.2.Holds x.coordinator :=
    List.forall_mem_singleton.mpr trivial
  have found' := hand?_self (c := c.note (.job t) (.hears question (h.heard reply))) (k := .job t) found Hand.resumed
  have driving' := driving.goesOn acts.log holds
  have keeping := attended.keeping still known known' acts found loop found' rfl driving'.keeps
  have own' := acts.keepsOwner known.recorded known'.recorded rfl own
  refine ⟨keeping.attended, fun going => ?_, fun stopped => ?_⟩
  · have spared := attended.spared still found going (by rw [asking]; exact nofun)
    exact ⟨before, ⟨⟨keeping, spared.goesOn acts.log (by simp)⟩, driving', own'⟩, opened⟩
  · obtain ⟨past, start, after, log, resumes, wrote, takes, held⟩ := driving
    have cancelled : h.heard reply = .error .cancelled := if_pos stopped
    refine ⟨keeping, own', fun spared => attended.placed.doomed t h found loop stopped (spared.old acts.log),
      past, start, before, after, log, c.clock, question, resumes.mono (Barred.grown acts.log), ?_, takes, held, opened,
      fun i earlier later stops => ?_⟩
    · rw [diary_own acts.log, wrote, List.append_assoc, cancelled]
      rfl
    · obtain ⟨since, rfl, old⟩ := stops.old acts.log (by simp)
      have nothing := untouched i earlier since old
      have whole := old.diary t
      rw [nothing, List.append_nil] at whole
      rw [Log.entries_append, nothing, Log.entries_pages, cancelled]
      exact ⟨whole.symm.trans wrote, rfl⟩

/-- Nothing will come of a run: the job was cut short, or a stage was cancelled or interrupted. -/
def Forsaken (x : Timetable) (t : Nat) (c : Crew ω) : Prop := c.CutShort x t ∨ c.AtWork x t ∧ c.Broken t

theorem Pristine.atWork (pristine : c.Pristine x t) : c.AtWork x t := pristine.imp fun _ => And.left

/-- Whatever a stage comes to, the run goes on or an ordinary fault is kept of it, unless the job is cut short or the stage
is cancelled or interrupted. -/
theorem Pristine.stage (w : World ω) (pristine : c.Pristine x t) (question : Ask) :
    (query question).Keeps w (attending ω x) (.job t) (Unless (Pristine x t) (Forsaken x t)) c := by
  obtain ⟨before, driven, opened⟩ := pristine
  obtain ⟨h, found, runs, loop⟩ := driven.turn
  have answered : ∀ {d : Crew ω} {time}, d.Pristine x t →
      (time, .hears question (c.reaction w question).reply) ∈ d.diary (.job t) →
      Unless (Pristine x t) (Forsaken x t) (c.reaction w question).reply d := by
    intro d time after inside
    cases reply : (c.reaction w question).reply with
    | ok => exact after
    | error fault =>
      simp only [Unless]
      split
      · exact after
      next special => exact .inr ⟨after.atWork, time, question, fault, reply ▸ inside, by simpa using special⟩
  refine ⟨trivial, fun _ known' => ?_, fun slow rest known' => ?_⟩
  · obtain ⟨inv, after⟩ := driven.exchange question (c.reaction w question) known'
    exact ⟨inv, answered ⟨before, after, opened⟩ (mem_diary.mpr (List.mem_append_right _ (List.mem_singleton.mpr rfl)))⟩
  · have acts : ActsAlone (.job t) _ c (c.ask (.job t) question (c.reaction w question) rest) :=
      .ask (active_of found runs nofun) question _ rest
    have asks : ∀ entry ∈ [(c.clock, Deed.asks question)], entry.2.Holds x.coordinator := List.forall_mem_singleton.mpr trivial
    have found₁ := hand?_self (c := { c.note (.job t) (.asks question) with world := (c.reaction w question).world }) (k := .job t)
      found (Hand.moved (.asking question (c.reaction w question).reply (c.clock + (c.reaction w question).delay) rest))
    have own := acts.keepsOwner driven.known.recorded known'.recorded rfl driven.own
    have spared := driven.spared.goesOn acts.log (by simp)
    obtain ⟨placed, heeded⟩ := driven.acts acts known' found₁
      ⟨⟨before, driven.driving.goesOn acts.log asks, opened⟩, own, spared.untouched⟩ (.inl spared)
    refine ⟨⟨placed, fun _ => heeded⟩, fun d h' known attended still since found' asking known'' => ?_⟩
    obtain ⟨h'', there, same, _⟩ := since.hands _ _ found₁
    cases Option.some.inj (found'.symm.trans there)
    obtain ⟨inv, goesOn, cut⟩ := attended.hears still known found' (same.trans loop) asking known''
    refine ⟨inv, ?_⟩
    show Unless (Pristine x t) (Forsaken x t) (h'.heard (c.reaction w question).reply) _
    cases stopped : h'.stopped with
    | false =>
      have heard : h'.heard (c.reaction w question).reply = (c.reaction w question).reply := if_neg (by simp [stopped])
      have after := goesOn stopped
      rw [heard] at after ⊢
      exact answered after (mem_diary.mpr (List.mem_append_right _ (List.mem_singleton.mpr rfl)))
    | true =>
      have heard : h'.heard (c.reaction w question).reply = .error .cancelled := if_pos stopped
      have after := cut stopped
      rw [heard] at after ⊢
      exact .inl after

/-- It has nothing left to do. -/
def Done (x : Timetable) (t : Nat) (c : Crew ω) : Prop := c.Keeping x t ∧ c.Finished x t

/-- Nothing was to be given up by a job to which nobody has put an end. -/
theorem Rested.finished (rested : c.Rested x t) (broken : c.Broken t) : c.Finished x t where
  keeps := by
    obtain ⟨_, paced, _⟩ := rested.resumes
    exact .whole paced
  unowned := rested.unowned
  called _ := broken
  aborts _ _ _ stops := absurd stops (rested.spared _ _ _)

theorem Forsaken.release (forsaken : c.Forsaken x t) :
    (attending ω x).After (c.store (.job t) (c.onRun x.coordinator RunState.release))
      ((c.store (.job t) (c.onRun x.coordinator RunState.release)).Done x t) := by
  rcases forsaken with cut | ⟨⟨before, driven⟩, time, question, fault, inside, special⟩
  · exact cut.release
  · intro known'
    obtain ⟨inv, rested⟩ := driven.release known'
    refine ⟨inv, rested.toKeeping, rested.finished ⟨time, question, fault, ?_, special⟩⟩
    exact mem_diary.mpr (List.mem_append_left _ (mem_diary.mp inside))

end Crew

end CodeAtlas
