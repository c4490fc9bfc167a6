import CodeAtlas.Proofs.Ingestion.Orderly

namespace CodeAtlas

variable {l : Ledger} {n : Nat} {k : Who} {s : Scene} {c c' : Course}

theorem OnTurn.ordered (on : OnTurn l n k s c) : Ordered l n s := ⟨c, on.orderly⟩

theorem OnTurn.aside (on : OnTurn l n k s c) (free : c.owner ≠ some k) : Aside l n k s := ⟨c, on, free⟩

theorem Aside.ordered (aside : Aside l n k s) : Ordered l n s := by
  obtain ⟨c, on, _⟩ := aside
  exact on.ordered

/-- A task on its turn moves to where it fits, which no longer is its turn. -/
theorem OnTurn.move (on : OnTurn l n k s c) {stand : Stand}
    (fits : ∀ t : Task, c.FitsStand n k (t.moved stand)) : Orderly l n (s.onTask k (Task.moved stand)) c :=
  on.orderly.onTask (fun _ => rfl) fun t _ => fits t

theorem Orderly.resumed (orderly : Orderly l n s c) (single : Pool.Single ⟨s, none⟩) {t : Task}
    (found : s.task? k = some t) : OnTurn l n k (s.onTask k (Task.moved .running)) c where
  orderly := orderly.onTask (fun _ => rfl) fun _ _ => trivial
  running := ⟨_, Scene.onTask_found found k _, by simp [Task.moved]⟩
  alone := by
    intro j t found running
    obtain ⟨rfl, _⟩ | ⟨_, old⟩ := Scene.onTask_cases found
    · rfl
    · obtain ⟨_, ⟨⟩⟩ := single j t old running

/-- Whoever is on its turn fits every course. -/
theorem OnTurn.fits (on : OnTurn l n k s c) (c' : Course) {t : Task} (found : s.task? k = some t) :
    c'.FitsStand n k t := by
  obtain ⟨t', found', running⟩ := on.running
  cases Option.some.inj (found.symm.trans found')
  simp only [Course.FitsStand, running]

/-- All tasks fit a course that, as the one before, belongs to nobody but the one on its turn. -/
theorem OnTurn.fits_all (on : OnTurn l n k s c) (before : ∀ j, j ≠ k → c.owner ≠ some j)
    (after : ∀ j, j ≠ k → c'.owner ≠ some j) (j : Who) (t : Task) (found : s.task? j = some t) :
    c'.FitsStand n j t := by
  by_cases same : j = k
  · subst same
    exact on.fits c' found
  · exact (on.orderly.fits j t found).other (before j same) (after j same)

theorem OnTurn.note (on : OnTurn l n k s c) {deed : Deed} (silent : deed.event n = none) :
    OnTurn l n k (s.note k deed) c := ⟨on.orderly.note silent, on.running, on.alone⟩

theorem Aside.note (aside : Aside l n k s) {deed : Deed} (silent : deed.event n = none) : Aside l n k (s.note k deed) := by
  obtain ⟨c, on, free⟩ := aside
  exact ⟨c, on.note silent, free⟩

/-- What is done beside the coordinators means nothing for their runs. -/
theorem Deed.event_beside {m m' : Memory} (n : Nat) (same : m'.coordinators = m.coordinators) :
    (Deed.stores m m').event n = none := by
  have locked : m'.locked n = m.locked n := by rw [Memory.locked, Memory.coordinator, same]; rfl
  simp only [Deed.event, locked]
  cases m.locked n <;> rfl

theorem Aside.store_beside (aside : Aside l n k s) {m : Memory} (same : m.coordinators = s.memory.coordinators) :
    Aside l n k (s.store k m) := by
  obtain ⟨c, on, free⟩ := aside
  have coordinator : m.coordinator n = s.memory.coordinator n := by rw [Memory.coordinator, same, Memory.coordinator]
  have noted := on.note (Deed.event_beside n same)
  refine ⟨c, ⟨⟨?_, ?_, noted.orderly.along, ?_, ?_, ?_, ?_, noted.orderly.owner, noted.orderly.known,
    noted.orderly.fits⟩, noted.running, noted.alone⟩, free⟩
  · exact same ▸ on.orderly.present
  · exact coordinator ▸ on.orderly.outside
  · exact (congrArg (·.run.locked) coordinator).trans on.orderly.locked
  · exact coordinator ▸ on.orderly.stage
  · exact coordinator ▸ noted.orderly.told
  · exact coordinator ▸ on.orderly.scheduler

theorem OnTurn.event (on : OnTurn l n k s c) {deed : Deed} {event : RunEvent}
    (means : deed.event n = some event) (takes : c.Takes k event c') (owns : c.owner = some k)
    (owns' : c'.owner = some k) (shows : c'.Shows (s.memory.coordinator n).run.stage)
    (tells : c'.Tells (s.memory.coordinator n).run ((l.after (runEvents n s.trace)).enter event)) :
    OnTurn l n k (s.note k deed) c' := by
  have orderly := on.orderly.event means takes owns owns' shows tells fun t found => on.fits c' found
  exact ⟨orderly, on.running, on.alone⟩

theorem OnTurn.store_quiet (on : OnTurn l n k s c) {g : Coordinator → Coordinator}
    (stages : ∀ x, (g x).stages = x.stages) (locked : ∀ x, (g x).run.locked = x.run.locked)
    (shows : c.Shows (g (s.memory.coordinator n)).run.stage)
    (tells : c.Tells (g (s.memory.coordinator n)).run (l.after (runEvents n s.trace)))
    (scheduler : ∀ j, (g (s.memory.coordinator n)).scheduler = some j →
      ∃ t, s.task? (.job j) = some t ∧ t.origin.isRun n = false) :
    OnTurn l n k (s.store k (s.memory.onCoordinator n g)) c :=
  ⟨on.orderly.store_quiet stages locked shows tells scheduler, on.running, on.alone⟩

/-- The owner is in the middle of its turn, and may change what is shown and noted. -/
structure Course.Busy (c : Course) : Prop where
  shows : ∀ stage, c.Shows stage
  tells : ∀ r l, c.Tells r l

theorem Course.busy_held : (held k).Busy := ⟨fun _ => trivial, fun _ _ => trivial⟩

theorem Course.busy_begun : (begun k).Busy := ⟨fun _ => trivial, fun _ _ => trivial⟩

theorem Course.busy_answered {question : Ask} {reply : Except Fault question.Reply} :
    (answered k question reply).Busy := ⟨fun _ => trivial, fun _ _ => trivial⟩

theorem OnTurn.record (on : OnTurn l n k s c) {f : RunState → RunState} (locked : ∀ r, (f r).locked = r.locked)
    (busy : c.Busy) :
    OnTurn l n k (s.store k (s.memory.onCoordinator n fun x => { x with run := f x.run })) c :=
  on.store_quiet (fun _ => rfl) (fun _ => locked _) (busy.shows _) (busy.tells _ _) on.orderly.scheduler

/-- The record of the runs changes, and nothing happens to them. -/
theorem OnTurn.recorded (on : OnTurn l n k s c) {f : RunState → RunState} (locked : ∀ r, (f r).locked = r.locked) :
    let s' := s.store k (s.memory.onCoordinator n fun x => { x with run := f x.run })
    (s'.memory.coordinator n).run = f (s.memory.coordinator n).run ∧ runEvents n s'.trace = runEvents n s.trace :=
  ⟨congrArg Coordinator.run (on.orderly.coordinator_store k _), on.orderly.runEvents_quiet k fun _ => locked _⟩

/-- Where the run of somebody else is under way, it is one that waits. -/
theorem OnTurn.told (on : OnTurn l n k s c) (free : c.owner ≠ some k) : Told l n s := by
  have tells := on.orderly.told
  have rests : ∀ j t, c.owner = some j → s.task? j = some t → t.stand ≠ .running := fun j t owns found running =>
    free (on.alone j t found running ▸ owns)
  obtain rfl | ⟨j, t, rfl, _⟩ | ⟨j, t, question, next, rfl, _⟩ := on.orderly.settled rests <;> exact tells

/-- The lock is taken where it is free. -/
theorem OnTurn.acquire (on : OnTurn l n k s .idle) :
    OnTurn l n k (s.store k (s.memory.onCoordinator n fun x => { x with run := x.run.acquire })) (.held k) := by
  refine ⟨on.orderly.store ?_ (fun _ => rfl) rfl trivial trivial on.orderly.scheduler ?_ ?_, on.running, on.alone⟩
  · rw [on.orderly.runEvents_store]
    exact .next on.orderly.along .took
  · rintro j ⟨⟩
    obtain ⟨t, found, _⟩ := on.running
    exact ⟨t, found⟩
  · exact on.fits_all (fun j _ => by simp [Course.owner]) fun j other => by simp [Course.owner, Ne.symm other]

/-- The owner frees the lock where the course allows it. -/
theorem OnTurn.release (on : OnTurn l n k s c) (takes : c.Takes k .freed .idle) (told : Told l n s) :
    OnTurn l n k (s.store k (s.memory.onCoordinator n fun x => { x with run := x.run.release })) .idle := by
  have owns : c.owner = some k := by cases takes <;> rfl
  refine ⟨on.orderly.store ?_ (fun _ => rfl) rfl rfl ?_ on.orderly.scheduler nofun ?_, on.running, on.alone⟩
  · rw [on.orderly.runEvents_store, owns]
    exact .next on.orderly.along takes
  · rw [on.orderly.runEvents_store, owns, l.after_append]
    exact told
  · exact on.fits_all (fun j other => by simp [owns, Ne.symm other]) fun j _ => by simp [Course.owner]

/-- A task that is added has no part in the run under way. -/
theorem Orderly.joined (orderly : Orderly l n s c) {s' : Scene} {j : Who} {origin : Origin}
    (joined : s.Joined s' j origin) (known : origin.Known n j) (other : origin.isRun n = false) : Orderly l n s' c where
  present := by rw [joined.memory]; exact orderly.present
  outside := by rw [joined.memory]; exact orderly.outside
  along := by rw [joined.trace]; exact orderly.along
  locked := by rw [joined.memory]; exact orderly.locked
  stage := by rw [joined.memory]; exact orderly.stage
  told := by rw [joined.memory, joined.trace]; exact orderly.told
  scheduler := by
    intro i at_i
    rw [joined.memory] at at_i
    obtain ⟨t, found, notRun⟩ := orderly.scheduler i at_i
    exact ⟨t, joined.old found, notRun⟩
  owner := by
    intro i owns
    obtain ⟨t, found⟩ := orderly.owner i owns
    exact ⟨t, joined.old found⟩
  known := by
    intro i t found
    rcases joined.cases found with old | ⟨rfl, rfl⟩
    · exact orderly.known i t old
    · exact known
  fits := by
    intro i t found
    rcases joined.cases found with old | ⟨rfl, rfl⟩
    · exact orderly.fits i t old
    · simp only [Course.FitsStand, Task.new, other, Bool.false_eq_true, if_false]
      intro owns
      obtain ⟨t, found⟩ := orderly.owner i owns
      cases joined.free.symm.trans found

theorem OnTurn.alone_joined (on : OnTurn l n k s c) {deed : Deed} {s' : Scene} {j : Who} {origin : Origin}
    (joined : (s.note k deed).Joined s' j origin) (i : Who) (t : Task) (found : s'.task? i = some t)
    (running : t.stand = .running) : i = k := by
  rcases joined.cases found with old | ⟨rfl, rfl⟩
  · exact on.alone i t old running
  · cases running

theorem OnTurn.start (on : OnTurn l n k s c) (job : Job) (known : (Origin.job job).Known n (.job s.jobs.length))
    (other : (Origin.job job).isRun n = false) : OnTurn l n k (s.start k job) c := by
  have silent : (Deed.starts job s.jobs.length).event n = none := by
    cases job <;> simp_all [Deed.event, Origin.isRun]
  obtain ⟨t, found, running⟩ := on.running
  have joined := s.start_joined k job
  exact ⟨(on.orderly.note silent).joined joined known other, ⟨t, joined.old found, running⟩, on.alone_joined joined⟩

/-- The one who took the lock gives it to a new job. -/
theorem OnTurn.give (on : OnTurn l n k s (.held k)) (id : String)
    (unset : (s.memory.coordinator n).run.stage = none) (told : Told l n s) :
    OnTurn l n k (s.start k (.ingest n id)) (.given (.job s.jobs.length)) := by
  obtain ⟨t, found, running⟩ := on.running
  have joined := s.start_joined k (.ingest n id)
  have means : (Deed.starts (.ingest n id) s.jobs.length).event n = some (.gave s.jobs.length) := by
    simp [Deed.event]
  refine ⟨⟨on.orderly.present, on.orderly.outside, ?_, on.orderly.locked, unset, ?_, ?_, ?_, ?_, ?_⟩,
    ⟨t, joined.old found, running⟩, on.alone_joined joined⟩
  · rw [joined.trace, Scene.note, runEvents_append, means]
    exact .next on.orderly.along .gave
  · rw [joined.trace, Scene.note, runEvents_append, means, l.after_append]
    exact told
  · intro j at_j
    obtain ⟨t, found, notRun⟩ := on.orderly.scheduler j at_j
    exact ⟨t, joined.old found, notRun⟩
  · rintro j ⟨⟩
    exact ⟨_, joined.new⟩
  · intro j t found
    rcases joined.cases found with old | ⟨rfl, rfl⟩
    · exact on.orderly.known j t old
    · exact .ingest
  · intro j t' found'
    rcases joined.cases found' with old | ⟨rfl, rfl⟩
    · have unowned : (Course.given (.job s.jobs.length)).owner ≠ some j := by
        rintro ⟨⟩
        cases joined.free.symm.trans old
      by_cases same : j = k
      · subst same
        exact on.fits _ old
      · exact (on.orderly.fits j t' old).other (by simp [Course.owner, Ne.symm same]) unowned
    · simp [Course.FitsStand, Origin.isRun, Task.new]

/-- Only what is no run is ever stopped before it has begun. -/
theorem OnTurn.cancel (on : OnTurn l n k s c) {j : Who}
    (target : ∃ t, s.task? j = some t ∧ t.origin.isRun n = false) :
    OnTurn l n k (s.onTask j Task.cancelled) c := by
  obtain ⟨t, found, notRun⟩ := target
  refine ⟨on.orderly.onTask Task.cancelled_origin fun t' found' => ?_, ?_, fun i t' found' running => ?_⟩
  · cases Option.some.inj (found.symm.trans found')
    have fits := on.orderly.fits j t found
    unfold Task.cancelled
    split
    next fresh => simpa [Course.FitsStand, fresh, notRun] using fits
    next => exact fits
  · obtain ⟨t', found', running⟩ := on.running
    refine ⟨_, Scene.onTask_found found' j _, ?_⟩
    split
    · exact t'.cancelled_running.mpr running
    · exact running
  · obtain ⟨rfl, old, at_i, rfl⟩ | ⟨_, same⟩ := Scene.onTask_cases found'
    · exact on.alone _ old at_i (old.cancelled_running.mp running)
    · exact on.alone i t' same running

theorem Deed.event_hears (n : Nat) {question : Ask} {stage : Stage} (isStage : question.stage? = some stage)
    (reply : Except Fault question.Reply) :
    (Deed.hears question reply).event n = some (.heard question reply) := by
  cases question with
  | fetchSnapshot | perform => cases reply <;> rfl
  | _ => cases isStage

/-- The memory is the same, and nothing has happened to the runs. -/
structure Scene.Quiet (n : Nat) (s s' : Scene) : Prop where
  memory : s'.memory = s.memory
  events : runEvents n s'.trace = runEvents n s.trace

theorem Scene.Quiet.refl (n : Nat) (s : Scene) : s.Quiet n s := ⟨rfl, rfl⟩

theorem Scene.Quiet.note {s' : Scene} (quiet : s.Quiet n s') {deed : Deed} (silent : deed.event n = none) :
    s.Quiet n (s'.note k deed) := by
  refine ⟨quiet.memory, ?_⟩
  rw [Scene.note, runEvents_append, silent, ← quiet.events]
  exact List.append_nil _

theorem Scene.Quiet.told {s' : Scene} (quiet : s.Quiet n s') (told : Told l n s) : Told l n s' := by
  rw [Told, quiet.memory, quiet.events]
  exact told

/-- A stage was answered, and what is noted of the runs is what they had come to before. -/
def Heard (l : Ledger) (n : Nat) (question : Ask) (reply : Except Fault question.Reply) (s : Scene) : Prop :=
  l.after (runEvents n s.trace) = (s.memory.coordinator n).run.ledger.enter (.heard question reply)

namespace Routine

variable {α β : Type}

theorem obeys_view_bind {inv : Scene → Prop} {f : Memory → α} {g : α → Routine β}
    {post : Except Fault β → Scene → Prop} :
    (view f >>= g).Obeys inv k post s ↔ (g (f s.memory)).Obeys inv k post s := Iff.rfl

theorem obeys_change {inv : Scene → Prop} {f : Memory → Memory} {post : Except Fault Unit → Scene → Prop} :
    (change f).Obeys inv k post s ↔
      inv (s.store k (f s.memory)) ∧ post (.ok ()) (s.store k (f s.memory)) := Iff.rfl

theorem obeys_change_bind {inv : Scene → Prop} {f : Memory → Memory} {g : Unit → Routine β}
    {post : Except Fault β → Scene → Prop} :
    (change f >>= g).Obeys inv k post s ↔
      inv (s.store k (f s.memory)) ∧ (g ()).Obeys inv k post (s.store k (f s.memory)) := Iff.rfl

/-- Looking at the clock, or at how far others are, changes nothing. -/
theorem obeys_now_bind {inv : Scene → Prop} {f : Float → Routine β} {post : Except Fault β → Scene → Prop}
    (holds : inv s) (rest : ∀ time, (f time).Obeys inv k post s) : (now >>= f).Obeys inv k post s := by
  refine ⟨trivial, ?_, nofun⟩
  rintro _ _ ⟨⟨time, rfl⟩, rfl⟩
  exact ⟨holds, rest time⟩

theorem obeys_hasLoop_bind {inv : Scene → Prop} {f : Bool → Routine β} {post : Except Fault β → Scene → Prop}
    (holds : inv s) (rest : ∀ answer, (f answer).Obeys inv k post s) :
    (request .hasLoop >>= f).Obeys inv k post s := by
  refine ⟨trivial, ?_, nofun⟩
  rintro _ _ ⟨⟨answer, rfl⟩, rfl⟩
  exact ⟨holds, rest answer⟩

theorem obeys_ended_bind {inv : Scene → Prop} {j : Nat} {f : Bool → Routine β}
    {post : Except Fault β → Scene → Prop} (holds : inv s) (rest : ∀ answer, (f answer).Obeys inv k post s) :
    (request (.ended j) >>= f).Obeys inv k post s := by
  refine ⟨trivial, ?_, nofun⟩
  rintro _ _ ⟨⟨answer, rfl⟩, rfl⟩
  exact ⟨holds, rest answer⟩

theorem obeys_lift_bind {inv : Scene → Prop} {result : Except Fault α} {f : α → Routine β}
    {post : Except Fault β → Scene → Prop} (value : ∀ a, (f a).Obeys inv k post s)
    (fault : ∀ e, post (.error e) s) : ((liftM result : Routine α) >>= f).Obeys inv k post s := by
  cases result with
  | ok a => exact value a
  | error e => exact fault e

theorem obeys_spawn_bind {inv : Scene → Prop} {job : Job} {f : Nat → Routine β}
    {post : Except Fault β → Scene → Prop} (holds : inv (s.start k job))
    (rest : (f s.jobs.length).Obeys inv k post (s.start k job)) :
    (request (.spawn job) >>= f).Obeys inv k post s := by
  refine ⟨trivial, ?_, nofun⟩
  rintro _ _ ⟨rfl, rfl⟩
  exact ⟨holds, rest⟩

theorem obeys_dispatch_bind {inv : Scene → Prop} {job : Job} {f : Nat → Routine β}
    {post : Except Fault β → Scene → Prop} (holds : inv (s.start k job))
    (rest : (f s.jobs.length).Obeys inv k post (s.start k job)) :
    (request (.dispatch job) >>= f).Obeys inv k post s := by
  refine ⟨trivial, ?_, nofun⟩
  rintro _ _ ⟨rfl, rfl⟩
  exact ⟨holds, rest⟩

theorem obeys_cancel_bind {inv : Scene → Prop} {j : Nat} {f : Unit → Routine β}
    {post : Except Fault β → Scene → Prop} (other : k ≠ .job j) (holds : inv (s.onTask (.job j) Task.cancelled))
    (rest : (f ()).Obeys inv k post (s.onTask (.job j) Task.cancelled)) :
    (request (.cancel j) >>= f).Obeys inv k post s := by
  refine ⟨other, ?_, nofun⟩
  rintro _ _ ⟨rfl, rfl⟩
  exact ⟨holds, rest⟩

/-- A wait of somebody who has no part in the run: whatever the others do, this stays so. -/
theorem obeys_wait {request : Control} {post : Except Fault request.Reply → Scene → Prop}
    (waits : request.waits = true) (aside : Aside l n k s)
    (rest : ∀ reply s', Aside l n k s' → post reply s') :
    (Routine.request request).Obeys (Ordered l n) k post s := by
  obtain ⟨c, on, free⟩ := aside
  refine ⟨request.plain_of_waits k waits, ?_, fun _ => ⟨fun next => ⟨c, on.move fun _ => free⟩, ?_⟩⟩
  · intro reply s' granted
    exact absurd waits (by simp [granted.at_once])
  · rintro _ reply s' _ ⟨c', orderly⟩ single _ ⟨t, next, found, waiting⟩
    have unowned : c'.owner ≠ some k := by
      have fits := orderly.fits k t found
      simpa only [Course.FitsStand, waiting] using fits
    have on' := orderly.resumed single found
    exact ⟨on'.ordered, rest reply _ (on'.aside unowned)⟩

/-- The call of a stage that is due. Whatever the others do while it is awaited, the run stays where it
is, and goes on with the answer. -/
theorem obeys_stage {question : Ask} {stage : Stage} {post : Except Fault question.Reply → Scene → Prop}
    (isStage : question.stage? = some stage) (on : OnTurn l n k s c)
    (takes : c.Takes k (.called question) (.calling k question))
    (shows : (s.memory.coordinator n).run.stage = some stage)
    (told : (s.memory.coordinator n).run.ledger = (l.after (runEvents n s.trace)).enter (.called question))
    (rest : ∀ reply s', OnTurn l n k s' (.answered k question reply) → Heard l n question reply s' → post reply s') :
    (query question).Obeys (Ordered l n) k post s := by
  have owns : c.owner = some k := by cases takes <;> rfl
  have means : (Deed.asks question).event n = some (.called question) := by simp [Deed.event, isStage]
  have slow : question.prompt = false := by cases question <;> first | rfl | cases isStage
  refine ⟨fun prompt => absurd prompt (by simp [slow]), fun _ => ⟨fun next => ?_, ?_⟩⟩
  · have called := on.event means takes owns rfl (shows.trans isStage.symm) told
    exact ⟨_, called.move fun t => by simp [Course.FitsStand, Task.moved, isStage]⟩
  · rintro _ reply s' _ ⟨c', orderly⟩ single _ ⟨t, next, found, asking⟩ _
    have fits := orderly.fits k t found
    simp only [Course.FitsStand, asking, isStage, Option.isSome_some, if_true] at fits
    subst fits
    have heard := Deed.event_hears n isStage reply
    have running := orderly.resumed single found
    have on' := running.event heard .heard rfl rfl trivial trivial
    refine ⟨on'.ordered, rest reply _ on' ?_⟩
    have before : (s'.memory.coordinator n).run.ledger = l.after (runEvents n s'.trace) := orderly.told
    have events : runEvents n (s'.hear k question reply).trace = runEvents n s'.trace ++ [(k, .heard question reply)] := by
      have noted : (s'.hear k question reply).trace = s'.trace ++ [(k, .hears question reply)] := rfl
      rw [noted, runEvents_append, heard]
      rfl
    rw [Heard, events, l.after_append]
    exact congrArg (Ledger.enter · _) before.symm

theorem obeys_drawId_bind {f : Nat → Routine β} {post : Except Fault β → Scene → Prop} (on : OnTurn l n k s c)
    (rest : ∀ drawn s', OnTurn l n k s' c → s.Quiet n s' → (f drawn).Obeys (Ordered l n) k post s') :
    (query .drawId >>= f).Obeys (Ordered l n) k post s := by
  refine ⟨fun _ => ?_, nofun⟩
  rintro _ ⟨drawn, rfl⟩
  have on' : OnTurn l n k (s.exchange k .drawId (.ok drawn)) c := (on.note rfl).note rfl
  exact ⟨on'.ordered, rest drawn _ on' (((Scene.Quiet.refl n s).note rfl).note rfl)⟩

/-- A worker is made on the spot, or refused to the one who took the lock. -/
theorem obeys_newWorker {name : String} {post : Except Fault Unit → Scene → Prop}
    (on : OnTurn l n k s (.held k)) (told : Told l n s)
    (made : ∀ s', OnTurn l n k s' (.held k) → s.Quiet n s' → post (.ok ()) s')
    (refused : ∀ fault s', fault.ordinary = true → OnTurn l n k s' (.refused k) → post (.error fault) s') :
    (query (.newWorker name)).Obeys (Ordered l n) k post s := by
  refine ⟨fun _ reply admitted => ?_, nofun⟩
  have asked : OnTurn l n k (s.note k (.asks (.newWorker name))) (.held k) := on.note rfl
  cases reply with
  | ok answer =>
    have on' : OnTurn l n k (s.exchange k (.newWorker name) (.ok answer)) (.held k) := asked.note rfl
    exact ⟨on'.ordered, made _ on' (((Scene.Quiet.refl n s).note rfl).note rfl)⟩
  | error fault =>
    have on' : OnTurn l n k (s.exchange k (.newWorker name) (.error fault)) (.refused k) :=
      asked.event rfl .refused rfl rfl trivial (((Scene.Quiet.refl n s).note rfl).told told)
    exact ⟨on'.ordered, refused fault _ admitted on'⟩

end Routine

end CodeAtlas
