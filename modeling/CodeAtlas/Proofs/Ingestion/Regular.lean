import CodeAtlas.Proofs.Ingestion.Owner

namespace CodeAtlas

/-- The stage that somebody has shown, after a deed of theirs. -/
def Deed.shows (n : Nat) (stage : Option Stage) : Deed → Option Stage
  | .stores before after =>
    if (after.coordinator n).run.stage = (before.coordinator n).run.stage then stage
    else (after.coordinator n).run.stage
  | _ => stage

/-- The coordinator of the facade is there, and it has one while it is connected. -/
structure Memory.Joined (m : Memory) : Prop where
  there : ∀ n, m.facade.coordinator = some n → n < m.coordinators.length
  joined : m.facade.connected = true → m.facade.coordinator.isSome = true

/-- Work that is done for somebody who waits for all of it. -/
def Origin.isPart : Origin → Prop
  | .job (.describe ..) => True
  | .job (.search ..) => True
  | _ => False

namespace Log

/-- The stage of a run that somebody has entered and not left. -/
def stageBy (n : Nat) (k : Who) (stage : Option Stage) (log : List Noted) : Option Stage :=
  log.foldl (fun stage noted => if noted.2.1 = k then noted.2.2.shows n stage else stage) stage

theorem stageBy_append (n : Nat) (k : Who) (stage : Option Stage) (log log' : List Noted) :
    stageBy n k stage (log ++ log') = stageBy n k (stageBy n k stage log) log' := List.foldl_append

theorem stageBy_quiet (n : Nat) (k : Who) (stage : Option Stage) {log : List Noted}
    (quiet : ∀ noted ∈ log, noted.2.2.isQuiet = true) : stageBy n k stage log = stage := by
  induction log with
  | nil => rfl
  | cons noted rest ih =>
    have later := ih fun other inside => quiet other (List.mem_cons_of_mem _ inside)
    have first := quiet _ (List.mem_cons_self ..)
    obtain ⟨time, j, deed⟩ := noted
    have same : (if j = k then deed.shows n stage else stage) = stage := by
      cases deed with
      | stores => cases first
      | _ => exact ite_self stage
    calc stageBy n k stage ((time, j, deed) :: rest)
        = stageBy n k (if j = k then deed.shows n stage else stage) rest := rfl
      _ = stageBy n k stage rest := by rw [same]
      _ = stage := later

end Log

namespace Crew

variable {ω : Type}

def stageBy (c : Crew ω) (n : Nat) (k : Who) : Option Stage := Log.stageBy n k none c.log

/-- What holds of somebody at all times. Runs that were given to a job are never stopped, and belong to the
job when it begins; who waits for several jobs waits for parts of work. -/
structure Allots (c : Crew ω) (k : Who) (h : Hand) : Prop where
  ingest : ∀ n id, h.origin = .job (.ingest n id) → h.stopped = false ∧ (h.station = .fresh → c.owner n = some k)
  schedule : ∀ n, h.origin = .job (.schedule n) → n < c.memory.coordinators.length
  waits : ∀ members resume, h.station = .waiting (.members members) resume →
    ∀ m ∈ members, ∃ h', c.hand? (.job m) = some h' ∧ h'.origin.isPart

/-- What holds of a crew at all times: runs are changed by their owners alone, who show their stages. -/
structure Regular (c : Crew ω) : Prop where
  lawful : ∀ n, Log.Lawful n none c.log
  shown : ∀ n k, c.stageBy n k = if c.owner n = some k then (c.memory.coordinator n).run.stage else none
  unshown : ∀ n, c.owner n = none → (c.memory.coordinator n).run.stage = none
  hands : ∀ k h, c.hand? k = some h → c.Allots k h
  schedulers : ∀ n t, (c.memory.coordinator n).scheduler = some t →
    ∃ h m, c.hand? (.job t) = some h ∧ h.origin = .job (.schedule m)
  facade : c.memory.Joined
  growing : ∀ noted ∈ c.log, noted.2.2.Grows

variable {c c' : Crew ω} {j k : Who} {h h' : Hand}

theorem Allots.mono (allots : c.Allots k h) (follows : Follows j c c')
    (owner : ∀ n, h.station = .fresh → c.owner n = some k → c'.owner n = some k)
    (length : c.memory.coordinators.length ≤ c'.memory.coordinators.length) (origin : h'.origin = h.origin)
    (stopped : h'.stopped = true → h.stopped = true ∨ ∀ n id, h.origin ≠ .job (.ingest n id))
    (fresh : h'.station = .fresh → h.station = .fresh ∨ ∀ n id, h.origin ≠ .job (.ingest n id))
    (waits : ∀ members resume, h'.station = .waiting (.members members) resume →
      h.station = .waiting (.members members) resume ∨
        ∀ m ∈ members, ∃ h', c'.hand? (.job m) = some h' ∧ h'.origin.isPart) : c'.Allots k h' where
  ingest := by
    intro n id ingests
    rw [origin] at ingests
    obtain ⟨going, due⟩ := allots.ingest n id ingests
    refine ⟨Bool.eq_false_iff.mpr fun stop => ?_, fun begins => ?_⟩
    · rcases stopped stop with was | other
      · rw [going] at was
        cases was
      · exact other n id ingests
    · rcases fresh begins with was | other
      · exact owner n was (due was)
      · exact absurd ingests (other n id)
  schedule := fun n schedules => Nat.lt_of_lt_of_le (allots.schedule n (origin ▸ schedules)) length
  waits := by
    intro members resume waiting m inside
    rcases waits members resume waiting with was | new
    · obtain ⟨part, found, isPart⟩ := allots.waits members resume was m inside
      obtain ⟨part', found', origin', _⟩ := follows.hands _ part found
      exact ⟨part', found', origin' ▸ isPart⟩
    · exact new m inside

/-- What somebody may put into the memory. -/
structure Allows (c : Crew ω) (k : Who) (m : Memory) : Prop where
  runs : ∀ n, (Deed.stores c.memory m).Allowed n k (c.owner n)
  length : c.memory.coordinators.length ≤ m.coordinators.length
  schedulers : ∀ n t, (m.coordinator n).scheduler = some t → (c.memory.coordinator n).scheduler = some t ∨
    ∃ h i, c.hand? (.job t) = some h ∧ h.origin = .job (.schedule i)
  facade : m.Joined

theorem owner_store (c : Crew ω) (n : Nat) (k : Who) (m : Memory) :
    (c.store k m).owner n = (Deed.stores c.memory m).passes n k (c.owner n) := Recorded.owner_snoc ..

theorem stageBy_store (c : Crew ω) (n : Nat) (j k : Who) (m : Memory) : (c.store k m).stageBy n j =
    if k = j then (Deed.stores c.memory m).shows n (c.stageBy n j) else c.stageBy n j := List.foldl_append

/-- A store that leaves a run as it is leaves it to its owner. -/
theorem owner_store_same {n : Nat} {m : Memory} (same : (m.coordinator n).run = (c.memory.coordinator n).run) :
    (c.store k m).owner n = c.owner n := by
  rw [owner_store, Deed.passes, same]
  cases (c.memory.coordinator n).run.locked <;> rfl

theorem stageBy_store_same {n : Nat} {m : Memory}
    (same : (m.coordinator n).run.stage = (c.memory.coordinator n).run.stage) :
    (c.store k m).stageBy n j = c.stageBy n j := by
  rw [stageBy_store, Deed.shows, if_pos same, ite_self]

namespace Regular

/-- A step that leaves the memory and the locks alone, and moves nobody but one. -/
theorem quiet (regular : c.Regular) (follows : Follows k c c') {new : List Noted} (log : c'.log = c.log ++ new)
    (still : ∀ noted ∈ new, noted.2.2.isQuiet = true) (memory : c'.memory = c.memory)
    (hands : ∀ j h', c'.hand? j = some h' → (∀ n, c'.owner n = c.owner n) → c'.Allots j h') : c'.Regular := by
  have owner : ∀ n, c'.owner n = c.owner n := by
    intro n
    rw [Crew.owner, log, Log.ownerFrom_append, Log.ownerFrom_quiet n _ still]
    rfl
  have stage : ∀ n k, c'.stageBy n k = c.stageBy n k := by
    intro n k
    rw [Crew.stageBy, log, Log.stageBy_append, Log.stageBy_quiet n k _ still]
    rfl
  refine ⟨fun n => ?_, fun n k => ?_, fun n free => ?_, fun j h' found => hands j h' found owner, fun n t runs => ?_, ?_, ?_⟩
  · rw [log, Log.lawful_append]
    exact ⟨regular.lawful n, Log.lawful_quiet n _ still⟩
  · rw [stage, owner, memory]
    exact regular.shown n k
  · rw [memory]
    exact regular.unshown n (owner n ▸ free)
  · obtain ⟨h, m, found, origin⟩ := regular.schedulers n t (memory ▸ runs)
    obtain ⟨h', found', origin', _⟩ := follows.hands _ h found
    exact ⟨h', m, found', origin'.trans origin⟩
  · rw [memory]
    exact regular.facade
  · rw [log]
    exact List.forall_mem_append.mpr ⟨regular.growing, fun noted inside => Log.grows_quiet (still noted inside)⟩

/-- What may become of somebody who moves on. -/
structure Moves (c : Crew ω) (h h' : Hand) : Prop where
  origin : h'.origin = h.origin
  stopped : h'.stopped = true → h.stopped = true
  fresh : h'.station = .fresh → h.station = .fresh ∨ ∀ n id, h.origin ≠ .job (.ingest n id)
  waits : ∀ members resume, h'.station = .waiting (.members members) resume →
    h.station = .waiting (.members members) resume ∨
      ∀ m ∈ members, ∃ h', c.hand? (.job m) = some h' ∧ h'.origin.isPart

/-- Somebody moves on, and nothing else is different that matters. -/
theorem moves (regular : c.Regular) (follows : Follows k c c') {new : List Noted} (log : c'.log = c.log ++ new)
    (still : ∀ noted ∈ new, noted.2.2.isQuiet = true) (memory : c'.memory = c.memory) {f : Hand → Hand}
    (hands : ∀ j, c'.hand? j = (c.onHand k f).hand? j) (moves : ∀ h, c.hand? k = some h → Moves c h (f h)) : c'.Regular := by
  have length : c.memory.coordinators.length ≤ c'.memory.coordinators.length :=
    Nat.le_of_eq (congrArg (·.coordinators.length) memory.symm)
  refine regular.quiet follows log still memory fun j h' found owner => ?_
  rw [hands] at found
  obtain ⟨rfl, h, old, rfl⟩ | ⟨_, old⟩ := onHand_cases found
  · have moved := moves h old
    refine (regular.hands _ h old).mono follows (fun n _ own => (owner n).trans own) length moved.origin
      (fun stop => .inl (moved.stopped stop)) moved.fresh fun members resume waiting => ?_
    refine (moved.waits members resume waiting).imp id fun parts m inside => ?_
    obtain ⟨part, found, isPart⟩ := parts m inside
    obtain ⟨part', found', origin', _⟩ := follows.hands _ part found
    exact ⟨part', found', origin' ▸ isPart⟩
  · exact (regular.hands j h' old).mono follows (fun n _ own => (owner n).trans own) length rfl .inl .inl fun _ _ => .inl

theorem same (h : Hand) : Moves c h h := ⟨rfl, id, .inl, fun _ _ => .inl⟩

theorem exchange (regular : c.Regular) (k : Who) (question : Ask) (r : Reaction ω question) :
    (c.exchange k question r).Regular :=
  regular.moves (.exchange k question r c) (List.append_assoc ..) (by simp [Deed.isQuiet]) rfl (f := id)
    (fun j => by rw [onHand_id]; cases j <;> rfl) fun h _ => same h

theorem ask (regular : c.Regular) (k : Who) (question : Ask) (r : Reaction ω question)
    (next : Except Fault question.Reply → Routine Yield) : (c.ask k question r next).Regular := by
  refine regular.moves (f := Hand.moved (.asking question r.reply (c.clock + r.delay) next)) (.ask k question r next c)
    rfl (by simp [Deed.isQuiet]) rfl (fun j => by cases j <;> rfl) fun h _ => ?_
  exact ⟨rfl, id, by rintro ⟨⟩, by rintro _ _ ⟨⟩⟩

theorem hear (regular : c.Regular) (k : Who) (question : Ask) (heard : Except Fault question.Reply) :
    (c.hear k question heard).Regular :=
  regular.moves (.hear k question heard c) rfl (by simp [Deed.isQuiet]) rfl (f := Hand.resumed)
    (fun j => by cases j <;> rfl) fun _ _ => ⟨rfl, by rintro ⟨⟩, by rintro ⟨⟩, by rintro _ _ ⟨⟩⟩

theorem begin (regular : c.Regular) (k : Who) (origin : Origin) : (c.begin k origin).Regular :=
  regular.moves (.begin k origin c) rfl (by simp [Deed.isQuiet]) rfl (f := Hand.moved .running)
    (fun j => by cases j <;> rfl) fun _ _ => ⟨rfl, id, by rintro ⟨⟩, by rintro _ _ ⟨⟩⟩

theorem goOn (regular : c.Regular) (k : Who) : (c.goOn k).Regular :=
  regular.moves (.goOn k c) (List.append_nil _).symm (by simp) rfl (f := Hand.resumed) (fun _ => rfl)
    fun _ _ => ⟨rfl, by rintro ⟨⟩, by rintro ⟨⟩, by rintro _ _ ⟨⟩⟩

/-- Waiting, for jobs that are parts of work if it is for jobs beside each other. -/
theorem rest (regular : c.Regular) (k : Who) (await : Await) (resume : Waited → Routine Yield)
    (parts : ∀ members, await = .members members → ∀ m ∈ members, ∃ h', c.hand? (.job m) = some h' ∧ h'.origin.isPart) :
    (c.rest k await resume).Regular := by
  refine regular.moves (.rest k await resume c) (List.append_nil _).symm (by simp) rfl (f := Hand.moved (.waiting await resume))
    (fun _ => rfl) fun _ _ => ⟨rfl, id, by rintro ⟨⟩, ?_⟩
  rintro members _ ⟨⟩
  exact .inr (parts members rfl)

theorem close (regular : c.Regular) (k : Who) (result : Except Fault Yield) : (c.close k result).Regular := by
  refine regular.moves (.close k result c) (List.append_nil _).symm (by simp) rfl (fun _ => rfl) fun h _ => ?_
  refine ⟨h.closed_origin result, fun stop => (h.closed_stopped result).symm.trans stop, fun fresh => .inr ?_, ?_⟩
  · rintro n id ingests
    cases result with
    | ok => simp [Hand.closed, ingests, Origin.repeats, Job.repeats] at fresh
    | error => simp [Hand.closed] at fresh
  · intro members resume waiting
    cases result with
    | ok => cases again : h.origin.repeats <;> simp [Hand.closed, again] at waiting
    | error => simp [Hand.closed] at waiting

theorem onGroup (regular : c.Regular) (k : Who) (f : Permits → Permits) : (c.onGroup k f).Regular :=
  regular.moves (.onGroup k f c) ((c.onGroup_log k f).trans (List.append_nil _).symm) (by simp) (c.onGroup_memory k f)
    (f := id) (fun j => by rw [onHand_id, hand?_onGroup]) fun h _ => same h

theorem pass (regular : c.Regular) (time : Float) : { c with clock := time }.Regular := by
  have follows : Follows (.job 0) c { c with clock := time } :=
    (Follows.refl _ c).of_same (fun j => by cases j <;> rfl) rfl rfl
  exact regular.moves follows (List.append_nil _).symm (by simp) rfl (f := id)
    (fun j => by rw [onHand_id]; cases j <;> rfl) fun h _ => same h

/-- What is stored may leave a run to whoever owns it, or be the owner's, who may let go of the run, or take a free lock. -/
theorem run_cases {first m : Memory} (recorded : c.Recorded first) (allows : c.Allows k m) (n : Nat) :
    (m.coordinator n).run = (c.memory.coordinator n).run ∧ (c.store k m).owner n = c.owner n ∨
      (c.owner n = some k ∧ (c.store k m).owner n = (if (m.coordinator n).run.locked then some k else none) ∧
        ((m.coordinator n).run.locked = false → (m.coordinator n).run.stage = none)) ∨
      (c.owner n = none ∧ (c.store k m).owner n = some k ∧ (m.coordinator n).run = (c.memory.coordinator n).run.acquire) := by
  rcases allows.runs n with same | ⟨own, leaves⟩ | ⟨free, takes⟩
  · exact .inl ⟨same, owner_store_same same⟩
  · have locked : (c.memory.coordinator n).run.locked = true := by
      rw [recorded.locked, own]
      rfl
    refine .inr (.inl ⟨own, ?_, leaves⟩)
    rw [owner_store, Deed.passes, locked, own]
    cases (m.coordinator n).run.locked <;> rfl
  · have unlocked : (c.memory.coordinator n).run.locked = false := by
      rw [recorded.locked, free]
      rfl
    refine .inr (.inr ⟨free, ?_, takes⟩)
    rw [owner_store, Deed.passes, unlocked, takes]
    rfl

/-- Whoever owns a run shows the stage that is stored, and everybody else shows what they showed before. -/
theorem store_shown {first m : Memory} (regular : c.Regular) (recorded : c.Recorded first) (allows : c.Allows k m) (n : Nat) (j : Who) :
    (c.store k m).stageBy n j = if (c.store k m).owner n = some j then (m.coordinator n).run.stage else none := by
  rcases run_cases recorded allows n with ⟨same, stays⟩ | ⟨own, passes, leaves⟩ | ⟨free, passes, takes⟩
  · rw [stageBy_store_same (congrArg RunState.stage same), stays, same]
    exact regular.shown n j
  · rw [passes, stageBy_store, regular.shown n j, own]
    by_cases self : k = j
    · subst self
      simp only [if_true, Deed.shows]
      cases locked : (m.coordinator n).run.locked with
      | true =>
        simp only [if_true]
        split
        next same => exact same.symm
        next => rfl
      | false =>
        have none := leaves locked
        simp only [none]
        split
        next same => simpa using same.symm
        next => simp
    · have other : some k ≠ some j := fun same => self (Option.some.inj same)
      rw [if_neg self, if_neg other]
      cases (m.coordinator n).run.locked <;> simp [other]
  · have same : (m.coordinator n).run.stage = (c.memory.coordinator n).run.stage := by
      rw [takes]
      rfl
    have none : (m.coordinator n).run.stage = none := same.trans (regular.unshown n free)
    rw [stageBy_store_same same, regular.shown n j, free, none, ite_self]
    exact if_neg nofun

/-- A run that nobody owns shows no stage. -/
theorem store_unshown {first m : Memory} (regular : c.Regular) (recorded : c.Recorded first) (allows : c.Allows k m) {n : Nat}
    (free : (c.store k m).owner n = none) : (m.coordinator n).run.stage = none := by
  rcases run_cases recorded allows n with ⟨same, stays⟩ | ⟨_, passes, leaves⟩ | ⟨_, passes, _⟩
  · exact (congrArg RunState.stage same).trans (regular.unshown n (stays.symm.trans free))
  · rw [passes] at free
    split at free
    · cases free
    next unlocked => exact leaves (Bool.eq_false_iff.mpr unlocked)
  · cases passes.symm.trans free

theorem store {first m : Memory} (regular : c.Regular) (recorded : c.Recorded first) (allows : c.Allows k m)
    (runs : ∀ h, c.hand? k = some h → h.station = .running) : (c.store k m).Regular := by
  refine ⟨fun n => ?_, regular.store_shown recorded allows, fun n => regular.store_unshown recorded allows, fun j h found => ?_,
    fun n t runs => ?_, allows.facade, ?_⟩
  · exact (Log.lawful_append ..).mpr ⟨regular.lawful n, allows.runs n, trivial⟩
  · have found' : c.hand? j = some h := by
      cases j <;> exact found
    refine (regular.hands j h found').mono (.store k m c) (fun n fresh own => ?_) allows.length rfl .inl .inl fun _ _ => .inl
    have other : k ≠ j := by
      rintro rfl
      cases (runs h found').symm.trans fresh
    have allowed := allows.runs n
    rw [own] at allowed
    exact (owner_store_same (Log.allowed_others allowed other)).trans own
  · rcases allows.schedulers n t runs with old | joins
    · exact regular.schedulers n t old
    · exact joins
  · exact List.forall_mem_append.mpr ⟨regular.growing, List.forall_mem_singleton.mpr allows.length⟩

theorem call (regular : c.Regular) (program : Routine Yield) : (c.call program).Regular := by
  have follows : Follows (.caller c.callers.length) c (c.call program) := .call _ program c
  refine regular.quiet follows (List.append_nil _).symm (by simp) rfl fun j h found owner => ?_
  rcases call_cases found with old | ⟨rfl, rfl⟩
  · exact (regular.hands j h old).mono follows (fun n _ own => (owner n).trans own) (Nat.le_refl _) rfl .inl .inl
      fun _ _ => .inl
  · exact ⟨by rintro _ _ ⟨⟩, by rintro _ ⟨⟩, by rintro _ _ ⟨⟩⟩

/-- Jobs that are added together are parts of work. -/
theorem gather (regular : c.Regular) (k : Who) (permits : Permits) {jobs : List Job}
    (parts : ∀ job ∈ jobs, (Origin.job job).isPart) : (c.gather permits jobs).Regular := by
  have follows : Follows k c (c.gather permits jobs) := .gather k permits jobs c
  refine regular.quiet follows (List.append_nil _).symm (by simp) rfl fun j h found owner => ?_
  rcases gather_cases found with old | ⟨i, job, rfl, at_i, rfl⟩
  · exact (regular.hands j h old).mono follows (fun n _ own => (owner n).trans own) (Nat.le_refl _) rfl .inl .inl
      fun _ _ => .inl
  · have part := parts job (List.mem_of_getElem? at_i)
    refine ⟨?_, ?_, by rintro _ _ ⟨⟩⟩
    · rintro n id ⟨⟩
      exact part.elim
    · rintro n ⟨⟩
      exact part.elim

/-- Those that are added together can be found. -/
theorem gather_numbers (c : Crew ω) (permits : Permits) {jobs : List Job} (parts : ∀ job ∈ jobs, (Origin.job job).isPart) :
    ∀ m ∈ c.numbers jobs, ∃ h, (c.gather permits jobs).hand? (.job m) = some h ∧ h.origin.isPart := by
  intro m inside
  obtain ⟨i, bound, rfl⟩ := List.mem_map.mp inside
  have short : i < jobs.length := List.mem_range.mp bound
  refine ⟨.new (.job jobs[i]) (some c.groups.length), ?_, parts _ (List.getElem_mem short)⟩
  simp [Crew.gather, hand?, short]

/-- Only the schedule is stopped, or the parts of work that it waits for. -/
theorem halt (regular : c.Regular) (k : Who) {n i : Nat} {numbers : List Nat} (found : c.hand? (.job n) = some h)
    (schedules : h.origin = .job (.schedule i)) (halts : c.Halts n numbers) : (c.halt numbers).Regular := by
  have follows : Follows k c (c.halt numbers) := .halt k numbers c
  have stopped : ∀ m ∈ numbers, ∃ h', c.hand? (.job m) = some h' ∧ ∀ n id, h'.origin ≠ .job (.ingest n id) := by
    rcases halts with ⟨h', resume, found', waiting, _⟩ | ⟨rfl, _⟩
    · intro m inside
      obtain ⟨part, there, isPart⟩ := (regular.hands (.job n) h' found').waits numbers resume waiting m inside
      refine ⟨part, there, fun n id ingests => ?_⟩
      rw [ingests] at isPart
      exact isPart
    · intro m inside
      rw [List.mem_singleton.mp inside]
      exact ⟨h, found, fun n id ingests => by cases schedules.symm.trans ingests⟩
  refine regular.quiet follows (List.append_nil _).symm (by simp) rfl fun j h' found' owner => ?_
  obtain ⟨old, at_j, either⟩ := halt_cases found'
  have allots := regular.hands _ old at_j
  obtain ⟨rfl, _⟩ | ⟨i, marked, rfl, rfl⟩ := either
  · exact allots.mono follows (fun n _ own => (owner n).trans own) (Nat.le_refl _) rfl .inl .inl fun _ _ => .inl
  · obtain ⟨h'', there, other⟩ := stopped i marked
    cases Option.some.inj (at_j.symm.trans there)
    exact allots.mono follows (fun n _ own => (owner n).trans own) (Nat.le_refl _) old.marked_origin
      (fun _ => .inr other) (fun fresh => .inl (old.marked_station ▸ fresh))
      fun members resume waiting => .inl (old.marked_station ▸ waiting)

/-- What somebody may give to a job: a run that they own and that shows no stage yet. -/
def Gives (c : Crew ω) (k : Who) : Job → Prop
  | .ingest n _ => c.owner n = some k ∧ (c.memory.coordinator n).run.stage = none
  | .schedule n => n < c.memory.coordinators.length
  | _ => True

theorem owner_spawn (c : Crew ω) (n : Nat) (k : Who) (job : Job) :
    (c.spawn k job).owner n = (Deed.starts job c.jobs.length).passes n k (c.owner n) := Recorded.owner_snoc ..

theorem stageBy_spawn (c : Crew ω) (n : Nat) (j k : Who) (job : Job) : (c.spawn k job).stageBy n j = c.stageBy n j :=
  List.foldl_append.trans (ite_self _)

/-- A run stays with whoever owns it, unless its owner gives it to the job. It shows no stage then. -/
theorem given_cases {job : Job} (gives : Gives c k job) (n : Nat) : (c.spawn k job).owner n = c.owner n ∨
    c.owner n = some k ∧ (c.spawn k job).owner n = some (.job c.jobs.length) ∧ (c.memory.coordinator n).run.stage = none := by
  rw [owner_spawn]
  cases job with
  | ingest i id =>
    simp only [Deed.passes]
    split
    next both => exact .inr ⟨both.2, rfl, both.1 ▸ gives.2⟩
    next => exact .inl rfl
  | _ => exact .inl rfl

theorem spawn (regular : c.Regular) {job : Job} (gives : Gives c k job) (found : c.hand? k = some h)
    (runs : h.station = .running) : (c.spawn k job).Regular := by
  have follows : Follows k c (c.spawn k job) := .spawn k job c
  refine ⟨fun n => ?_, fun n j => ?_, fun n free => ?_, fun j h' found' => ?_, fun n t runs => ?_, regular.facade,
    List.forall_mem_append.mpr ⟨regular.growing, List.forall_mem_singleton.mpr trivial⟩⟩
  · exact (Log.lawful_append ..).mpr ⟨regular.lawful n, trivial, trivial⟩
  · rw [stageBy_spawn, regular.shown]
    rcases given_cases gives n with same | ⟨_, given, none⟩
    · rw [same]
      rfl
    · rw [given]
      show _ = if _ then (c.memory.coordinator n).run.stage else _
      simp [none]
  · rcases given_cases gives n with same | ⟨_, given, _⟩
    · exact regular.unshown n (same.symm.trans free)
    · cases free.symm.trans given
  · rcases spawn_cases found' with old | ⟨rfl, rfl⟩
    · refine (regular.hands j h' old).mono follows (fun n fresh own => ?_) (Nat.le_refl _) rfl .inl .inl fun _ _ => .inl
      rcases given_cases gives n with same | ⟨given, _, _⟩
      · exact same.trans own
      · cases own.symm.trans given
        cases Option.some.inj (found.symm.trans old)
        cases fresh.symm.trans runs
    · refine ⟨?_, ?_, by rintro _ _ ⟨⟩⟩
      · rintro n id ⟨⟩
        refine ⟨rfl, fun _ => ?_⟩
        rw [owner_spawn]
        exact if_pos ⟨rfl, gives.1⟩
      · rintro n ⟨⟩
        exact gives
  · obtain ⟨h', i, there, origin⟩ := regular.schedulers n t runs
    obtain ⟨h'', there', origin', _⟩ := follows.hands _ h' there
    exact ⟨h'', i, there', origin'.trans origin⟩

end Regular

/-- Coordinators stay. -/
theorem Regular.grown {m : Memory} {d : Crew ω} (regular : c.Regular) (recorded : c.Recorded m)
    (before : d.Recorded m) (log : ∃ new, c.log = d.log ++ new) :
    d.memory.coordinators.length ≤ c.memory.coordinators.length := by
  obtain ⟨new, log⟩ := log
  have chained := recorded.chained
  have growing := regular.growing
  rw [log, Log.chained_append] at chained
  rw [log] at growing
  rw [recorded.memory, before.memory, log, Log.memoryFrom_append]
  exact Log.grown chained.2 fun noted inside => growing noted (List.mem_append_right _ inside)

/-- What the others have done was allowed to them. -/
theorem Regular.since {m : Memory} {d : Crew ω} (regular : c.Regular) (recorded : c.Recorded m) (since : Since k d c) (n : Nat) :
    ∃ new, c.log = d.log ++ new ∧ (∀ noted ∈ new, noted.2.1 ≠ k) ∧ Log.Lawful n (d.owner n) new ∧
      Log.Chained (Log.memoryFrom m d.log) new := by
  obtain ⟨new, log, others⟩ := since.log
  have lawful := regular.lawful n
  have chained := recorded.chained
  rw [log, Log.lawful_append] at lawful
  rw [log, Log.chained_append] at chained
  exact ⟨new, log, others, lawful.2, chained.2⟩

/-- What the others do leaves a run to its owner, and as it is. -/
theorem Regular.kept {m : Memory} {d : Crew ω} {n : Nat} (regular : c.Regular) (recorded : c.Recorded m)
    (since : Since k d c) (before : d.Recorded m) (own : d.owner n = some k) :
    c.owner n = some k ∧ (c.memory.coordinator n).run = (d.memory.coordinator n).run := by
  obtain ⟨new, log, others, lawful, chained⟩ := regular.since recorded since n
  have from_ : Log.ownerFrom n none d.log = some k := own
  have kept := Log.kept (own ▸ lawful) chained others
  rw [Crew.owner, recorded.memory, before.memory, log, Log.ownerFrom_append, Log.memoryFrom_append, from_]
  exact kept

end Crew

end CodeAtlas
