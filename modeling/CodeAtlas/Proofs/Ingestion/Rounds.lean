import CodeAtlas.Proofs.Ingestion.Conduct
import CodeAtlas.Proofs.Ingestion.Regular
import CodeAtlas.Proofs.Ingestion.Stages

namespace CodeAtlas

variable {ω : Type}

/-- The rules of a crew whose runs are changed by their owners alone. Anything may be asked. -/
def Crew.order (ω : Type) (m : Memory) : Rules ω where
  known := Crew.Recorded m
  inv := Crew.Regular
  may _ _ _ := True

/-- The runs of coordinators, and who schedules them, are left alone. -/
structure Memory.Beside (m m' : Memory) : Prop where
  runs : ∀ n, (m'.coordinator n).run = (m.coordinator n).run
  schedulers : ∀ n t, (m'.coordinator n).scheduler = some t → (m.coordinator n).scheduler = some t
  length : m.coordinators.length ≤ m'.coordinators.length
  facade : m.Joined → m'.Joined

theorem Memory.Aside.beside {m m' : Memory} (aside : m.Aside m') : m.Beside m' := by
  have same : ∀ n, m'.coordinator n = m.coordinator n := fun n => by
    rw [Memory.coordinator, Memory.coordinator, aside.coordinators]
  refine ⟨fun n => by rw [same], fun n t plans => same n ▸ plans, Nat.le_of_eq (by rw [aside.coordinators]), ?_⟩
  rintro ⟨there, joined⟩
  exact ⟨by rwa [aside.facade, aside.coordinators], by rwa [aside.facade]⟩

theorem Memory.coordinator_other {m : Memory} {n i : Nat} (f : Coordinator → Coordinator) (other : i ≠ n) :
    (m.onCoordinator n f).coordinator i = m.coordinator i := by
  simp [coordinator, onCoordinator, part, Ne.symm other]

/-- Everything but changing runs, and starting and stopping jobs that are no part of other work. -/
def Remit.beside : Remit where
  asks _ := True
  writes m m' := m.Beside m'
  requests
    | .spawn _ | .dispatch _ | .cancel _ => False
    | .gather _ jobs => ∀ job ∈ jobs, (Origin.job job).isPart
    | _ => True

namespace Crew

variable {m : Memory} {c c' d : Crew ω} {k : Who} {h : Hand}

theorem Grants.beside {request : Control} {reply : Except Fault request.Reply} (granted : c.Grants k request reply c')
    (beside : Remit.beside.requests request) : c'.memory = c.memory ∧ c'.log = c.log := by
  cases request with
  | now | hasLoop | ended | join | shield | joinWorker => obtain ⟨_, rfl⟩ := granted; exact ⟨rfl, rfl⟩
  | pause => exact granted.elim
  | spawn | dispatch | cancel => exact beside.elim
  | gather => obtain ⟨_, _, rfl⟩ := granted; exact ⟨rfl, rfl⟩
  | takePermit => obtain ⟨_, _, rfl⟩ := granted; exact ⟨c.onGroup_memory k _, c.onGroup_log k _⟩
  | givePermit => obtain ⟨_, rfl⟩ := granted; exact ⟨c.onGroup_memory k _, c.onGroup_log k _⟩

/-- It is the turn of somebody in a crew that is in order. -/
structure OnTurn (m : Memory) (k : Who) (c : Crew ω) : Prop where
  recorded : c.Recorded m
  regular : c.Regular
  running : ∃ h, c.hand? k = some h ∧ h.station = .running

/-- What somebody owned is theirs still, and as it was. -/
structure Retains (k : Who) (d c : Crew ω) : Prop where
  runs : ∀ n, d.owner n = some k → c.owner n = some k ∧ (c.memory.coordinator n).run = (d.memory.coordinator n).run
  length : d.memory.coordinators.length ≤ c.memory.coordinators.length

theorem Retains.trans (first : Retains k d c) (second : Retains k c c') : Retains k d c' := by
  refine ⟨fun n own => ?_, Nat.le_trans first.length second.length⟩
  obtain ⟨own', same⟩ := first.runs n own
  obtain ⟨own'', same'⟩ := second.runs n own'
  exact ⟨own'', same'.trans same⟩

/-- A step that leaves the memory alone and is no handover. -/
theorem Retains.of_quiet {new : List Noted} (log : c'.log = c.log ++ new)
    (quiet : ∀ noted ∈ new, noted.2.2.isQuiet = true) (memory : c'.memory = c.memory) : Retains k c c' := by
  refine ⟨fun n own => ⟨?_, by rw [memory]⟩, Nat.le_of_eq (by rw [memory])⟩
  rw [owner, log, Log.ownerFrom_append, Log.ownerFrom_quiet n _ quiet]
  exact own

theorem Retains.of_since (regular : c.Regular) (recorded : c.Recorded m) (before : d.Recorded m) (since : Since k d c) :
    Retains k d c where
  runs := fun _ own => regular.kept recorded since before own
  length := regular.grown recorded before (since.log.imp fun _ log => log.1)

theorem Retains.store (beside : c.memory.Beside m) : Retains k c (c.store k m) where
  runs := fun n own => ⟨(owner_store_same (beside.runs n)).trans own, beside.runs n⟩
  length := beside.length

theorem Regular.allows (regular : c.Regular) (beside : c.memory.Beside m) : c.Allows k m where
  runs := fun n => .inl (beside.runs n)
  length := beside.length
  schedulers := fun n t plans => .inl (beside.schedulers n t plans)
  facade := beside.facade regular.facade

namespace OnTurn

/-- Whoever is running is as before, unless they are moved. -/
theorem stays (on : c.OnTurn m k) (recorded : c'.Recorded m) (regular : c'.Regular)
    (hands : c'.hand? k = c.hand? k) : c'.OnTurn m k := by
  obtain ⟨h, found, runs⟩ := on.running
  exact ⟨recorded, regular, h, hands.trans found, runs⟩

theorem store {m' : Memory} (on : c.OnTurn m k) (allows : c.Allows k m') (recorded : (c.store k m').Recorded m) :
    (c.store k m').OnTurn m k := by
  obtain ⟨h, found, runs⟩ := on.running
  have regular := on.regular.store on.recorded allows fun h' found' => by
    cases Option.some.inj (found.symm.trans found')
    exact runs
  exact on.stays recorded regular (by cases k <;> rfl)

theorem exchange (on : c.OnTurn m k) (question : Ask) (r : Reaction ω question)
    (recorded : (c.exchange k question r).Recorded m) : (c.exchange k question r).OnTurn m k :=
  on.stays recorded (on.regular.exchange k question r) (by cases k <;> rfl)

/-- Somebody who rested goes on. -/
theorem resumed (recorded : (c.goOn k).Recorded m) (regular : c.Regular) (found : c.hand? k = some h) :
    (c.goOn k).OnTurn m k :=
  ⟨recorded, regular.goOn k, _, hand?_self found _, rfl⟩

theorem heard {question : Ask} {reply : Except Fault question.Reply} (recorded : (c.hear k question reply).Recorded m)
    (regular : c.Regular) (found : c.hand? k = some h) : (c.hear k question reply).OnTurn m k := by
  refine ⟨recorded, regular.hear k question reply, _, hand?_self (h := h) ?_ _, rfl⟩
  cases k <;> exact found

theorem spawn {job : Job} (on : c.OnTurn m k) (gives : Regular.Gives c k job) (recorded : (c.spawn k job).Recorded m) :
    (c.spawn k job).OnTurn m k := by
  obtain ⟨h, found, runs⟩ := on.running
  exact on.stays recorded (on.regular.spawn gives found runs) ((spawn_found found).trans found.symm)

theorem halt {t : Nat} {numbers : List Nat} (on : c.OnTurn m k) (schedules : c.Schedules t)
    (halts : c.Halts t numbers) (recorded : (c.halt numbers).Recorded m) : (c.halt numbers).OnTurn m k := by
  obtain ⟨h, n, found, origin⟩ := schedules
  obtain ⟨h', found', runs⟩ := on.running
  obtain ⟨h'', found'', _, _, station⟩ := halt_found numbers found'
  exact ⟨recorded, on.regular.halt k found origin halts, h'', found'', station.trans runs⟩

/-- What a request does that is granted at once, unless it starts or stops a job. -/
theorem granted {request : Control} {reply : Except Fault request.Reply} (on : c.OnTurn m k)
    (beside : Remit.beside.requests request) (grants : c.Grants k request reply c') (recorded : c'.Recorded m) :
    c'.OnTurn m k := by
  cases request with
  | now | hasLoop | ended | join | shield | joinWorker => obtain ⟨_, rfl⟩ := grants; exact on
  | pause => exact grants.elim
  | spawn | dispatch | cancel => exact beside.elim
  | gather => obtain ⟨_, _, rfl⟩ := grants; exact on
  | takePermit => obtain ⟨_, _, rfl⟩ := grants; exact on.stays recorded (on.regular.onGroup k _) (c.hand?_onGroup k _ k)
  | givePermit => obtain ⟨_, rfl⟩ := grants; exact on.stays recorded (on.regular.onGroup k _) (c.hand?_onGroup k _ k)

theorem waits {request : Control} {await : Await} {read : Waited → Except Fault request.Reply}
    (on : c.OnTurn m k) (beside : Remit.beside.requests request) (waits : c.Waits request await read c')
    (rest : Waited → Routine Yield) : (c'.rest k await rest).Regular := by
  cases request with
  | gather permits jobs =>
    obtain ⟨rfl, _, rfl⟩ := waits
    refine (on.regular.gather k permits beside).rest k _ rest ?_
    rintro _ ⟨⟩
    exact Regular.gather_numbers c permits beside
  | pause | join | shield | joinWorker | takePermit =>
    obtain ⟨rfl, _, rfl⟩ := waits
    exact on.regular.rest k _ rest nofun
  | _ => exact waits.elim

end OnTurn

theorem Regular.woken {await : Await} {waited : Waited} (regular : c.Regular) (wakes : c.Wakes k h await waited c') :
    c'.Regular := by
  rcases wakes.changes with rfl | rfl
  · exact regular
  · exact regular.onGroup k _

end Crew

open Crew

variable {m : Memory} {w : World ω} {n : Nat} {k : Who} {c d : Crew ω}

/-- Whoever works beside the runs keeps a crew in order, and what only depends on what they own. -/
theorem Crew.OnTurn.frame (w : World ω) (m : Memory) (k : Who) {own : Crew ω → Prop}
    (stable : ∀ {c c'}, own c → c.Retains k c' → own c') :
    Upkeep w (order ω m) k .beside fun c => c.OnTurn m k ∧ own c where
  finds _ := trivial
  may _ _ := trivial
  store := by
    rintro c m' ⟨on, owns⟩ beside recorded
    have on' := on.store (on.regular.allows beside) recorded
    exact ⟨on'.regular, on', stable owns (.store beside)⟩
  exchange := by
    rintro c question ⟨on, owns⟩ _ _ recorded
    have on' := on.exchange question _ recorded
    exact ⟨on'.regular, on', stable owns (.of_quiet (List.append_assoc ..) (by simp [Deed.isQuiet]) rfl)⟩
  ask := by
    rintro c question rest ⟨on, owns⟩ _ _ recorded
    refine ⟨on.regular.ask k question _ rest, fun c' h known regular _ since found _ heard => ?_⟩
    have on' := OnTurn.heard heard regular found
    have asked : Retains k c (c.ask k question (c.reaction w question) rest) :=
      .of_quiet rfl (by simp [Deed.isQuiet]) rfl
    have waited := Retains.of_since regular known recorded since
    have back : Retains k c' (c'.hear k question (h.heard (c.reaction w question).reply)) :=
      .of_quiet rfl (by simp [Deed.isQuiet]) rfl
    exact ⟨on'.regular, on', stable owns ((asked.trans waited).trans back)⟩
  grant := by
    rintro c request reply c' ⟨on, owns⟩ beside granted recorded
    have on' := on.granted beside granted recorded
    obtain ⟨memory, log⟩ := granted.beside beside
    exact ⟨on'.regular, on', stable owns (.of_quiet (log.trans (List.append_nil _).symm) (by simp) memory)⟩
  wait := by
    rintro c request await read c' rest ⟨on, owns⟩ beside waits recorded
    have rested := on.waits beside waits rest
    refine ⟨rested, fun e h waited e' known regular _ since found _ wakes woken => ?_⟩
    have on' := OnTurn.resumed woken (regular.woken wakes) ((wakes.hands k).trans found)
    have laid : Retains k c (c'.rest k await rest) :=
      .of_quiet (waits.noted.2.trans (List.append_nil _).symm) (by simp) waits.noted.1
    have waited := Retains.of_since regular known recorded since
    have back : Retains k e (e'.goOn k) :=
      .of_quiet (wakes.noted.2.trans (List.append_nil _).symm) (by simp) wakes.noted.1
    exact ⟨on'.regular, on', stable owns ((laid.trans waited).trans back)⟩

/-- A narrower remit has its frame. -/
theorem Upkeep.mono {R : Rules ω} {k : Who} {r r' : Remit} {holds : Crew ω → Prop} (frame : Upkeep w R k r' holds)
    (asks : ∀ question, r.asks question → r'.asks question) (writes : ∀ m m', r.writes m m' → r'.writes m m')
    (requests : ∀ request, r.requests request → r'.requests request)
    (finds : ∀ m, r'.finds m → r.finds m := by exact fun _ _ => trivial) : Upkeep w R k r holds where
  finds own := finds _ (frame.finds own)
  may own allowed := frame.may own (asks _ allowed)
  store own allowed := frame.store own (writes _ _ allowed)
  exchange own allowed := frame.exchange own (asks _ allowed)
  ask rest own allowed := frame.ask rest own (asks _ allowed)
  grant own allowed := frame.grant own (requests _ allowed)
  wait rest own allowed := frame.wait rest own (requests _ allowed)

/-- What else is kept by each step within a remit, besides what a frame has. -/
structure Besides (w : World ω) (R : Rules ω) (k : Who) (r : Remit) (holds also : Crew ω → Prop) : Prop where
  may : ∀ {c question}, holds c → also c → r.asks question → R.may k question c
  store : ∀ {c m}, holds c → also c → r.writes c.memory m → R.known (c.store k m) → holds (c.store k m) →
    R.inv (c.store k m) ∧ also (c.store k m)
  exchange : ∀ {c question}, holds c → also c → r.asks question → ¬0 < (c.reaction w question).delay →
    R.known (c.exchange k question (c.reaction w question)) → holds (c.exchange k question (c.reaction w question)) →
    R.inv (c.exchange k question (c.reaction w question)) ∧ also (c.exchange k question (c.reaction w question))
  ask : ∀ {c question} rest, holds c → also c → r.asks question → 0 < (c.reaction w question).delay →
    R.known (c.ask k question (c.reaction w question) rest) → R.inv (c.ask k question (c.reaction w question) rest) ∧
      ∀ c' h, R.known c' → R.inv c' → c'.Still → (c.ask k question (c.reaction w question) rest).Since k c' →
        c'.hand? k = some h →
        h.station = .asking question (c.reaction w question).reply (c.clock + (c.reaction w question).delay) rest →
        R.known (c'.hear k question (h.heard (c.reaction w question).reply)) →
        holds (c'.hear k question (h.heard (c.reaction w question).reply)) →
        R.inv (c'.hear k question (h.heard (c.reaction w question).reply)) ∧
          also (c'.hear k question (h.heard (c.reaction w question).reply))
  grant : ∀ {c request reply c'}, holds c → also c → r.requests request → c.Grants k request reply c' → R.known c' →
    holds c' → R.inv c' ∧ also c'
  wait : ∀ {c request await read c'} rest, holds c → also c → r.requests request → c.Waits request await read c' →
    R.known (c'.rest k await rest) → R.inv (c'.rest k await rest) ∧
      ∀ d h waited d', R.known d → R.inv d → d.Still → (c'.rest k await rest).Since k d → d.hand? k = some h →
        h.station = .waiting await rest → d.Wakes k h await waited d' → R.known (d'.goOn k) → holds (d'.goOn k) →
        R.inv (d'.goOn k) ∧ also (d'.goOn k)

/-- What is kept in every crew that is in order may be relied on by further rules. -/
theorem Upkeep.besides {R : Rules ω} {r : Remit} {holds also : Crew ω → Prop} (frame : Upkeep w (order ω m) k r holds)
    (known : ∀ {c}, R.known c → c.Recorded m ∧ c.Regular) (extra : Besides w R k r holds also) :
    Upkeep w R k r fun c => holds c ∧ also c where
  finds own := frame.finds own.1
  may own allowed := extra.may own.1 own.2 allowed
  store own allowed knows := by
    have base := (frame.store own.1 allowed (known knows).1).2
    have more := extra.store own.1 own.2 allowed knows base
    exact ⟨more.1, base, more.2⟩
  exchange own allowed soon knows := by
    have base := (frame.exchange own.1 allowed soon (known knows).1).2
    have more := extra.exchange own.1 own.2 allowed soon knows base
    exact ⟨more.1, base, more.2⟩
  ask rest own allowed slow knows := by
    have base := (frame.ask rest own.1 allowed slow (known knows).1).2
    have more := extra.ask rest own.1 own.2 allowed slow knows
    refine ⟨more.1, fun c' h knows' inv still since found asking knows'' => ?_⟩
    have base' := (base c' h (known knows').1 (known knows').2 still since found asking (known knows'').1).2
    have more' := more.2 c' h knows' inv still since found asking knows'' base'
    exact ⟨more'.1, base', more'.2⟩
  grant own allowed granted knows := by
    have base := (frame.grant own.1 allowed granted (known knows).1).2
    have more := extra.grant own.1 own.2 allowed granted knows base
    exact ⟨more.1, base, more.2⟩
  wait rest own allowed waits knows := by
    have base := (frame.wait rest own.1 allowed waits (known knows).1).2
    have more := extra.wait rest own.1 own.2 allowed waits knows
    refine ⟨more.1, fun d h waited d' knows' inv still since found waiting wakes knows'' => ?_⟩
    have base' := (base d h waited d' (known knows').1 (known knows').2 still since found waiting wakes (known knows'').1).2
    have more' := more.2 d h waited d' knows' inv still since found waiting wakes knows'' base'
    exact ⟨more'.1, base', more'.2⟩

namespace Crew

/-- Somebody who has nothing to do with a run, and may begin one. -/
def Idles (m : Memory) (n : Nat) (k : Who) (c : Crew ω) : Prop := c.OnTurn m k ∧ n < c.memory.coordinators.length

/-- Somebody who has the lock of a coordinator, and carries out a run or is about to. -/
def Owns (m : Memory) (n : Nat) (k : Who) (c : Crew ω) : Prop :=
  c.OnTurn m k ∧ n < c.memory.coordinators.length ∧ c.owner n = some k

/-- Somebody who has taken the lock and shows no stage yet. -/
def Took (m : Memory) (n : Nat) (k : Who) (c : Crew ω) : Prop :=
  c.OnTurn m k ∧ n < c.memory.coordinators.length ∧ c.owner n = some k ∧ (c.memory.coordinator n).run.stage = none

theorem Took.owns (took : c.Took m n k) : c.Owns m n k := ⟨took.1, took.2.1, took.2.2.1⟩

theorem Owns.idles (owns : c.Owns m n k) : c.Idles m n k := ⟨owns.1, owns.2.1⟩

theorem Idles.frame (w : World ω) (m : Memory) (n : Nat) (k : Who) : Upkeep w (order ω m) k .beside (Idles m n k) :=
  OnTurn.frame w m k fun present retains => Nat.lt_of_lt_of_le present retains.length

theorem Owns.frame (w : World ω) (m : Memory) (n : Nat) (k : Who) : Upkeep w (order ω m) k .beside (Owns m n k) :=
  OnTurn.frame w m k fun own retains => ⟨Nat.lt_of_lt_of_le own.1 retains.length, (retains.runs n own.2).1⟩

theorem Took.frame (w : World ω) (m : Memory) (n : Nat) (k : Who) : Upkeep w (order ω m) k .beside (Took m n k) := by
  refine OnTurn.frame w m k fun own retains => ?_
  obtain ⟨present, owns, unset⟩ := own
  obtain ⟨owns', same⟩ := retains.runs n owns
  exact ⟨Nat.lt_of_lt_of_le present retains.length, owns', same ▸ unset⟩

/-- What a coordinator is changed to by those who may. -/
theorem Regular.allows_on {f : Coordinator → Coordinator} (regular : c.Regular) (present : n < c.memory.coordinators.length)
    (run : (Deed.stores c.memory (c.memory.onCoordinator n f)).Allowed n k (c.owner n))
    (schedules : ∀ t, (f (c.memory.coordinator n)).scheduler = some t →
      (c.memory.coordinator n).scheduler = some t ∨ c.Schedules t) : c.Allows k (c.memory.onCoordinator n f) where
  runs := by
    intro i
    by_cases same : i = n
    · exact same ▸ run
    · exact .inl (by rw [Memory.coordinator_other f same])
  length := by simp [Memory.onCoordinator]
  schedulers := by
    intro i t plans
    by_cases same : i = n
    · subst same
      rw [Memory.coordinator_onCoordinator f present] at plans
      exact schedules t plans
    · exact .inl (by rwa [Memory.coordinator_other f same] at plans)
  facade := ⟨fun i linked => by simpa [Memory.onCoordinator] using regular.facade.there i linked, regular.facade.joined⟩

theorem run_onRun {f : RunState → RunState} (present : n < c.memory.coordinators.length) :
    ((c.onRun n f).coordinator n).run = f (c.memory.coordinator n).run := by
  rw [onRun, Memory.coordinator_onCoordinator _ present]

theorem length_onCoordinator {f : Coordinator → Coordinator} (present : n < c.memory.coordinators.length) :
    n < (c.store k (c.memory.onCoordinator n f)).memory.coordinators.length := by
  simpa [store, Memory.onCoordinator] using present

theorem Owns.locked (owns : c.Owns m n k) : (c.memory.coordinator n).run.locked = true := by
  rw [owns.1.recorded.locked, owns.2.2]
  rfl

/-- What is kept of a run is changed by its owner. -/
theorem Owns.drive {f : RunState → RunState} (keeps : ∀ r, (f r).locked = r.locked) (owns : c.Owns m n k) :
    (order ω m).After (c.store k (c.onRun n f)) ((c.store k (c.onRun n f)).Owns m n k) := by
  intro recorded
  have held : ((c.onRun n f).coordinator n).run.locked = true := by
    rw [run_onRun owns.2.1, keeps]
    exact owns.locked
  have allows : c.Allows k (c.onRun n f) :=
    owns.1.regular.allows_on owns.2.1 (.inr (.inl ⟨owns.2.2, fun freed => by cases held.symm.trans freed⟩)) fun _ => .inl
  have on' := owns.1.store allows recorded
  refine ⟨on'.regular, on', length_onCoordinator owns.2.1, ?_⟩
  rw [owner_store, Deed.passes, owns.locked, held]
  exact owns.2.2

theorem Owns.release (owns : c.Owns m n k) : (order ω m).After (c.store k (c.onRun n RunState.release))
    ((c.store k (c.onRun n RunState.release)).Idles m n k) := by
  intro recorded
  have unset : ((c.onRun n RunState.release).coordinator n).run.stage = none := by
    rw [run_onRun owns.2.1]
    rfl
  have allows : c.Allows k (c.onRun n RunState.release) :=
    owns.1.regular.allows_on owns.2.1 (.inr (.inl ⟨owns.2.2, fun _ => unset⟩)) fun _ => .inl
  have on' := owns.1.store allows recorded
  exact ⟨on'.regular, on', length_onCoordinator owns.2.1⟩

theorem Idles.acquire (idles : c.Idles m n k) (unlocked : (c.memory.coordinator n).run.locked = false) :
    (order ω m).After (c.store k (c.onRun n RunState.acquire)) ((c.store k (c.onRun n RunState.acquire)).Took m n k) := by
  intro recorded
  have free := idles.1.recorded.free unlocked
  have takes := run_onRun (f := RunState.acquire) idles.2
  have allows : c.Allows k (c.onRun n RunState.acquire) :=
    idles.1.regular.allows_on idles.2 (.inr (.inr ⟨free, takes⟩)) fun _ => .inl
  have on' := idles.1.store allows recorded
  refine ⟨on'.regular, on', length_onCoordinator idles.2, ?_, ?_⟩
  · rw [owner_store, Deed.passes, unlocked, takes]
    rfl
  · exact (congrArg RunState.stage takes).trans (idles.1.regular.unshown n free)

/-- What is noted beside the run leaves it alone. -/
theorem Idles.note {f : Coordinator → Coordinator} (idles : c.Idles m n k) (run : ∀ x, (f x).run = x.run)
    (schedules : ∀ t, (f (c.memory.coordinator n)).scheduler = some t →
      (c.memory.coordinator n).scheduler = some t ∨ c.Schedules t) :
    (order ω m).After (c.store k (c.memory.onCoordinator n f))
      ((c.store k (c.memory.onCoordinator n f)).Idles m n k) := by
  intro recorded
  have same : ((c.memory.onCoordinator n f).coordinator n).run = (c.memory.coordinator n).run := by
    rw [Memory.coordinator_onCoordinator f idles.2, run]
  have on' := idles.1.store (idles.1.regular.allows_on idles.2 (.inl same) schedules) recorded
  exact ⟨on'.regular, on', length_onCoordinator idles.2⟩

end Crew

theorem Remit.beside_of_shares {asks : Ask → Prop} (request : Control) (shares : (Remit.shares asks).requests request) :
    Remit.beside.requests request := by
  cases request with
  | gather permits jobs =>
    obtain ⟨e, methods, rfl⟩ := shares
    intro job inside
    obtain ⟨method, _, rfl⟩ := List.mem_map.mp inside
    trivial
  | _ => trivial

/-- Work in a stage is beside the runs, be it done by one or by many. -/
theorem Routine.Minds.beside_shared {α : Type} {asks : Ask → Prop} {p : Routine α} (minds : p.Minds (.shares asks)) :
    p.Minds .beside :=
  minds.mono (fun _ _ => trivial) (fun _ _ aside => aside.beside) Remit.beside_of_shares

theorem Routine.Minds.beside {α : Type} {asks : Ask → Prop} {p : Routine α} (minds : p.Minds (.works asks)) :
    p.Minds .beside := minds.shares.beside_shared

theorem Remit.beside_of_patient (request : Control) (patient : Remit.patient.requests request) :
    Remit.beside.requests request := by
  cases request <;> trivial

theorem Remit.beside_of_starting (request : Control) (starting : Remit.starting.requests request) :
    Remit.beside.requests request := by
  cases request <;> trivial

namespace Crew

theorem Took.give (took : c.Took m n k) (id : String) : (order ω m).After (c.spawn k (.ingest n id))
    ((c.spawn k (.ingest n id)).Idles m n k) := by
  intro recorded
  have on' : (c.spawn k (.ingest n id)).OnTurn m k := took.1.spawn took.2.2 recorded
  exact ⟨on'.regular, on', took.2.1⟩

theorem Idles.launch (idles : c.Idles m n k) : (order ω m).After (c.spawn k (.schedule n))
    ((c.spawn k (.schedule n)).Idles m n k) := by
  intro recorded
  have on' : (c.spawn k (.schedule n)).OnTurn m k := idles.1.spawn idles.2 recorded
  exact ⟨on'.regular, on', idles.2⟩

theorem Idles.stop {t : Nat} {numbers : List Nat} (idles : c.Idles m n k) (schedules : c.Schedules t)
    (halts : c.Halts t numbers) : (order ω m).After (c.halt numbers) ((c.halt numbers).Idles m n k) := by
  intro recorded
  have on' := idles.1.halt schedules halts recorded
  exact ⟨on'.regular, on', idles.2⟩

theorem Owns.looks (owns : c.Owns m n k) : (order ω m).After c (c.Owns m n k) := fun _ => ⟨owns.1.regular, owns⟩

end Crew

/-- Whatever the stages consist of, a run is carried out in order. -/
theorem Coordinator.order_drive (w : World ω) (m : Memory) (n : Nat) (k : Who) :
    Drive w (order ω m) n k (fun _ => True) (Owns m n k) (Idles m n k) where
  looks owns := owns.looks
  drives _ owns keeps := owns.drive keeps
  sources _ := trivial
  fetch := by
    intro s c endpoint _ owns
    cases s with
    | pipeline p => exact (fetchSnapshot_minds _ _).beside.keeps (Owns.frame w m n k) owns
    | outside => exact Routine.Minds.keeps (.query trivial) (Owns.frame w m n k) owns
  build := by
    intro s c snapshot _ owns
    cases s with
    | pipeline p =>
      exact Routine.Minds.keeps ((buildGraph_minds _ _ _).beside.bind fun _ => .pure _) (Owns.frame w m n k) owns
    | outside => exact Routine.Minds.keeps (.query trivial) (Owns.frame w m n k) owns
  enrich := by
    intro s c _ owns
    cases s with
    | pipeline p =>
      exact Routine.Minds.keeps ((enrichMethods_minds _).beside_shared.bind fun _ => .pure _) (Owns.frame w m n k) owns
    | outside => exact Routine.Minds.keeps (.query trivial) (Owns.frame w m n k) owns
  vectorize := by
    intro s c _ owns
    cases s with
    | pipeline p =>
      exact Routine.Minds.keeps ((vectorize_minds _ _ _).beside.bind fun _ => .pure _) (Owns.frame w m n k) owns
    | outside => exact Routine.Minds.keeps (.query trivial) (Owns.frame w m n k) owns
  release owns := owns.release

/-- Whoever works with a coordinator does so in order. -/
theorem Coordinator.order_conduct (w : World ω) (m : Memory) (n : Nat) (k : Who) :
    Conduct w (order ω m) n k (Idles m n k) (Took m n k) (fun _ => Took m n k) where
  patient := (Idles.frame w m n k).mono (fun _ => False.elim) (fun _ _ => False.elim) Remit.beside_of_patient
  acquire idles := idles.acquire
  draw := by
    intro c took
    refine (Routine.Minds.keeps (.query trivial) (Took.frame w m n k) took).imp fun result c' after => ?_
    cases result with
    | ok => exact after
    | error => exact after.owns.idles
  prepare _ := (Took.frame w m n k).mono (fun _ _ => trivial) (fun _ _ => False.elim) Remit.beside_of_starting
  lapse took := took.owns.idles
  give took := took.give _
  giveBack took := took.owns.release
  run took := (order_drive w m n k).runStages _ took.owns
  note f idles keeps := idles.note (fun x => (keeps x).1) fun t plans => .inl ((keeps _).2.1 ▸ plans)
  launch idles := idles.launch
  plan idles there := idles.note (fun _ => rfl) fun t plans => .inr (there t plans)
  planned idles plans := idles.1.regular.schedulers _ _ plans

namespace Crew

theorem OnTurn.closes {result : Except Fault Yield} (on : c.OnTurn m k) : (order ω m).Closes k result c :=
  fun _ => ⟨on.regular.close k result, trivial⟩

/-- Somebody begins, in a crew that is in order. -/
theorem Regular.begins {h : Hand} (regular : c.Regular) (found : c.hand? k = some h)
    (recorded : (c.begin k h.origin).Recorded m) : (c.begin k h.origin).OnTurn m k := by
  refine ⟨recorded, regular.begin k h.origin, _, hand?_self (h := h) ?_ _, rfl⟩
  cases k <;> exact found

/-- A run that was given to a job belongs to it when it begins. -/
theorem Regular.begins_run {h : Hand} {id : String} (regular : c.Regular) (before : c.Recorded m) (found : c.hand? k = some h)
    (fresh : h.station = .fresh) (ingests : h.origin = .job (.ingest n id))
    (recorded : (c.begin k h.origin).Recorded m) : (c.begin k h.origin).Owns m n k := by
  have own := ((regular.hands k h found).ingest n id ingests).2 fresh
  have same : (c.begin k h.origin).owner n = c.owner n := Recorded.owner_snoc ..
  refine ⟨regular.begins found recorded, ?_, same.trans own⟩
  refine Nat.lt_of_not_le fun beyond => ?_
  have locked := before.locked n
  have nobody : c.memory.coordinators.length ≤ n := beyond
  rw [own, Memory.coordinator, part, List.getElem?_eq_none nobody] at locked
  cases locked

end Crew

open Coordinator in
/-- Jobs are carried out in order. -/
theorem Crew.Regular.job_keeps {h : Hand} {job : Job} (w : World ω) (regular : c.Regular) (before : c.Recorded m)
    (found : c.hand? k = some h) (fresh : h.station = .fresh) (origin : h.origin = .job job) :
    (order ω m).After (c.begin k h.origin)
      (job.routine.Keeps w (order ω m) k ((order ω m).Closes k) (c.begin k h.origin)) := by
  intro recorded
  have on' := regular.begins found recorded
  refine ⟨on'.regular, ?_⟩
  have frame : Upkeep w (order ω m) k .beside fun c => c.OnTurn m k ∧ True := OnTurn.frame w m k fun _ _ => trivial
  suffices job.routine.Keeps w (order ω m) k (fun _ c' => c'.OnTurn m k) (c.begin k h.origin) from
    this.imp fun _ _ after => after.closes
  cases job with
  | ingest n id =>
    have owns := regular.begins_run before found fresh origin recorded
    exact ((order_drive w m n k).runStages id owns).bind (fun _ _ after => after.1) fun _ _ after => after.1
  | schedule n =>
    have idles : (c.begin k h.origin).Idles m n k := ⟨on', (regular.hands k h found).schedule n origin⟩
    exact ((order_conduct w m n k).scheduleRound idles).bind (fun _ _ after => after.1) fun _ _ after => after.1
  | describe e method =>
    have minds := (enrichWithPermit_minds e method).beside.bind fun outcome => .pure (Yield.outcome outcome)
    exact (minds.keeps frame ⟨on', trivial⟩).imp fun _ _ after => after.1
  | search source vector limit threshold kind =>
    have minds := (source.find_minds vector limit threshold kind).beside.bind fun hits => .pure (Yield.hits hits)
    exact (minds.keeps frame ⟨on', trivial⟩).imp fun _ _ after => after.1

/-- A memory in which nothing is under way. -/
structure Memory.Resting (m : Memory) : Prop where
  unlocked : ∀ n, (m.coordinator n).run.locked = false
  unset : ∀ n, (m.coordinator n).run.stage = none
  unscheduled : ∀ n, (m.coordinator n).scheduler = none
  facade : m.Joined

theorem Memory.coordinated_resting : Memory.coordinated.Resting := by
  have either : ∀ n, Memory.coordinated.coordinator n = Memory.coordinated.coordinator 0 ∨
      Memory.coordinated.coordinator n = default := by
    intro n
    cases n with
    | zero => exact .inl rfl
    | succ => exact .inr rfl
  refine ⟨fun n => ?_, fun n => ?_, fun n => ?_, ⟨nofun, nofun⟩⟩ <;> rcases either n with same | same <;> rw [same] <;> rfl

theorem Memory.Resting.regular (resting : m.Resting) (world : ω) (hasLoop : Bool) :
    (Crew.start m world hasLoop).Regular := by
  refine ⟨fun _ => trivial, fun n k => ?_, fun n _ => resting.unset n, fun k h found => ?_, fun n t plans => ?_,
    resting.facade, fun _ inside => by cases inside⟩
  · have unset : ((Crew.start m world hasLoop).memory.coordinator n).run.stage = none := resting.unset n
    rw [unset, ite_self]
    rfl
  · cases k <;> simp [Crew.hand?, Crew.start] at found
  · have unplanned : ((Crew.start m world hasLoop).memory.coordinator n).scheduler = none := resting.unscheduled n
    rw [unplanned] at plans
    cases plans

/-- Where callers keep a crew in order, everybody does. -/
theorem Crew.order_guards {callers : Routine Yield → Prop}
    (calls : ∀ {program c k}, callers program → c.OnTurn m k →
      program.Keeps w (order ω m) k ((order ω m).Closes k) c) : (order ω m).Guards w callers where
  call _ regular _ _ := regular.call _
  pass _ regular := regular.pass _
  drop _ regular _ _ _ _ _ := ⟨regular.close _ _, trivial⟩
  begin := by
    intro c k h before regular _ found fresh _ known recorded
    have begins := regular.begins found recorded
    cases origin : h.origin with
    | job work =>
      have keeps := regular.job_keeps w before found fresh origin recorded
      rwa [origin] at keeps
    | caller program =>
      rw [origin] at begins
      exact ⟨begins.regular, calls (known program origin) begins⟩

/-- Where callers keep a crew in order, it stays in order. -/
theorem Shift.Reach.regular {callers : Routine Yield → Prop} {world : ω} {hasLoop : Bool} {a : Shift ω}
    (calls : ∀ {program c k}, callers program → c.OnTurn m k →
      program.Keeps w (order ω m) k ((order ω m).Closes k) c) (resting : m.Resting)
    (reach : Shift.Reach w callers m world hasLoop a) : a.crew.Regular :=
  (reach.sound (order_guards calls) (fun reach => reach.recorded resting.unlocked) (resting.regular world hasLoop)).holds

/-- Coordinators that were there at first stay. -/
theorem Crew.OnTurn.idles (on : c.OnTurn m k) (present : n < m.coordinators.length) : c.Idles m n k := by
  refine ⟨on, Nat.lt_of_lt_of_le present ?_⟩
  rw [on.recorded.memory]
  exact Log.grown on.recorded.chained on.regular.growing

/-- Callers of a coordinator keep a crew in order. -/
theorem Coordinator.Caller.orderly {program : Routine Yield} (present : n < m.coordinators.length)
    (calls : Coordinator.Caller n program) (on : c.OnTurn m k) :
    program.Keeps w (order ω m) k ((order ω m).Closes k) c :=
  (order_conduct w m n k).caller Idles.stop (fun idles => idles.1.closes) calls (on.idles present)

end CodeAtlas
