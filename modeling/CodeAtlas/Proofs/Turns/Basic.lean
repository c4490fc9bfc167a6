import CodeAtlas.Ingestion

namespace CodeAtlas

/-- Questions that are answered on the spot, without anybody else taking a turn. -/
def Ask.prompt : Ask → Bool
  | .drawId => true
  | .newWorker _ => true
  | _ => false

/-- The answers that may come: a fresh identifier never fails to be drawn, and a worker that cannot
be made is an ordinary fault. Everything else may be answered in any way. -/
def Ask.Admits : (question : Ask) → Except Fault question.Reply → Prop
  | .drawId, reply => ∃ drawn, reply = .ok drawn
  | .newWorker _, .error fault => fault.ordinary
  | _, _ => True

theorem Ask.admits_of_slow (question : Ask) (slow : question.prompt = false)
    (reply : Except Fault question.Reply) : question.Admits reply := by
  cases question <;> trivial

/-- Requests that let others take their turns before they are granted. -/
def Control.waits : Control → Bool
  | .pause _ => true
  | .join _ => true
  | .shield _ => true
  | .joinWorker _ => true
  | _ => false

/-- What a task carries out: a job of the program, or the program of somebody who calls it. -/
inductive Origin where
  | job (work : Job)
  | caller (program : Routine Yield)

def Origin.routine : Origin → Routine Yield
  | .job work => work.routine
  | .caller program => program

def Origin.repeats : Origin → Bool
  | .job work => work.repeats
  | .caller _ => false

/-- How far a task is. One that waits goes on with the answer to its question or its request. -/
inductive Stand where
  | fresh
  | running
  | asking (question : Ask) (next : Except Fault question.Reply → Routine Yield)
  | waiting (request : Control) (next : Except Fault request.Reply → Routine Yield)
  | ended

/-- A task. One that is to stop before it has begun never begins. -/
structure Task where
  origin : Origin
  stopped : Bool
  stand : Stand

namespace Task

def moved (stand : Stand) (t : Task) : Task := { t with stand }

/-- A job that repeats is due again when it has ended well. -/
def closed (result : Except Fault Yield) (t : Task) : Task :=
  match result with
  | .ok _ => t.moved (if t.origin.repeats then .fresh else .ended)
  | .error _ => t.moved .ended

def cancelled (t : Task) : Task :=
  match t.stand with
  | .fresh => { t with stopped := true }
  | _ => t

end Task

/-- What a task does that others can notice. -/
inductive Deed where
  | begins (origin : Origin)
  | stores (before after : Memory)
  | asks (question : Ask)
  | hears (question : Ask) (reply : Except Fault question.Reply)
  | starts (job : Job) (number : Nat)

/-- Who takes turns: a job, or somebody who calls the program. -/
inductive Who where
  | job (number : Nat)
  | caller (number : Nat)
  deriving DecidableEq

/-- What is not about groups of jobs and their permits. Nobody stops themselves. -/
def Control.Plain (k : Who) : Control → Prop
  | .cancel j => k ≠ .job j
  | .gather .. => False
  | .takePermit => False
  | .givePermit => False
  | _ => True

theorem Control.plain_of_waits (k : Who) (request : Control) (waits : request.waits = true) : request.Plain k := by
  cases request <;> trivial

/-- What all tasks share, the tasks themselves, and everything that was done so far and by whom. -/
structure Scene where
  memory : Memory
  jobs : List Task
  callers : List Task
  trace : List (Who × Deed)

def Task.new (origin : Origin) : Task := { origin, stopped := false, stand := .fresh }

namespace Scene

def task? (s : Scene) : Who → Option Task
  | .job j => s.jobs[j]?
  | .caller j => s.callers[j]?

def note (k : Who) (deed : Deed) (s : Scene) : Scene := { s with trace := s.trace ++ [(k, deed)] }

def onTask (k : Who) (f : Task → Task) (s : Scene) : Scene :=
  { s with
    jobs := match k with
      | .job j => s.jobs.modify j f
      | .caller _ => s.jobs
    callers := match k with
      | .job _ => s.callers
      | .caller j => s.callers.modify j f }

def call (program : Routine Yield) (s : Scene) : Scene :=
  { s with callers := s.callers ++ [.new (.caller program)] }

def begin (k : Who) (origin : Origin) (s : Scene) : Scene :=
  (s.note k (.begins origin)).onTask k (Task.moved .running)

def store (k : Who) (memory : Memory) (s : Scene) : Scene :=
  { s.note k (.stores s.memory memory) with memory }

def ask (k : Who) (question : Ask) (next : Except Fault question.Reply → Routine Yield) (s : Scene) : Scene :=
  (s.note k (.asks question)).onTask k (Task.moved (.asking question next))

def hear (k : Who) (question : Ask) (reply : Except Fault question.Reply) (s : Scene) : Scene :=
  (s.note k (.hears question reply)).onTask k (Task.moved .running)

/-- A question with its answer on the spot. -/
def exchange (k : Who) (question : Ask) (reply : Except Fault question.Reply) (s : Scene) : Scene :=
  (s.note k (.asks question)).note k (.hears question reply)

def wait (k : Who) (request : Control) (next : Except Fault request.Reply → Routine Yield) (s : Scene) : Scene :=
  s.onTask k (Task.moved (.waiting request next))

def resume (k : Who) : Scene → Scene := onTask k (Task.moved .running)

def start (k : Who) (job : Job) (s : Scene) : Scene :=
  let s := s.note k (.starts job s.jobs.length)
  { s with jobs := s.jobs ++ [.new (.job job)] }

def close (k : Who) (result : Except Fault Yield) : Scene → Scene := onTask k (Task.closed result)

/-- What a request that is granted at once does. Times, and whether there is a loop or a job has ended,
are left open. -/
def Grants (s : Scene) (k : Who) : (request : Control) → Except Fault request.Reply → Scene → Prop
  | .now, reply, s' => (∃ time, reply = .ok time) ∧ s' = s
  | .hasLoop, reply, s' => (∃ answer, reply = .ok answer) ∧ s' = s
  | .ended _, reply, s' => (∃ answer, reply = .ok answer) ∧ s' = s
  | .spawn job, reply, s' => reply = .ok s.jobs.length ∧ s' = s.start k job
  | .dispatch job, reply, s' => reply = .ok s.jobs.length ∧ s' = s.start k job
  | .cancel j, reply, s' => reply = .ok () ∧ s' = s.onTask (.job j) Task.cancelled
  | _, _, _ => False

theorem Grants.at_once {s s' : Scene} {k : Who} {request : Control} {reply : Except Fault request.Reply}
    (granted : s.Grants k request reply s') : request.waits = false := by
  cases request with
  | pause | join | shield | joinWorker => exact False.elim granted
  | _ => rfl

end Scene

theorem Scene.task?_onTask (k j : Who) (f : Task → Task) (s : Scene) :
    (s.onTask k f).task? j = if k = j then (s.task? j).map f else s.task? j := by
  cases k <;> cases j <;> simp [onTask, task?, List.getElem?_modify] <;> split <;> simp_all

theorem Scene.onTask_found {s : Scene} {j : Who} {t : Task} (found : s.task? j = some t) (k : Who) (f : Task → Task) :
    (s.onTask k f).task? j = some (if k = j then f t else t) := by
  rw [task?_onTask, found]
  split <;> rfl

/-- A task is the one that was moved, or what it was before. -/
theorem Scene.onTask_cases {s : Scene} {k j : Who} {f : Task → Task} {t : Task}
    (found : (s.onTask k f).task? j = some t) :
    k = j ∧ (∃ old, s.task? j = some old ∧ t = f old) ∨ k ≠ j ∧ s.task? j = some t := by
  rw [task?_onTask] at found
  split at found
  next same =>
    obtain ⟨old, at_j, rfl⟩ := Option.map_eq_some_iff.mp found
    exact .inl ⟨same, old, at_j, rfl⟩
  next other => exact .inr ⟨other, found⟩

theorem Task.cancelled_origin (t : Task) : t.cancelled.origin = t.origin := by
  unfold cancelled
  split <;> rfl

theorem Task.cancelled_running (t : Task) : t.cancelled.stand = .running ↔ t.stand = .running := by
  unfold cancelled
  split <;> rfl

theorem List.getElem?_snoc {α : Type} (xs : List α) (x : α) (i : Nat) :
    (xs ++ [x])[i]? = if i = xs.length then some x else xs[i]? := by
  by_cases last : i = xs.length
  · simp [last]
  · rw [if_neg last, List.getElem?_append]
    split
    · rfl
    next outside => rw [List.getElem?_eq_none (by simp; omega), List.getElem?_eq_none (by omega)]

/-- A task is added where there was none, and nothing else is different. -/
structure Scene.Joined (s s' : Scene) (k : Who) (origin : Origin) : Prop where
  memory : s'.memory = s.memory
  trace : s'.trace = s.trace
  free : s.task? k = none
  tasks : ∀ j, s'.task? j = if j = k then some (.new origin) else s.task? j

theorem Scene.call_joined (s : Scene) (program : Routine Yield) :
    s.Joined (s.call program) (.caller s.callers.length) (.caller program) where
  memory := rfl
  trace := rfl
  free := by simp [task?]
  tasks := by
    intro j
    cases j with
    | job => simp [task?, call]
    | caller j => simp [task?, call, List.getElem?_snoc]

theorem Scene.start_joined (s : Scene) (k : Who) (job : Job) :
    (s.note k (.starts job s.jobs.length)).Joined (s.start k job) (.job s.jobs.length) (.job job) where
  memory := rfl
  trace := rfl
  free := by simp [task?, note]
  tasks := by
    intro j
    cases j with
    | job j => simp [task?, start, note, List.getElem?_snoc]
    | caller => simp [task?, start, note]

theorem Scene.Joined.old {s s' : Scene} {k j : Who} {origin : Origin} {t : Task} (joined : s.Joined s' k origin)
    (found : s.task? j = some t) : s'.task? j = some t := by
  have other : j ≠ k := by
    rintro rfl
    cases joined.free.symm.trans found
  rw [joined.tasks, if_neg other, found]

theorem Scene.Joined.new {s s' : Scene} {k : Who} {origin : Origin} (joined : s.Joined s' k origin) :
    s'.task? k = some (.new origin) := by
  rw [joined.tasks, if_pos rfl]

theorem Scene.Joined.cases {s s' : Scene} {k j : Who} {origin : Origin} {t : Task} (joined : s.Joined s' k origin)
    (found : s'.task? j = some t) : s.task? j = some t ∨ j = k ∧ t = .new origin := by
  rw [joined.tasks] at found
  split at found
  next same => exact .inr ⟨same, (Option.some.inj found).symm⟩
  next => exact .inl found

/-- A scene and the task whose turn it is, with the rest of its routine. -/
structure Pool where
  scene : Scene
  turn : Option (Who × Routine Yield)

namespace Pool

/-- One step of tasks that take turns in any order. A turn lasts until the task waits or ends, and the
next one may be that of any task. Callers come at any time. -/
inductive Step (callers : Routine Yield → Prop) : Pool → Pool → Prop
  | look {s k next} : Step callers ⟨s, some (k, .look next)⟩ ⟨s, some (k, next s.memory)⟩
  | store {s k memory next} :
      Step callers ⟨s, some (k, .store memory next)⟩ ⟨s.store k memory, some (k, next)⟩
  | exchange {s k question next reply} : question.prompt = true → question.Admits reply →
      Step callers ⟨s, some (k, .ask question next)⟩ ⟨s.exchange k question reply, some (k, next reply)⟩
  | ask {s k question next} : question.prompt = false →
      Step callers ⟨s, some (k, .ask question next)⟩ ⟨s.ask k question next, none⟩
  | grant {s k request next reply s'} : s.Grants k request reply s' →
      Step callers ⟨s, some (k, .control request next)⟩ ⟨s', some (k, next reply)⟩
  | wait {s k request next} : request.waits = true →
      Step callers ⟨s, some (k, .control request next)⟩ ⟨s.wait k request next, none⟩
  | close {s k result} : Step callers ⟨s, some (k, .done result)⟩ ⟨s.close k result, none⟩
  | begin {s k t} : s.task? k = some t → t.stand = .fresh → t.stopped = false →
      Step callers ⟨s, none⟩ ⟨s.begin k t.origin, some (k, t.origin.routine)⟩
  | drop {s k t} : s.task? k = some t → t.stand = .fresh → t.stopped = true →
      Step callers ⟨s, none⟩ ⟨s.onTask k (Task.moved .ended), none⟩
  | hear {s k t question next reply} : s.task? k = some t → t.stand = .asking question next →
      question.Admits reply → Step callers ⟨s, none⟩ ⟨s.hear k question reply, some (k, next reply)⟩
  | resume {s k t request next reply} : s.task? k = some t → t.stand = .waiting request next →
      Step callers ⟨s, none⟩ ⟨s.resume k, some (k, next reply)⟩
  | call {s program} : callers program → Step callers ⟨s, none⟩ ⟨s.call program, none⟩

/-- What can become of a memory when nothing is under way at first. -/
inductive Reach (callers : Routine Yield → Prop) (memory : Memory) : Pool → Prop
  | start : Reach callers memory ⟨⟨memory, [], [], []⟩, none⟩
  | next {a b} : Reach callers memory a → Step callers a b → Reach callers memory b

end Pool

/-- Whoever is in the middle of a turn is the one whose turn it is. -/
def Pool.Single (a : Pool) : Prop :=
  ∀ (k : Who) (t : Task), a.scene.task? k = some t → t.stand = .running → ∃ p, a.turn = some (k, p)

namespace Pool.Single

variable {s s' : Scene} {k : Who} {p : Routine Yield}

/-- A turn goes on, whatever else was done to the tasks, as long as nobody else is in a turn. -/
theorem goesOn (single : Single ⟨s, some (k, p)⟩) (q : Routine Yield)
    (others : ∀ j t, s'.task? j = some t → t.stand = .running → ∃ t, s.task? j = some t ∧ t.stand = .running) :
    Single ⟨s', some (k, q)⟩ := by
  intro j t found running
  obtain ⟨t', found', running'⟩ := others j t found running
  obtain ⟨_, ⟨⟩⟩ := single j t' found' running'
  exact ⟨q, rfl⟩

theorem ends (single : Single ⟨s, some (k, p)⟩) {f : Task → Task} (rests : ∀ t, (f t).stand ≠ .running) :
    Single ⟨s.onTask k f, none⟩ := by
  intro j t found running
  obtain ⟨_, t', _, rfl⟩ | ⟨other, old⟩ := Scene.onTask_cases found
  · exact absurd running (rests t')
  · obtain ⟨_, same⟩ := single j t old running
    cases same
    exact absurd rfl other

theorem begins (single : Single ⟨s, none⟩) (f : Task → Task) : Single ⟨s.onTask k f, some (k, p)⟩ := by
  intro j t found running
  obtain ⟨rfl, _⟩ | ⟨_, old⟩ := Scene.onTask_cases found
  · exact ⟨p, rfl⟩
  · obtain ⟨_, ⟨⟩⟩ := single j t old running

end Pool.Single

theorem Pool.Step.single {callers : Routine Yield → Prop} {a b : Pool} (step : Pool.Step callers a b)
    (single : a.Single) : b.Single := by
  cases step with
  | look => exact single.goesOn _ fun j t found running => ⟨t, found, running⟩
  | store => exact single.goesOn _ fun j t found running => ⟨t, found, running⟩
  | exchange => exact single.goesOn _ fun j t found running => ⟨t, found, running⟩
  | ask => exact Single.ends (s := _) single fun t => nofun
  | @grant s k request next reply s' granted =>
    refine single.goesOn _ fun j t found running => ?_
    cases request with
    | now | hasLoop | ended =>
      obtain ⟨_, rfl⟩ := granted
      exact ⟨t, found, running⟩
    | spawn job | dispatch job =>
      obtain ⟨_, rfl⟩ := granted
      rcases (s.start_joined k job).cases found with old | ⟨_, rfl⟩
      · exact ⟨t, old, running⟩
      · cases running
    | cancel i =>
      obtain ⟨_, rfl⟩ := granted
      obtain ⟨_, t', old, rfl⟩ | ⟨_, old⟩ := Scene.onTask_cases found
      · exact ⟨t', old, t'.cancelled_running.mp running⟩
      · exact ⟨t, old, running⟩
    | _ => exact granted.elim
  | wait => exact single.ends fun t => nofun
  | @close s k result =>
    refine single.ends fun t => ?_
    cases result with
    | error => exact nofun
    | ok => cases again : t.origin.repeats <;> simp [Task.closed, Task.moved, again]
  | begin => exact Single.begins (s := _) single _
  | drop =>
    intro j t found running
    obtain ⟨_, t', _, rfl⟩ | ⟨_, old⟩ := Scene.onTask_cases found
    · cases running
    · exact single j t old running
  | hear => exact Single.begins (s := _) single _
  | resume => exact single.begins _
  | call =>
    intro j t found running
    rcases (Scene.call_joined _ _).cases found with old | ⟨_, rfl⟩
    · exact single j t old running
    · cases running

/-- Whoever calls carries out a program that may be called. -/
def Scene.Knows (callers : Routine Yield → Prop) (s : Scene) : Prop :=
  ∀ (k : Who) (t : Task), s.task? k = some t → ∀ program, t.origin = .caller program → callers program

namespace Scene.Knows

variable {callers : Routine Yield → Prop} {s s' : Scene} {k : Who}

theorem onTask (knows : s.Knows callers) {f : Task → Task} (origin : ∀ t, (f t).origin = t.origin) :
    (s.onTask k f).Knows callers := by
  intro j t found
  obtain ⟨_, old, at_j, rfl⟩ | ⟨_, same⟩ := Scene.onTask_cases found
  · exact origin old ▸ knows j old at_j
  · exact knows j t same

theorem joined (knows : s.Knows callers) {origin : Origin} (joined : s.Joined s' k origin)
    (known : ∀ program, origin = .caller program → callers program) : s'.Knows callers := by
  intro j t found
  rcases joined.cases found with old | ⟨_, rfl⟩
  · exact knows j t old
  · exact known

end Scene.Knows

theorem Task.closed_origin (result : Except Fault Yield) (t : Task) : (t.closed result).origin = t.origin := by
  cases result <;> rfl

theorem Pool.Step.knows {callers : Routine Yield → Prop} {a b : Pool} (step : Pool.Step callers a b)
    (knows : a.scene.Knows callers) : b.scene.Knows callers := by
  cases step with
  | look | store | exchange => exact knows
  | ask => exact Scene.Knows.onTask (s := _) knows fun _ => rfl
  | @grant s k request next reply s' granted =>
    cases request with
    | now | hasLoop | ended =>
      obtain ⟨_, rfl⟩ := granted
      exact knows
    | spawn job | dispatch job =>
      obtain ⟨_, rfl⟩ := granted
      exact Scene.Knows.joined (s := s.note k (.starts job s.jobs.length)) knows (s.start_joined k job) nofun
    | cancel =>
      obtain ⟨_, rfl⟩ := granted
      exact knows.onTask Task.cancelled_origin
    | _ => exact granted.elim
  | close => exact knows.onTask (Task.closed_origin _)
  | begin => exact Scene.Knows.onTask (s := _) knows fun _ => rfl
  | hear => exact Scene.Knows.onTask (s := _) knows fun _ => rfl
  | wait | drop | resume => exact knows.onTask fun _ => rfl
  | call calls =>
    refine Scene.Knows.joined knows (Scene.call_joined _ _) ?_
    rintro _ ⟨⟩
    exact calls

theorem Pool.Reach.knows {callers : Routine Yield → Prop} {memory : Memory} {a : Pool}
    (reach : Pool.Reach callers memory a) : a.scene.Knows callers := by
  induction reach with
  | start => exact fun k t found => by cases k <;> simp [Scene.task?] at found
  | next _ step knows => exact step.knows knows

/-- Turns do not overlap. -/
theorem Pool.Reach.single {callers : Routine Yield → Prop} {memory : Memory} {a : Pool}
    (reach : Pool.Reach callers memory a) : a.Single := by
  induction reach with
  | start => exact fun k t found => by cases k <;> simp [Scene.task?] at found
  | next _ step single => exact step.single single

end CodeAtlas
