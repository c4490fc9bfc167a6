import CodeAtlas.Proofs.Turns.Mirror

namespace CodeAtlas

variable {ω : Type}

/-- What surrounds the program answers on the spot what nobody else takes a turn for. -/
structure World.Prompt (w : World ω) : Prop where
  soon : ∀ (question : Ask) time x, question.prompt = true → ¬0 < (w.answer question time x).delay
  admits : ∀ (question : Ask) time x, question.Admits (w.answer question time x).reply

/-- The task is there, and is what it was when it began. -/
def Scene.Has (s : Scene) (k : Who) (origin : Origin) : Prop := ∃ t, s.task? k = some t ∧ t.origin = origin

theorem Scene.Has.onTask {s : Scene} {k : Who} {origin : Origin} (has : s.Has k origin) (j : Who) {f : Task → Task}
    (same : ∀ t, (f t).origin = t.origin) : (s.onTask j f).Has k origin := by
  obtain ⟨t, found, rfl⟩ := has
  refine ⟨_, Scene.onTask_found found j f, ?_⟩
  split
  · exact same t
  · rfl

theorem Scene.Has.start {s : Scene} {k : Who} {origin : Origin} (has : s.Has k origin) (j : Who) (job : Job) :
    (s.start j job).Has k origin := by
  obtain ⟨t, found, began⟩ := has
  exact ⟨t, (s.start_joined j job).old found, began⟩

theorem Scene.Has.bound {s : Scene} {who : Party} {origin : Origin} (has : s.Has who.who origin) (j : Nat)
    (same : some who.who = some (.job j)) : j < s.jobs.length := by
  obtain ⟨t, found, _⟩ := has
  rw [Option.some.inj same] at found
  exact (List.getElem?_eq_some_iff.mp found).1

theorem Scene.onTask_same (s : Scene) (k : Who) : (s.onTask k fun t => t) = s := by
  have same (tasks : List Task) (j : Nat) : (tasks.modify j fun t => t) = tasks := List.modify_id ..
  cases k <;> simp [onTask, same]

namespace Pool.Reach

variable {callers : Routine Yield → Prop} {m : Memory} {s : Scene} {k : Who} {origin : Origin}

/-- A question may be answered before anybody else takes a turn. -/
theorem answered {question : Ask} {next : Except Fault question.Reply → Routine Yield}
    {reply : Except Fault question.Reply} (reach : Reach callers m ⟨s, some (k, .ask question next)⟩)
    (slow : question.prompt = false) (has : s.Has k origin) (admits : question.Admits reply) :
    Reach callers m ⟨(s.ask k question next).hear k question reply, some (k, next reply)⟩ := by
  obtain ⟨t, found, _⟩ := has
  have waiting : (s.ask k question next).task? k = some (t.moved (.asking question next)) := by
    rw [Scene.ask, Scene.task?_onTask, if_pos rfl]
    exact congrArg (Option.map _) found
  exact (reach.next (.ask slow)).next (.hear waiting rfl admits)

/-- A wait may end before anybody else takes a turn. -/
theorem resumed {request : Control} {next : Except Fault request.Reply → Routine Yield}
    (reach : Reach callers m ⟨s, some (k, .control request next)⟩) (waits : request.waits = true)
    (has : s.Has k origin) (reply : Except Fault request.Reply) :
    Reach callers m ⟨(s.wait k request next).resume k, some (k, next reply)⟩ := by
  obtain ⟨t, found, _⟩ := has
  have waiting : (s.wait k request next).task? k = some (t.moved (.waiting request next)) := by
    rw [Scene.wait, Scene.task?_onTask, if_pos rfl]
    exact congrArg (Option.map _) found
  exact (reach.next (.wait waits)).next (.resume waiting rfl)

end Pool.Reach

/-- Whoever waits goes on, whatever the wait ends with. -/
theorem Pool.Reach.goesOn {callers : Routine Yield → Prop} {m : Memory} {s : Scene} {k : Who} {t : Task}
    {resume : Waited → Routine Yield} (reach : Reach callers m ⟨s, none⟩) (there : s.task? k = some t)
    (goesOn : t.stand.GoesOn resume) (waited : Waited) :
    ∃ s', s.Alike s' ∧ Reach callers m ⟨s'.onTask k (Task.moved .running), some (k, resume waited)⟩ := by
  rcases goesOn with ⟨question, next, asking, slow, resumes⟩ | ⟨request, next, waiting, resumes⟩
  · obtain ⟨reply, same⟩ := resumes waited
    rw [same]
    have heard := reach.next (.hear there asking (question.admits_of_slow slow reply))
    exact ⟨s.note k (.hears question reply), ⟨rfl, rfl, rfl⟩, heard⟩
  · obtain ⟨reply, same⟩ := resumes waited
    rw [same]
    exact ⟨s, ⟨rfl, rfl, rfl⟩, reach.next (.resume there waiting)⟩

namespace Agenda

/-- What a part of a turn leads to: the task has ended, or waits for what was put by for it. -/
def Advanced (callers : Routine Yield → Prop) (m : Memory) (who : Party) (origin : Origin) (before : Scene) :
    Agenda ω × Advance Yield → Prop
  | (a, .ended result) => ∃ s, a.Mirrors s (some who.who) ∧ s.Has who.who origin ∧
      (who ≠ .main → s.callers = before.callers) ∧ Pool.Reach callers m ⟨s, some (who.who, .done result)⟩
  | (a, .waits _ resume) => ∃ s t, a.Mirrors s (some who.who) ∧ s.task? who.who = some t ∧ t.origin = origin ∧
      (who ≠ .main → s.callers = before.callers) ∧ t.stand.GoesOn resume ∧ Pool.Reach callers m ⟨s, none⟩

variable {callers : Routine Yield → Prop} {inv : Scene → Prop} {m : Memory} {w : World ω} {who : Party}
  {origin : Origin}

theorem Advanced.mono {before before' : Scene} {result : Agenda ω × Advance Yield}
    (advanced : Advanced callers m who origin before' result)
    (same : who ≠ .main → before'.callers = before.callers) : Advanced callers m who origin before result := by
  obtain ⟨a, _ | _⟩ := result
  · obtain ⟨s, mirrors, has, kept, reach⟩ := advanced
    exact ⟨s, mirrors, has, fun other => (kept other).trans (same other), reach⟩
  · obtain ⟨s, t, mirrors, found, began, kept, goesOn, reach⟩ := advanced
    exact ⟨s, t, mirrors, found, began, fun other => (kept other).trans (same other), goesOn, reach⟩

theorem callers_onTask (s : Scene) (f : Task → Task) (other : who ≠ .main) :
    (s.onTask who.who f).callers = s.callers := by
  cases who with
  | main => exact absurd rfl other
  | job => rfl

theorem advanced_moved {a : Agenda ω} {s : Scene} {stand : Stand} {resume : Waited → Routine Yield}
    (mirrors : a.Mirrors s (some who.who)) (has : s.Has who.who origin) (goesOn : stand.GoesOn resume)
    (reach : Pool.Reach callers m ⟨s.onTask who.who (Task.moved stand), none⟩) (hold : Hold) :
    Advanced callers m who origin s (a, .waits hold resume) := by
  obtain ⟨t, found, began⟩ := has
  refine ⟨_, t.moved stand, mirrors.moved who (f := Task.moved stand) fun _ => ⟨rfl, rfl⟩, ?_, began,
    callers_onTask s _, goesOn, reach⟩
  simp [Scene.task?_onTask, found]

theorem advanced_wait {a : Agenda ω} {s : Scene} {request : Control} {next : Except Fault request.Reply → Routine Yield}
    (mirrors : a.Mirrors s (some who.who)) (has : s.Has who.who origin)
    (reach : Pool.Reach callers m ⟨s, some (who.who, .control request next)⟩) (waits : request.waits = true)
    (hold : Hold) (read : Waited → Except Fault request.Reply) :
    Advanced callers m who origin s (a, .waits hold fun waited => next (read waited)) :=
  advanced_moved mirrors has (.inr ⟨request, next, rfl, fun waited => ⟨read waited, rfl⟩⟩)
    (reach.next (.wait waits)) hold

/-- A routine is carried out as a task that may take its turns, wherever the loop begins with it. -/
def Advances (callers : Routine Yield → Prop) (m : Memory) (w : World ω) (who : Party) (origin : Origin)
    (p : Routine Yield) : Prop :=
  ∀ ⦃a : Agenda ω⦄ ⦃s : Scene⦄, a.Mirrors s (some who.who) → s.Has who.who origin →
    Pool.Reach callers m ⟨s, some (who.who, p)⟩ → Advanced callers m who origin s (a.advance w who p)

/-- A question may take its time, or be answered before anybody else takes a turn. -/
theorem Advances.ask (prompt : w.Prompt) {question : Ask} {next : Except Fault question.Reply → Routine Yield}
    (rest : ∀ reply, Advances callers m w who origin (next reply)) :
    Advances callers m w who origin (.ask question next) := by
  intro a s mirrors has reach
  have admits := prompt.admits question a.clock a.world
  have soon := prompt.soon question a.clock a.world
  generalize reaction : w.answer question a.clock a.world = r at admits soon
  have outside : Mirrors { a with world := r.world } s (some who.who) := mirrors.of_core rfl
  have noted := outside.note who.who (.asks question)
  by_cases waits : 0 < r.delay
  · have slow : question.prompt = false := Bool.eq_false_iff.mpr fun isPrompt => soon isPrompt waits
    have asked : Mirrors (setTimer who r.delay { a with world := r.world }) (s.note who.who (.asks question))
        (some who.who) := noted.of_core rfl
    simp only [advance, reaction, waits, if_true]
    refine (advanced_moved asked has ?_ (reach.next (.ask slow)) .timer).mono fun _ => rfl
    exact .inl ⟨question, next, rfl, slow, fun waited => ⟨_, rfl⟩⟩
  · simp only [advance, reaction, waits, if_false]
    cases isPrompt : question.prompt with
    | true =>
      have answered := noted.note who.who (.hears question r.reply)
      exact (rest r.reply answered has (reach.next (.exchange isPrompt admits))).mono fun _ => rfl
    | false =>
      have asked : Mirrors { a with world := r.world } (s.ask who.who question next) (some who.who) :=
        noted.moved who fun _ => ⟨rfl, rfl⟩
      have answered : Mirrors { a with world := r.world }
          ((s.ask who.who question next).hear who.who question r.reply) (some who.who) :=
        (asked.note who.who (.hears question r.reply)).moved who fun _ => ⟨rfl, rfl⟩
      have asking : (s.ask who.who question next).Has who.who origin := has.onTask who.who fun _ => rfl
      have still : ((s.ask who.who question next).hear who.who question r.reply).Has who.who origin :=
        asking.onTask who.who fun _ => rfl
      refine (rest r.reply answered still (reach.answered isPrompt has admits)).mono fun other => ?_
      exact (callers_onTask _ _ other).trans (callers_onTask _ _ other)

theorem Advances.resumed {a : Agenda ω} {s : Scene} {request : Control}
    {next : Except Fault request.Reply → Routine Yield} {reply : Except Fault request.Reply}
    (rest : Advances callers m w who origin (next reply)) (waits : request.waits = true)
    (mirrors : a.Mirrors s (some who.who)) (has : s.Has who.who origin)
    (reach : Pool.Reach callers m ⟨s, some (who.who, .control request next)⟩) :
    Advanced callers m who origin s (a.advance w who (next reply)) := by
  have wait : a.Mirrors (s.wait who.who request next) (some who.who) := mirrors.moved who fun _ => ⟨rfl, rfl⟩
  have moved : a.Mirrors ((s.wait who.who request next).resume who.who) (some who.who) :=
    wait.moved who fun _ => ⟨rfl, rfl⟩
  have waiting : (s.wait who.who request next).Has who.who origin := has.onTask who.who fun _ => rfl
  have still : ((s.wait who.who request next).resume who.who).Has who.who origin :=
    waiting.onTask who.who fun _ => rfl
  refine (rest moved still (reach.resumed waits has reply)).mono fun other => ?_
  exact (callers_onTask _ _ other).trans (callers_onTask _ _ other)

/-- What is asked of the loop is granted on the spot, or ends the turn. Nothing that concerns groups is. -/
theorem Advances.control {request : Control} {next : Except Fault request.Reply → Routine Yield}
    (rest : ∀ reply, Advances callers m w who origin (next reply))
    (plain : ∀ {s}, Pool.Reach callers m ⟨s, some (who.who, .control request next)⟩ → request.Plain who.who) :
    Advances callers m w who origin (.control request next) := by
  intro a s mirrors has reach
  have plain := plain reach
  cases request with
  | now => exact rest _ mirrors has (reach.next (.grant ⟨⟨a.clock, rfl⟩, rfl⟩))
  | hasLoop => exact rest _ mirrors has (reach.next (.grant ⟨⟨a.hasLoop, rfl⟩, rfl⟩))
  | ended j => exact rest _ mirrors has (reach.next (.grant ⟨⟨a.ended j, rfl⟩, rfl⟩))
  | spawn job =>
    have started : (a.spawn job none).Mirrors (s.start who.who job) (some who.who) :=
      (mirrors.start who.who job has.bound).of_core rfl
    have granted := reach.next (.grant ⟨rfl, rfl⟩)
    rw [mirrors.jobs] at granted
    exact (rest _ started (has.start who.who job) granted).mono fun _ => rfl
  | dispatch job =>
    have started := mirrors.start who.who job has.bound
    have granted := reach.next (.grant ⟨rfl, rfl⟩)
    rw [mirrors.jobs] at granted
    exact (rest _ started (has.start who.who job) granted).mono fun _ => rfl
  | cancel j =>
    have stopped := mirrors.cancelled (n := j) fun same => plain (Option.some.inj same)
    have still := has.onTask (.job j) Task.cancelled_origin
    exact (rest _ stopped still (reach.next (.grant ⟨rfl, rfl⟩))).mono fun _ => rfl
  | pause seconds =>
    simp only [advance, handle]
    by_cases soon : seconds ≤ 0
    · have pushed : (a.push (.resume who (.ok []))).Mirrors s (some who.who) := mirrors.of_core rfl
      simp only [soon, if_true]
      exact advanced_wait pushed has reach rfl .turn overOnly
    · have set : (a.setTimer who seconds).Mirrors s (some who.who) := mirrors.of_core rfl
      simp only [soon, if_false]
      exact advanced_wait set has reach rfl .timer overOnly
  | join j | shield j =>
    simp only [advance, handle, await]
    cases a.result? j with
    | some result => exact (rest _).resumed rfl mirrors has reach
    | none => exact advanced_wait (mirrors.watched j _) has reach rfl _ overOnly
  | joinWorker j =>
    simp only [advance, handle, await]
    cases a.result? j with
    | some result => exact (rest _).resumed rfl mirrors has reach
    | none =>
      have pushed : ((a.onEntrant j fun e => { e with watchers := e.watchers ++ [(who, .regardless)] }).push
          (.resume (.job j) (.ok []))).Mirrors s (some who.who) := (mirrors.watched j _).of_core rfl
      exact advanced_wait pushed has reach rfl _ overOnly
  | _ => exact plain.elim

/-- A turn of the loop, as long as nobody else takes one, consists of steps of the tasks. -/
theorem advance_mirrored (prompt : w.Prompt) (guarded : Guarded callers inv) (initially : inv ⟨m, [], [], []⟩)
    (p : Routine Yield) : Advances callers m w who origin p := by
  induction p with
  | done result =>
    intro a s mirrors has reach
    exact ⟨s, mirrors, has, fun _ => rfl, reach⟩
  | look next ih =>
    intro a s mirrors has reach
    have seen := reach.next .look
    rw [mirrors.memory] at seen
    exact ih a.memory mirrors has seen
  | store memory next ih =>
    intro a s mirrors has reach
    exact (ih (mirrors.store who.who memory) has (reach.next .store)).mono fun _ => rfl
  | ask question next ih => exact .ask prompt ih
  | control request next ih =>
    refine .control ih fun reach => ?_
    exact ((reach.sound guarded initially).obeys _ _ rfl).1

end Agenda

end CodeAtlas
