import CodeAtlas.Proofs.Turns.Basic

namespace CodeAtlas

def Scene.Asks (s : Scene) (k : Who) (question : Ask) : Prop :=
  ∃ t next, s.task? k = some t ∧ t.stand = .asking question next

def Scene.Waits (s : Scene) (k : Who) (request : Control) : Prop :=
  ∃ t next, s.task? k = some t ∧ t.stand = .waiting request next

/-- What task `k` carries out, if there is one, is this. -/
def Scene.Carries (s : Scene) (k : Who) (origin : Origin) : Prop := ∀ t, s.task? k = some t → t.origin = origin

theorem Scene.Carries.of_found {s : Scene} {k : Who} {t : Task} (found : s.task? k = some t) : s.Carries k t.origin := by
  intro t' found'
  cases Option.some.inj (found.symm.trans found')
  rfl

namespace Routine

variable {α β : Type} {inv : Scene → Prop} {k : Who}

/-- From the scene on, task `k` carries out the routine so that the invariant holds after each of its
steps, and ends it as stated. While it waits it relies on the invariant, on nobody being in the middle of
a turn when it goes on, on carrying out what it did, and on nothing else. -/
def Obeys (inv : Scene → Prop) (k : Who) : Routine α → (Except Fault α → Scene → Prop) → Scene → Prop
  | .done result, post, s => post result s
  | .look next, post, s => Obeys inv k (next s.memory) post s
  | .store memory next, post, s => inv (s.store k memory) ∧ Obeys inv k next post (s.store k memory)
  | .ask question next, post, s =>
    (question.prompt = true → ∀ reply, question.Admits reply → inv (s.exchange k question reply) ∧
      Obeys inv k (next reply) post (s.exchange k question reply)) ∧
    (question.prompt = false → (∀ rest, inv (s.ask k question rest)) ∧
      ∀ t reply s', s.task? k = some t → inv s' → Pool.Single ⟨s', none⟩ → s'.Carries k t.origin →
        s'.Asks k question → question.Admits reply →
          inv (s'.hear k question reply) ∧ Obeys inv k (next reply) post (s'.hear k question reply))
  | .control request next, post, s =>
    request.Plain k ∧
      (∀ reply s', s.Grants k request reply s' → inv s' ∧ Obeys inv k (next reply) post s') ∧
      (request.waits = true → (∀ rest, inv (s.wait k request rest)) ∧
        ∀ t reply s', s.task? k = some t → inv s' → Pool.Single ⟨s', none⟩ → s'.Carries k t.origin →
          s'.Waits k request → inv (s'.resume k) ∧ Obeys inv k (next reply) post (s'.resume k))

/-- What a routine leaves behind is what the rest begins with. -/
theorem Obeys.andThen {p : Routine α} {f : Except Fault α → Routine β} {m : Except Fault α → Scene → Prop}
    {post : Except Fault β → Scene → Prop} {s : Scene} (obeys : p.Obeys inv k m s)
    (rest : ∀ result s', m result s' → (f result).Obeys inv k post s') :
    (p.andThen f).Obeys inv k post s := by
  induction p generalizing s with
  | done result => exact rest result s obeys
  | look next ih => exact ih _ obeys
  | store memory next ih => exact ⟨obeys.1, ih obeys.2⟩
  | ask question next ih =>
    refine ⟨fun prompt reply admitted => ?_, fun slow => ?_⟩
    · exact ⟨(obeys.1 prompt reply admitted).1, ih reply (obeys.1 prompt reply admitted).2⟩
    · refine ⟨(obeys.2 slow).1, fun t reply s' found holds single same asks admitted => ?_⟩
      have after := (obeys.2 slow).2 t reply s' found holds single same asks admitted
      exact ⟨after.1, ih reply after.2⟩
  | control request next ih =>
    obtain ⟨plain, grants, waits⟩ := obeys
    refine ⟨plain, fun reply s' granted => ?_, fun isWait => ?_⟩
    · exact ⟨(grants reply s' granted).1, ih reply (grants reply s' granted).2⟩
    · refine ⟨(waits isWait).1, fun t reply s' found holds single same still => ?_⟩
      have after := (waits isWait).2 t reply s' found holds single same still
      exact ⟨after.1, ih reply after.2⟩

theorem Obeys.imp {p : Routine α} {post post' : Except Fault α → Scene → Prop} {s : Scene} (obeys : p.Obeys inv k post s)
    (weaker : ∀ result s', post result s' → post' result s') : p.Obeys inv k post' s := by
  rw [← andThen_done p]
  exact obeys.andThen weaker

theorem Obeys.bind {p : Routine α} {f : α → Routine β} {post : Except Fault β → Scene → Prop} {s : Scene}
    {m : Except Fault α → Scene → Prop} (obeys : p.Obeys inv k m s)
    (value : ∀ a s', m (.ok a) s' → (f a).Obeys inv k post s')
    (fault : ∀ e s', m (.error e) s' → post (.error e) s') : (p >>= f).Obeys inv k post s := by
  refine obeys.andThen ?_
  intro result s' holds
  cases result with
  | ok a => exact value a s' holds
  | error e => exact fault e s' holds

end Routine

/-- What a task goes on with keeps the invariant, whenever it goes on. -/
def Task.Resumes (inv : Scene → Prop) (k : Who) (t : Task) : Prop :=
  match t.stand with
  | .asking question next => ∀ reply s, inv s → Pool.Single ⟨s, none⟩ → s.Carries k t.origin → s.Asks k question →
      question.Admits reply → inv (s.hear k question reply) ∧
        (next reply).Obeys inv k (fun result s' => inv (s'.close k result)) (s.hear k question reply)
  | .waiting request next => ∀ reply s, inv s → Pool.Single ⟨s, none⟩ → s.Carries k t.origin → s.Waits k request →
      inv (s.resume k) ∧ (next reply).Obeys inv k (fun result s' => inv (s'.close k result)) (s.resume k)
  | _ => True

/-- Beginnings keep an invariant: callers that come, tasks that begin and tasks that never do. -/
structure Guarded (callers : Routine Yield → Prop) (inv : Scene → Prop) : Prop where
  call : ∀ {s program}, inv s → callers program → inv (s.call program)
  drop : ∀ {s k t}, inv s → s.task? k = some t → t.stand = .fresh → t.stopped = true →
    inv (s.onTask k (Task.moved .ended))
  begin : ∀ {s k t}, inv s → Pool.Single ⟨s, none⟩ → s.task? k = some t → t.stand = .fresh → t.stopped = false →
    (∀ program, t.origin = .caller program → callers program) → inv (s.begin k t.origin) ∧
      t.origin.routine.Obeys inv k (fun result s' => inv (s'.close k result)) (s.begin k t.origin)

/-- The invariant holds, and whoever is to go on keeps it. -/
structure Pool.Sound (inv : Scene → Prop) (a : Pool) : Prop where
  holds : inv a.scene
  resumes : ∀ (k : Who) (t : Task), a.scene.task? k = some t → t.Resumes inv k
  obeys : ∀ k p, a.turn = some (k, p) →
    p.Obeys inv k (fun result s' => inv (s'.close k result)) a.scene

/-- Tasks that are not moved to a wait go on as before. -/
theorem Task.Resumes.onTask {inv : Scene → Prop} {s : Scene} {k : Who} {f : Task → Task}
    (old : ∀ (j : Who) (t : Task), s.task? j = some t → t.Resumes inv j)
    (new : ∀ t, s.task? k = some t → (f t).Resumes inv k) :
    ∀ (j : Who) (t : Task), (s.onTask k f).task? j = some t → t.Resumes inv j := by
  intro j t found
  obtain ⟨rfl, before, at_k, rfl⟩ | ⟨_, same⟩ := Scene.onTask_cases found
  · exact new before at_k
  · exact old j t same

theorem Task.Resumes.joined {inv : Scene → Prop} {s s' : Scene} {k : Who} {origin : Origin}
    (joined : s.Joined s' k origin) (old : ∀ (j : Who) (t : Task), s.task? j = some t → t.Resumes inv j) :
    ∀ (j : Who) (t : Task), s'.task? j = some t → t.Resumes inv j := by
  intro j t found
  rcases joined.cases found with before | ⟨_, rfl⟩
  · exact old j t before
  · trivial

theorem Task.Resumes.grants {inv : Scene → Prop} {s s' : Scene} {k : Who} {request : Control}
    {reply : Except Fault request.Reply} (granted : s.Grants k request reply s')
    (old : ∀ (j : Who) (t : Task), s.task? j = some t → t.Resumes inv j) :
    ∀ (j : Who) (t : Task), s'.task? j = some t → t.Resumes inv j := by
  cases request with
  | now | hasLoop | ended => obtain ⟨_, rfl⟩ := granted; exact old
  | spawn | dispatch => obtain ⟨_, rfl⟩ := granted; exact Task.Resumes.joined (s.start_joined k _) old
  | cancel j =>
    obtain ⟨_, rfl⟩ := granted
    refine Task.Resumes.onTask old fun t at_j => ?_
    have before := old (.job j) t at_j
    unfold Task.cancelled
    split
    · trivial
    · exact before
  | _ => exact granted.elim

theorem Task.Resumes.closed {inv : Scene → Prop} (k : Who) (result : Except Fault Yield) (t : Task) :
    (t.closed result).Resumes inv k := by
  unfold Task.closed
  split
  · by_cases again : t.origin.repeats <;> simp [Task.moved, Task.Resumes, again]
  · trivial

/-- Each step of each task keeps the invariant, and leaves the tasks able to keep it. -/
theorem Pool.Sound.step {callers : Routine Yield → Prop} {inv : Scene → Prop} {a b : Pool}
    (guarded : Guarded callers inv) (single : a.Single) (knows : a.scene.Knows callers) (sound : a.Sound inv)
    (step : Pool.Step callers a b) : b.Sound inv := by
  obtain ⟨holds, resumes, obeys⟩ := sound
  cases step with
  | look =>
    have next := obeys _ _ rfl
    exact ⟨holds, resumes, fun k p same => by cases same; exact next⟩
  | store =>
    have next := obeys _ _ rfl
    exact ⟨next.1, resumes, fun k p same => by cases same; exact next.2⟩
  | exchange prompt admitted =>
    have next := (obeys _ _ rfl).1 prompt _ admitted
    exact ⟨next.1, resumes, fun k p same => by cases same; exact next.2⟩
  | ask slow =>
    have next := (obeys _ _ rfl).2 slow
    exact ⟨next.1 _, Task.Resumes.onTask resumes fun t found reply s' => next.2 t reply s' found,
      fun k p same => by cases same⟩
  | grant granted =>
    have next := (obeys _ _ rfl).2.1 _ _ granted
    exact ⟨next.1, Task.Resumes.grants granted resumes, fun k p same => by cases same; exact next.2⟩
  | wait waits =>
    have next := (obeys _ _ rfl).2.2 waits
    exact ⟨next.1 _, Task.Resumes.onTask resumes fun t found reply s' => next.2 t reply s' found,
      fun k p same => by cases same⟩
  | @close s k result =>
    have next := obeys _ _ rfl
    exact ⟨next, Task.Resumes.onTask resumes fun t _ => Task.Resumes.closed k result t,
      fun k p same => by cases same⟩
  | begin at_k fresh going =>
    have next := guarded.begin holds single at_k fresh going (knows _ _ at_k)
    exact ⟨next.1, Task.Resumes.onTask resumes fun _ _ => trivial,
      fun k p same => by cases same; exact next.2⟩
  | drop at_k fresh stopped =>
    have next := guarded.drop holds at_k fresh stopped
    exact ⟨next, Task.Resumes.onTask resumes fun _ _ => trivial, fun k p same => by cases same⟩
  | @hear s k t question next reply at_k asking admitted =>
    have able := resumes k t at_k
    simp only [Task.Resumes, asking] at able
    have next := able reply s holds single (.of_found at_k) ⟨t, next, at_k, asking⟩ admitted
    exact ⟨next.1, Task.Resumes.onTask resumes fun _ _ => trivial,
      fun k p same => by cases same; exact next.2⟩
  | @resume s k t request next reply at_k waiting =>
    have able := resumes k t at_k
    simp only [Task.Resumes, waiting] at able
    have next := able reply s holds single (.of_found at_k) ⟨t, next, at_k, waiting⟩
    exact ⟨next.1, Task.Resumes.onTask resumes fun _ _ => trivial,
      fun k p same => by cases same; exact next.2⟩
  | call calls =>
    exact ⟨guarded.call holds calls, Task.Resumes.joined (Scene.call_joined _ _) resumes, fun k p same => by cases same⟩

/-- Whoever is to go on in a reachable scene keeps what beginnings and routines keep. -/
theorem Pool.Reach.sound {callers : Routine Yield → Prop} {inv : Scene → Prop} {memory : Memory}
    {a : Pool} (guarded : Guarded callers inv) (initially : inv ⟨memory, [], [], []⟩)
    (reach : Pool.Reach callers memory a) : a.Sound inv := by
  induction reach with
  | start =>
    exact ⟨initially, fun k t found => by cases k <;> simp [Scene.task?] at found, fun k p same => by cases same⟩
  | next reach step sound => exact sound.step guarded reach.single reach.knows step

end CodeAtlas
