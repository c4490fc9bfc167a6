import CodeAtlas.Ingestion

namespace CodeAtlas

/-- What a routine does on its way, with what it is answered. -/
inductive Event where
  | sees (memory : Memory)
  | stores (memory : Memory)
  | hears (question : Ask) (reply : Except Fault question.Reply)
  | granted (request : Control) (reply : Except Fault request.Reply)

mutual

/-- The runs of a routine, whatever it sees and is answered: what happens on its way and what it ends
with. -/
inductive Routine.Runs : {α : Type} → Routine α → List Event → Except Fault α → Prop
  | done {α : Type} {result : Except Fault α} : Routine.Runs (.done result) [] result
  | look {α : Type} {next : Memory → Routine α} {memory log result} :
      Routine.Runs (next memory) log result → Routine.Runs (.look next) (.sees memory :: log) result
  | store {α : Type} {next : Routine α} {memory log result} :
      Routine.Runs next log result → Routine.Runs (.store memory next) (.stores memory :: log) result
  | ask {α : Type} {question : Ask} {next : Except Fault question.Reply → Routine α} {reply log result} :
      Routine.Runs (next reply) log result → Routine.Runs (.ask question next) (.hears question reply :: log) result
  | control {α : Type} {request : Control} {next : Except Fault request.Reply → Routine α} {reply log result} :
      Control.Answers request reply → Routine.Runs (next reply) log result →
      Routine.Runs (.control request next) (.granted request reply :: log) result

/-- The answers to a request. Jobs that run beside each other are answered for by runs of their own:
each of them leaves something behind, or one of them passes on its fault. -/
inductive Control.Answers : (request : Control) → Except Fault request.Reply → Prop
  | alone {request : Control} {reply} : (∀ permits jobs, request ≠ .gather permits jobs) → Control.Answers request reply
  | gathered {permits : Permits} {jobs : List Job} {left : List Yield} {logs : Nat → List Event} :
      left.length = jobs.length →
      (∀ i job yielded, jobs[i]? = some job → left[i]? = some yielded →
        Routine.Runs job.routine (logs i) (.ok yielded)) →
      Control.Answers (.gather permits jobs) (.ok left)
  | raised {permits : Permits} {jobs : List Job} {job log fault} : job ∈ jobs →
      Routine.Runs job.routine log (.error fault) → Control.Answers (.gather permits jobs) (.error fault)
  | stopped {permits : Permits} {jobs : List Job} : Control.Answers (.gather permits jobs) (.error .cancelled)

end

/-- How everything around a routine behaves, after what has happened so far. -/
structure Conduct where
  memory : List Event → Memory
  reply : List Event → (question : Ask) → Except Fault question.Reply
  grant : List Event → (request : Control) → Except Fault request.Reply
  answers : ∀ past request, Control.Answers request (grant past request)

/-- What happens next is what it comes to when everything behaves in this way. -/
inductive Conduct.Follows (c : Conduct) : List Event → List Event → Prop
  | nil {past} : Follows c past []
  | sees {past log} : Follows c (past ++ [.sees (c.memory past)]) log → Follows c past (.sees (c.memory past) :: log)
  | stores {past memory log} : Follows c (past ++ [.stores memory]) log → Follows c past (.stores memory :: log)
  | hears {past question log} : Follows c (past ++ [.hears question (c.reply past question)]) log →
      Follows c past (.hears question (c.reply past question) :: log)
  | granted {past request log} : Follows c (past ++ [.granted request (c.grant past request)]) log →
      Follows c past (.granted request (c.grant past request) :: log)

namespace Routine

variable {α β : Type} {log before after rest : List Event}

/-- A routine comes to its end, however everything around it behaves. -/
theorem runs_under (c : Conduct) (past : List Event) (p : Routine α) :
    ∃ log result, c.Follows past log ∧ p.Runs log result := by
  induction p generalizing past with
  | done result => exact ⟨[], result, .nil, .done⟩
  | look next ih =>
    obtain ⟨log, result, follows, runs⟩ := ih (c.memory past) (past ++ [.sees (c.memory past)])
    exact ⟨_, result, .sees follows, .look runs⟩
  | store memory next ih =>
    obtain ⟨log, result, follows, runs⟩ := ih (past ++ [.stores memory])
    exact ⟨_, result, .stores follows, .store runs⟩
  | ask question next ih =>
    obtain ⟨log, result, follows, runs⟩ := ih (c.reply past question) (past ++ [.hears question (c.reply past question)])
    exact ⟨_, result, .hears follows, .ask runs⟩
  | control request next ih =>
    obtain ⟨log, result, follows, runs⟩ := ih (c.grant past request) (past ++ [.granted request (c.grant past request)])
    exact ⟨_, result, .granted follows, .control (c.answers past request) runs⟩

theorem runs_done {result result' : Except Fault α} :
    (done result).Runs log result' ↔ log = [] ∧ result' = result := by
  constructor
  · rintro ⟨⟩
    exact ⟨rfl, rfl⟩
  · rintro ⟨rfl, rfl⟩
    exact .done

theorem runs_look {next : Memory → Routine α} {result : Except Fault α} :
    (look next).Runs log result ↔ ∃ m rest, log = .sees m :: rest ∧ (next m).Runs rest result := by
  constructor
  · intro runs
    cases runs with
    | look runs => exact ⟨_, _, rfl, runs⟩
  · rintro ⟨m, rest, rfl, runs⟩
    exact .look runs

theorem runs_ask {question : Ask} {next : Except Fault question.Reply → Routine α} {result : Except Fault α} :
    (ask question next).Runs log result ↔ ∃ reply rest, log = .hears question reply :: rest ∧ (next reply).Runs rest result := by
  constructor
  · intro runs
    cases runs with
    | ask runs => exact ⟨_, _, rfl, runs⟩
  · rintro ⟨reply, rest, rfl, runs⟩
    exact .ask runs

theorem runs_view {f : Memory → α} {result : Except Fault α} :
    (view f).Runs log result ↔ ∃ m, log = [.sees m] ∧ result = .ok (f m) := by
  constructor
  · intro runs
    cases runs with
    | look runs =>
      obtain ⟨rfl, rfl⟩ := runs_done.mp runs
      exact ⟨_, rfl, rfl⟩
  · rintro ⟨m, rfl, rfl⟩
    exact .look .done

theorem runs_change {f : Memory → Memory} {result : Except Fault Unit} :
    (change f).Runs log result ↔ ∃ m, log = [.sees m, .stores (f m)] ∧ result = .ok () := by
  constructor
  · intro runs
    cases runs with
    | look runs => cases runs with
      | store runs =>
        obtain ⟨rfl, rfl⟩ := runs_done.mp runs
        exact ⟨_, rfl, rfl⟩
  · rintro ⟨m, rfl, rfl⟩
    exact .look (.store .done)

theorem Runs.split {p : Routine α} {f : Except Fault α → Routine β} {result : Except Fault β}
    (runs : (p.andThen f).Runs log result) :
    ∃ before after middle, log = before ++ after ∧ p.Runs before middle ∧ (f middle).Runs after result := by
  induction p generalizing log with
  | done middle => exact ⟨[], log, middle, rfl, .done, runs⟩
  | look next ih =>
    cases runs with
    | look runs =>
      obtain ⟨before, after, middle, rfl, first, second⟩ := ih _ runs
      exact ⟨_ :: before, after, middle, rfl, .look first, second⟩
  | store memory next ih =>
    cases runs with
    | store runs =>
      obtain ⟨before, after, middle, rfl, first, second⟩ := ih runs
      exact ⟨_ :: before, after, middle, rfl, .store first, second⟩
  | ask question next ih =>
    cases runs with
    | ask runs =>
      obtain ⟨before, after, middle, rfl, first, second⟩ := ih _ runs
      exact ⟨_ :: before, after, middle, rfl, .ask first, second⟩
  | control request next ih =>
    cases runs with
    | control answers runs =>
      obtain ⟨before, after, middle, rfl, first, second⟩ := ih _ runs
      exact ⟨_ :: before, after, middle, rfl, .control answers first, second⟩

theorem Runs.continues {p : Routine α} {f : Except Fault α → Routine β} {middle : Except Fault α} {result : Except Fault β}
    (first : p.Runs before middle) (second : (f middle).Runs after result) :
    (p.andThen f).Runs (before ++ after) result := by
  induction p generalizing before with
  | done =>
    obtain ⟨rfl, rfl⟩ := runs_done.mp first
    exact second
  | look next ih =>
    cases first with
    | look first => exact .look (ih _ first)
  | store memory next ih =>
    cases first with
    | store first => exact .store (ih first)
  | ask question next ih =>
    cases first with
    | ask first => exact .ask (ih _ first)
  | control request next ih =>
    cases first with
    | control answers first => exact .control answers (ih _ first)

theorem runs_andThen {p : Routine α} {f : Except Fault α → Routine β} {result : Except Fault β} :
    (p.andThen f).Runs log result ↔
      ∃ before after middle, log = before ++ after ∧ p.Runs before middle ∧ (f middle).Runs after result :=
  ⟨Runs.split, fun ⟨_, _, _, same, first, second⟩ => same ▸ first.continues second⟩

/-- What happens decides how a routine goes on, so two runs of it that happen at the start of one log
are the same. -/
theorem Runs.unique {p : Routine α} {log' rest' : List Event} {result result' : Except Fault α}
    (runs : p.Runs log result) (runs' : p.Runs log' result') (same : log ++ rest = log' ++ rest') :
    log = log' ∧ result = result' ∧ rest = rest' := by
  induction p generalizing log log' with
  | done =>
    obtain ⟨rfl, rfl⟩ := runs_done.mp runs
    obtain ⟨rfl, rfl⟩ := runs_done.mp runs'
    exact ⟨rfl, rfl, same⟩
  | look next ih =>
    cases runs with
    | look runs => cases runs' with
      | look runs' =>
        obtain ⟨⟨⟩, tails⟩ := List.cons.inj same
        obtain ⟨rfl, rfl, rfl⟩ := ih _ runs runs' tails
        exact ⟨rfl, rfl, rfl⟩
  | store memory next ih =>
    cases runs with
    | store runs => cases runs' with
      | store runs' =>
        obtain ⟨rfl, rfl, rfl⟩ := ih runs runs' (List.cons.inj same).2
        exact ⟨rfl, rfl, rfl⟩
  | ask question next ih =>
    cases runs with
    | ask runs => cases runs' with
      | ask runs' =>
        obtain ⟨⟨⟩, tails⟩ := List.cons.inj same
        obtain ⟨rfl, rfl, rfl⟩ := ih _ runs runs' tails
        exact ⟨rfl, rfl, rfl⟩
  | control request next ih =>
    cases runs with
    | control _ runs => cases runs' with
      | control _ runs' =>
        obtain ⟨⟨⟩, tails⟩ := List.cons.inj same
        obtain ⟨rfl, rfl, rfl⟩ := ih _ runs runs' tails
        exact ⟨rfl, rfl, rfl⟩

theorem Runs.same_result {p : Routine α} {result result' : Except Fault α} (runs : p.Runs log result)
    (runs' : p.Runs log result') : result = result' := by
  have same : log ++ [] = log ++ [] := rfl
  exact (runs.unique runs' same).2.1

/-- After a run of the first routine it is the turn of the second one. -/
theorem Runs.andThen_iff {p : Routine α} {middle : Except Fault α} (first : p.Runs before middle)
    {f : Except Fault α → Routine β} {result : Except Fault β} :
    (p.andThen f).Runs (before ++ rest) result ↔ (f middle).Runs rest result := by
  constructor
  · intro runs
    obtain ⟨before', after, middle', same, first', second⟩ := runs_andThen.mp runs
    obtain ⟨rfl, rfl, rfl⟩ := first.unique first' same
    exact second
  · exact fun second => runs_andThen.mpr ⟨before, rest, middle, rfl, first, second⟩

theorem Runs.bind {p : Routine α} {f : α → Routine β} {a : α} {result : Except Fault β}
    (first : p.Runs before (.ok a)) (second : (f a).Runs after result) :
    (p >>= f).Runs (before ++ after) result :=
  runs_andThen.mpr ⟨before, after, .ok a, rfl, first, second⟩

theorem Runs.bind_error {p : Routine α} (f : α → Routine β) {fault : Fault} (first : p.Runs log (.error fault)) :
    (p >>= f).Runs log (.error fault) :=
  runs_andThen.mpr ⟨log, [], .error fault, (List.append_nil log).symm, first, .done⟩

theorem runs_bind_ok {p : Routine α} {f : α → Routine β} {b : β} :
    (p >>= f).Runs log (.ok b) ↔
      ∃ before after a, log = before ++ after ∧ p.Runs before (.ok a) ∧ (f a).Runs after (.ok b) := by
  constructor
  · intro runs
    obtain ⟨before, after, middle, rfl, first, second⟩ := runs_andThen.mp runs
    cases middle with
    | ok a => exact ⟨before, after, a, rfl, first, second⟩
    | error fault => cases second
  · rintro ⟨before, after, a, rfl, first, second⟩
    exact first.bind second

/-- What is guarded against ordinary faults ends in a value, or is stopped from outside. -/
theorem Runs.rescued {p : Routine α} {handler : Fault → Routine α} {result : Except Fault α}
    (runs : (p.rescue handler).Runs log result)
    (handles : ∀ {fault log result}, (handler fault).Runs log result → ∃ a, result = .ok a) :
    (∃ a, result = .ok a) ∨ ∃ fault, result = .error fault ∧ fault.ordinary = false := by
  obtain ⟨before, after, middle, rfl, -, second⟩ := runs_andThen.mp runs
  cases middle with
  | ok a => exact .inl ⟨a, (runs_done.mp second).2⟩
  | error fault =>
    simp only at second
    split at second
    · exact .inl (handles second)
    next other => exact .inr ⟨fault, (runs_done.mp second).2, Bool.not_eq_true _ ▸ other⟩

/-- What is guarded goes on guarded after its first part. -/
theorem Runs.rescue_bind_iff {p : Routine α} {a : α} (first : p.Runs before (.ok a)) {f : α → Routine β}
    {handler : Fault → Routine β} {result : Except Fault β} :
    ((p >>= f).rescue handler).Runs (before ++ rest) result ↔ ((f a).rescue handler).Runs rest result := by
  have parts : (p >>= f).rescue handler = p.andThen _ := andThen_assoc p _ _
  rw [parts, first.andThen_iff]
  rfl

theorem Runs.rescue_bind_error_iff {p : Routine α} {fault : Fault} (first : p.Runs before (.error fault))
    (ordinary : fault.ordinary) {f : α → Routine β} {handler : Fault → Routine β} {result : Except Fault β} :
    ((p >>= f).rescue handler).Runs (before ++ rest) result ↔ (handler fault).Runs rest result := by
  have parts : (p >>= f).rescue handler = p.andThen _ := andThen_assoc p _ _
  rw [parts, first.andThen_iff]
  simp only [andThen, ordinary, if_true]

section Sessions

theorem runs_query {question : Ask} {result : Except Fault question.Reply} :
    (query question).Runs log result ↔ log = [.hears question result] := by
  constructor
  · intro runs
    obtain ⟨reply, rest, rfl, ended⟩ := runs_ask.mp runs
    obtain ⟨rfl, rfl⟩ := runs_done.mp ended
    rfl
  · rintro rfl
    exact .ask .done

/-- The last steps are taken in any case, and their own fault comes first. -/
theorem runs_ensuring {p : Routine α} {last : Routine Unit} {result : Except Fault α} :
    (p.ensuring last).Runs log result ↔ ∃ inner closing r shut, log = inner ++ closing ∧ p.Runs inner r ∧
      last.Runs closing shut ∧ result = shut >>= fun _ => r := by
  constructor
  · intro runs
    obtain ⟨inner, after, r, rfl, first, second⟩ := runs_andThen.mp runs
    obtain ⟨closing, rest, shut, rfl, closes, ends⟩ := runs_andThen.mp second
    cases shut with
    | ok | error =>
      obtain ⟨rfl, same⟩ := runs_done.mp ends
      exact ⟨inner, closing, r, _, by rw [List.append_nil], first, closes, same⟩
  · rintro ⟨inner, closing, r, shut, rfl, first, closes, rfl⟩
    refine runs_andThen.mpr ⟨inner, closing, r, rfl, first, ?_⟩
    refine runs_andThen.mpr ⟨closing, [], shut, (List.append_nil closing).symm, closes, ?_⟩
    cases shut with
    | ok | error => exact .done

/-- What is opened first and closed in the end. Nothing happens when it cannot be opened. -/
theorem runs_session {opening : Ask} {p : Routine α} {last : Routine Unit} {result : Except Fault α} :
    (query opening >>= fun _ => p.ensuring last).Runs log result ↔
      (∃ fault, log = [.hears opening (.error fault)] ∧ result = .error fault) ∨
      ∃ answer inner closing r shut, log = .hears opening (.ok answer) :: inner ++ closing ∧ p.Runs inner r ∧
        last.Runs closing shut ∧ result = shut >>= fun _ => r := by
  constructor
  · intro runs
    obtain ⟨start, rest, reply, rfl, opens, goesOn⟩ := runs_andThen.mp runs
    obtain rfl := runs_query.mp opens
    cases reply with
    | error fault =>
      obtain ⟨rfl, rfl⟩ := runs_done.mp goesOn
      exact .inl ⟨fault, rfl, rfl⟩
    | ok answer =>
      obtain ⟨inner, closing, r, shut, rfl, first, closes, rfl⟩ := runs_ensuring.mp goesOn
      exact .inr ⟨answer, inner, closing, r, shut, rfl, first, closes, rfl⟩
  · rintro (⟨fault, rfl, rfl⟩ | ⟨answer, inner, closing, r, shut, rfl, first, closes, rfl⟩)
    · exact Runs.bind_error _ (runs_query.mpr rfl)
    · have opens : (query opening).Runs [.hears opening (.ok answer)] (.ok answer) := runs_query.mpr rfl
      have goesOn := runs_ensuring.mpr ⟨inner, closing, r, shut, rfl, first, closes, rfl⟩
      exact opens.bind goesOn

/-- What is made of the result of a session is made after it, of what was found in it. -/
theorem runs_session_read {opening : Ask} {p : Routine α} {last : Routine Unit} {f : α → Except Fault β}
    {result : Except Fault β}
    (runs : ((query opening >>= fun _ => p.ensuring last) >>= fun a => Routine.ofExcept (f a)).Runs log result) :
    (∃ fault, log = [.hears opening (.error fault)] ∧ result = .error fault) ∨
    ∃ answer inner closing found shut, log = .hears opening (.ok answer) :: inner ++ closing ∧ p.Runs inner found ∧
      last.Runs closing shut ∧ result = shut >>= fun _ => found >>= f := by
  obtain ⟨before, after, got, rfl, session, reads⟩ := runs_andThen.mp runs
  rcases runs_session.mp session with ⟨fault, rfl, rfl⟩ | ⟨answer, inner, closing, found, shut, rfl, first, closes, rfl⟩
  · obtain ⟨rfl, rfl⟩ := runs_done.mp reads
    exact .inl ⟨fault, rfl, rfl⟩
  · have ends : after = [] ∧ result = shut >>= fun _ => found >>= f := by
      cases shut with
      | error => exact runs_done.mp reads
      | ok => cases found with
        | error | ok => exact runs_done.mp reads
    obtain ⟨rfl, rfl⟩ := ends
    exact .inr ⟨answer, inner, closing, found, shut, List.append_nil _, first, closes, rfl⟩

end Sessions

end Routine

end CodeAtlas
