import CodeAtlas.Proofs.Ingestion.Course

namespace CodeAtlas

/-- A stage that was called, and its answer once it is there. -/
structure Call where
  question : Ask
  reply : Option (Except Fault question.Reply)

/-- How the lock comes to the one who carries out the stages. -/
inductive Handover where
  | direct
  | refused
  | given (job : Nat)
  | begun (job : Nat)

/-- A run: who took the lock, how it was handed over, the stages that were called, and whether the
lock is free again. -/
structure Flight where
  opener : Who
  handover : Handover
  calls : List Call
  closed : Bool

/-- The answers after which no further stage is called: a fault or a cancellation, and no snapshot or
one with nothing in it. -/
def Ask.CutsShort : (question : Ask) → Except Fault question.Reply → Prop
  | .fetchSnapshot _, .ok none => True
  | .fetchSnapshot _, .ok (some snapshot) => snapshot.isEmpty = true
  | _, .error _ => True
  | _, _ => False

theorem Ask.cutsShort_of_stops (question : Ask) {stage : Stage} {reply : Except Fault question.Reply}
    (isStage : question.stage? = some stage) (stops : question.goesOn reply = false) : question.CutsShort reply := by
  cases question with
  | fetchSnapshot endpoint =>
    obtain _ | fetched := reply
    · trivial
    · cases fetched with
      | none => trivial
      | some snapshot => simpa [Ask.goesOn, Ask.CutsShort] using stops
  | perform stage =>
    cases reply with
    | error => trivial
    | ok => cases stops
  | _ => cases isStage

namespace Call

def events (k : Who) (c : Call) : List (Who × RunEvent) :=
  (k, .called c.question) :: (c.reply.map fun reply => (k, RunEvent.heard c.question reply)).toList

def goesOn (c : Call) : Bool :=
  match c.reply with
  | some reply => c.question.goesOn reply
  | none => false

def CutsShort (c : Call) : Prop := ∃ reply, c.reply = some reply ∧ c.question.CutsShort reply

end Call

namespace Handover

def events (opener : Who) : Handover → List (Who × RunEvent)
  | .direct => []
  | .refused => [(opener, .refused)]
  | .given job => [(opener, .gave job)]
  | .begun job => [(opener, .gave job), (.job job, .begun)]

/-- Who carries out the stages and frees the lock. -/
def runner (opener : Who) : Handover → Who
  | .direct => opener
  | .refused => opener
  | .given job => .job job
  | .begun job => .job job

/-- Whether the run itself has begun. -/
def started : Handover → Bool
  | .direct => true
  | .begun _ => true
  | _ => false

end Handover

namespace Flight

def runner (f : Flight) : Who := f.handover.runner f.opener

def events (f : Flight) : List (Who × RunEvent) :=
  (f.opener, .took) :: f.handover.events f.opener ++ f.calls.flatMap (Call.events f.runner) ++
    if f.closed then [(f.runner, .freed)] else []

def stages (f : Flight) : List Stage := f.calls.filterMap (·.question.stage?)

def before : Stage → List Stage
  | .fetch => []
  | .build => [.fetch]
  | .enrich => [.fetch, .build]
  | .vectorize => [.fetch, .build, .enrich]

/-- Calls of which each went on, up to the stage that is next. -/
inductive UpTo : List Call → Stage → Prop
  | none : UpTo [] .fetch
  | more {calls stage c stage'} : UpTo calls stage → c.question.stage? = some stage → c.goesOn = true →
      stage.next? = some stage' → UpTo (calls ++ [c]) stage'

/-- A run under way, as far as the course has come. -/
inductive At : Flight → Course → Prop
  | held {k} : At ⟨k, .direct, [], false⟩ (.held k)
  | refused {k} : At ⟨k, .refused, [], false⟩ (.refused k)
  | given {p j} : At ⟨p, .given j, [], false⟩ (.given (.job j))
  | begun {p j} : At ⟨p, .begun j, [], false⟩ (.begun (.job j))
  | calling {p h calls stage question} : h.started = true → UpTo calls stage → question.stage? = some stage →
      At ⟨p, h, calls ++ [⟨question, none⟩], false⟩ (.calling (h.runner p) question)
  | answered {p h calls stage question reply} : h.started = true → UpTo calls stage →
      question.stage? = some stage →
      At ⟨p, h, calls ++ [⟨question, some reply⟩], false⟩ (.answered (h.runner p) question reply)

/-- A run that has freed the lock: one that was refused a worker, or one after its last answer. -/
inductive Finished : Flight → Prop
  | gaveBack {k} : Finished ⟨k, .refused, [], true⟩
  | ended {p h calls stage question reply} : h.started = true → UpTo calls stage →
      question.stage? = some stage → (question.goesOn reply = true → stage = .vectorize) →
      Finished ⟨p, h, calls ++ [⟨question, some reply⟩], true⟩

theorem stages_next {stage stage' : Stage} (next : stage.next? = some stage') :
    before stage ++ [stage] = before stage' := by
  cases stage <;> cases next <;> rfl

theorem UpTo.stages {calls : List Call} {stage : Stage} (upTo : UpTo calls stage) :
    calls.filterMap (·.question.stage?) = before stage := by
  induction upTo with
  | none => rfl
  | @more calls stage c stage' _ at_stage _ next ih =>
    rw [List.filterMap_append, ih]
    simp only [List.filterMap_cons, at_stage, List.filterMap_nil]
    exact stages_next next

/-- What happens to a run under way goes into its record. -/
theorem At.next {f : Flight} {c c' : Course} {k : Who} {event : RunEvent} (at_c : f.At c)
    (takes : c.Takes k event c') (busy : c' ≠ .idle) :
    ∃ f' : Flight, f'.At c' ∧ f'.events = f.events ++ [(k, event)] := by
  cases takes with
  | took => cases at_c
  | refused =>
    cases at_c
    exact ⟨_, .refused, by simp [events, Handover.events]⟩
  | @gave k =>
    cases at_c
    exact ⟨_, .given (p := k), by simp [events, Handover.events]⟩
  | begun =>
    obtain - | - | @⟨p, _⟩ := at_c
    exact ⟨_, .begun (p := p), by simp [events, Handover.events]⟩
  | @first k question isFetch =>
    cases at_c
    refine ⟨_, .calling (p := k) (h := .direct) rfl .none isFetch, ?_⟩
    simp [events, Handover.events, Call.events, runner, Handover.runner]
  | @firstOfJob k question isFetch =>
    obtain - | - | - | @⟨p, j⟩ := at_c
    refine ⟨_, .calling (p := p) (h := .begun j) rfl .none isFetch, ?_⟩
    simp [events, Handover.events, Call.events, runner, Handover.runner]
  | @later k question reply _ _ _ goesOn atStage next atNext =>
    obtain - | - | - | - | - | ⟨started, upTo, atStage'⟩ := at_c
    have same := Option.some.inj (atStage.symm.trans atStage')
    subst same
    have more := UpTo.more (c := ⟨question, some reply⟩) upTo atStage goesOn next
    refine ⟨_, .calling started more atNext, ?_⟩
    simp [events, Call.events, runner]
  | heard =>
    obtain - | - | - | - | ⟨started, upTo, atStage⟩ := at_c
    refine ⟨_, .answered started upTo atStage, ?_⟩
    simp [events, Call.events, runner]
  | gaveBack => exact absurd rfl busy
  | ended => exact absurd rfl busy

theorem At.finish {f : Flight} {c : Course} {k : Who} (at_c : f.At c) (takes : c.Takes k .freed .idle) :
    ∃ f' : Flight, f'.Finished ∧ f'.events = f.events ++ [(k, .freed)] := by
  cases takes with
  | gaveBack =>
    cases at_c
    exact ⟨_, .gaveBack (k := k), by simp [events, Handover.events, runner, Handover.runner]⟩
  | @ended k question reply last =>
    obtain - | - | - | - | - | @⟨p, _, _, _, _, _, started, upTo, atStage⟩ := at_c
    have final (goesOn : question.goesOn reply = true) := Option.some.inj (atStage.symm.trans (last goesOn))
    exact ⟨_, .ended (p := p) started upTo atStage final, by simp [events, runner]⟩

theorem before_snoc_prefix (stage : Stage) : before stage ++ [stage] <+: Stage.all := by
  cases stage <;> decide

theorem UpTo.stages_snoc {calls : List Call} {stage : Stage} {question : Ask} (upTo : UpTo calls stage)
    (atStage : question.stage? = some stage) (p : Who) (h : Handover) (reply : Option (Except Fault question.Reply))
    (closed : Bool) : Flight.stages ⟨p, h, calls ++ [⟨question, reply⟩], closed⟩ = before stage ++ [stage] := by
  simp [Flight.stages, upTo.stages, atStage]

/-- The stages of a run are the first ones, in their order. -/
theorem At.inOrder {f : Flight} {c : Course} (at_c : f.At c) (called : f.calls ≠ []) :
    f.stages ≠ [] ∧ f.stages <+: Stage.all := by
  cases at_c with
  | held | refused | given | begun => exact absurd rfl called
  | calling _ upTo atStage | answered _ upTo atStage =>
    rw [upTo.stages_snoc atStage]
    exact ⟨by simp, before_snoc_prefix _⟩

theorem Finished.inOrder {f : Flight} (finished : f.Finished) (called : f.calls ≠ []) :
    f.stages ≠ [] ∧ f.stages <+: Stage.all := by
  cases finished with
  | gaveBack => exact absurd rfl called
  | ended _ upTo atStage =>
    rw [upTo.stages_snoc atStage]
    exact ⟨by simp, before_snoc_prefix _⟩

theorem Finished.closed {f : Flight} (finished : f.Finished) : f.closed = true := by
  cases finished <;> rfl

theorem At.closed {f : Flight} {c : Course} (at_c : f.At c) : f.closed = false := by
  cases at_c <;> rfl

/-- Only an answer that cuts a run short ends it before the last stage. -/
theorem Finished.cutsShort {f : Flight} (finished : f.Finished) (called : f.calls ≠ [])
    (partly : f.stages ≠ Stage.all) : ∃ c, f.calls.getLast? = some c ∧ c.CutsShort := by
  cases finished with
  | gaveBack => exact absurd rfl called
  | @ended p h calls stage question reply _ upTo atStage last =>
    refine ⟨⟨question, some reply⟩, by simp, reply, rfl, question.cutsShort_of_stops atStage ?_⟩
    rw [Bool.eq_false_iff]
    intro goesOn
    have final := last goesOn
    rw [upTo.stages_snoc atStage, final] at partly
    exact partly rfl

theorem kind_calls {k : Who} {calls : List Call} {entry : Who × RunEvent}
    (member : entry ∈ calls.flatMap (Call.events k)) : entry.2.kind = .called ∨ entry.2.kind = .heard := by
  obtain ⟨c, _, inCall⟩ := List.mem_flatMap.mp member
  rcases List.mem_cons.mp inCall with rfl | answer
  · exact .inl rfl
  · obtain ⟨reply, _, rfl⟩ := Option.map_eq_some_iff.mp (Option.mem_toList.mp answer)
    exact .inr rfl

theorem tally_calls {kind : RunEvent.Kind} (notCalled : .called ≠ kind) (notHeard : .heard ≠ kind) (k : Who)
    (calls : List Call) : tally kind (calls.flatMap (Call.events k)) = 0 := by
  refine List.countP_eq_zero.mpr fun entry member => ?_
  rcases kind_calls member with called | heard
  · simpa [called] using notCalled
  · simpa [heard] using notHeard

theorem kind_handover {p : Who} {h : Handover} {entry : Who × RunEvent} (member : entry ∈ h.events p) :
    entry.2.kind ≠ .took ∧ entry.2.kind ≠ .freed := by
  cases h with
  | direct => cases member
  | refused | given =>
    obtain rfl := List.mem_singleton.mp member
    exact ⟨nofun, nofun⟩
  | begun =>
    rcases List.mem_cons.mp member with rfl | last
    · exact ⟨nofun, nofun⟩
    · obtain rfl := List.mem_singleton.mp last
      exact ⟨nofun, nofun⟩

theorem At.owner {f : Flight} {c : Course} (at_c : f.At c) : c.owner = some f.runner := by
  cases at_c <;> rfl

end Flight

/-- Events along the course of one coordinator are runs one after the other, of which at most the last
is still under way. -/
theorem Course.Along.flights {events : List (Who × RunEvent)} {c : Course} (along : Course.Along events c) :
    ∃ past : List Flight, (∀ f ∈ past, f.Finished) ∧
      ((c = .idle ∧ events = past.flatMap Flight.events) ∨
        ∃ f : Flight, f.At c ∧ events = past.flatMap Flight.events ++ f.events) := by
  induction along with
  | start => exact ⟨[], by simp, .inl ⟨rfl, rfl⟩⟩
  | @next events c k event c' along takes ih =>
    obtain ⟨past, finished, ⟨rfl, rfl⟩ | ⟨f, at_c, rfl⟩⟩ := ih
    · cases takes
      exact ⟨past, finished, .inr ⟨_, .held, by simp [Flight.events, Handover.events]⟩⟩
    · by_cases idle : c' = .idle
      · subst idle
        have freed : event = .freed := by cases takes <;> rfl
        subst freed
        obtain ⟨f', closed, logged⟩ := at_c.finish takes
        refine ⟨past ++ [f'], ?_, .inl ⟨rfl, ?_⟩⟩
        · intro g member
          rcases List.mem_append.mp member with earlier | last
          · exact finished g earlier
          · exact List.mem_singleton.mp last ▸ closed
        · simp [logged]
      · obtain ⟨f', at_c', logged⟩ := at_c.next takes idle
        exact ⟨past, finished, .inr ⟨f', at_c', by simp [logged]⟩⟩

end CodeAtlas
