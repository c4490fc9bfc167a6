import CodeAtlas.Proofs.Enrichment.Treated
import CodeAtlas.Proofs.Turns.Regime

namespace CodeAtlas

namespace CompletionService

/-- The completion in the body of a response, where it stands in its place. -/
def contentIn (body : Value) : Option Value :=
  match body.field? "choices" with
  | some (.list (first :: _)) => ((first.field? "message").bind (·.field? "content")).filter (!·.isNull)
  | _ => none

/-- The counts in what a body reports, zero for those that are left out. -/
def counts (reported : List (Value × Value)) : List (String × Value) :=
  ["total_tokens", "prompt_tokens", "completion_tokens"].map fun key => (key, (Value.lookup key reported).getD (.int 0))

/-- A body may leave out what it reports, but if it gives something, that has to be an object. -/
def usageIn (body : Value) : Option (List (String × Value)) :=
  match body.field? "usage" with
  | none => some (counts [])
  | some (.dict reported) => some (counts reported)
  | some _ => none

/-- The content of a choice, null if it is left out. -/
def readContent (first : Value) : Except Fault Value := first.getD "message" (.dict []) >>= (·.get "content")

/-- A body in which a choice, or the content of its message, is missing. -/
inductive Lacks : Value → Prop
  | keyless {body} : body.has "choices" = .ok false → Lacks body
  | choiceless {body choices} : body.entry "choices" = .ok choices → choices.truthy = false → Lacks body
  | empty {body first rest} : body.entry "choices" = .ok (.list (first :: rest)) →
      readContent first = .ok .null → Lacks body

/-- The counts that a body reports, or what is wrong with them. -/
def readUsage (body : Value) : Except Fault (List (String × Value)) := do
  let usage ← body.getD "usage" (.dict [])
  let count (key : String) : Except Fault (String × Value) := do return (key, ← usage.getD key (.int 0))
  return [← count "total_tokens", ← count "prompt_tokens", ← count "completion_tokens"]

/-- What a body holds whose first choice this is. -/
def readChoice (body first : Value) : Except Fault (Value × List (String × Value)) := do
  let content ← readContent first
  if content.isNull then throw (.failure .completionEmpty)
  return (content, ← readUsage body)

end CompletionService

namespace Value

variable {v w : Value} {key : String} {fault : Fault}

/-- What is no container raises no failure of its own. -/
theorem has_unlike (fails : v.has key = .error fault) (why : Failure) : fault ≠ .failure why := by
  rintro rfl
  cases v <;> cases fails

theorem has_of_entry (entry : v.entry key = .ok w) : v.has key = .ok true := by
  cases v with
  | dict entries =>
    cases found : lookup key entries with
    | none => simp [Value.entry, found] at entry
    | some => simp [has, found]
  | _ => cases entry

theorem entry_unlike (fails : v.entry key = .error fault) (why : Failure) : fault ≠ .failure why := by
  rintro rfl
  cases v with
  | dict entries =>
    rw [entry] at fails
    split at fails <;> cases fails
  | _ => cases fails

theorem length_unlike (fails : v.length = .error fault) (why : Failure) : fault ≠ .failure why := by
  rintro rfl
  cases v <;> cases fails

end Value

namespace CompletionService

theorem Lacks.known {body : Value} (lacks : Lacks body) : ∃ known, body.has "choices" = .ok known := by
  cases lacks with
  | keyless keyless => exact ⟨false, keyless⟩
  | choiceless entry | empty entry => exact ⟨true, Value.has_of_entry entry⟩

/-- If there are choices, they are empty, or it is the first of them that has no content. -/
theorem Lacks.of_known {body : Value} (lacks : Lacks body) (known : body.has "choices" = .ok true) :
    ∃ choices, body.entry "choices" = .ok choices ∧ (choices.truthy = true → ∃ first rest, choices = .list (first :: rest)) := by
  cases lacks with
  | keyless keyless => cases keyless.symm.trans known
  | choiceless entry falsy => exact ⟨_, entry, fun given => absurd given (Bool.eq_false_iff.mp falsy)⟩
  | @empty first rest entry => exact ⟨_, entry, fun _ => ⟨first, rest, rfl⟩⟩

theorem readResponse_keyless {body : Value} (keyless : body.has "choices" = .ok false) :
    readResponse body = .error (.failure .completionMalformed) := by
  simp only [readResponse, keyless, bind, Except.bind]
  rfl

theorem readResponse_choiceless {body choices : Value} (has : body.has "choices" = .ok true)
    (entry : body.entry "choices" = .ok choices) (falsy : choices.truthy = false) :
    readResponse body = .error (.failure .completionMalformed) := by
  simp only [readResponse, has, entry, falsy, bind, Except.bind]
  rfl

theorem readResponse_unkeyed {body : Value} {fault : Fault} (has : body.has "choices" = .ok true)
    (entry : body.entry "choices" = .error fault) : readResponse body = .error fault := by
  simp only [readResponse, has, entry, bind, Except.bind]
  rfl

theorem readResponse_choices {body choices : Value} (has : body.has "choices" = .ok true)
    (entry : body.entry "choices" = .ok choices) (given : choices.truthy = true) :
    readResponse body = firstChoice choices >>= readChoice body := by
  simp only [readResponse, has, entry, given, bind, Except.bind, Bool.not_true, Bool.false_eq_true, if_false]
  cases firstChoice choices with
  | error => rfl
  | ok first =>
    simp only [readChoice, readContent, readUsage, bind, Except.bind]
    cases first.getD "message" (.dict []) with
    | error => rfl
    | ok message =>
      dsimp only
      cases message.get "content" with
      | error => rfl
      | ok content =>
        dsimp only
        cases content.isNull with
        | true => rfl
        | false =>
          cases body.getD "usage" (.dict []) with
          | error => rfl
          | ok usage => cases usage <;> rfl

/-- What is no list of choices raises no failure of its own. -/
theorem firstChoice_unlisted {choices : Value} (body : Value) (given : choices.truthy = true)
    (unlisted : ∀ first rest, choices ≠ .list (first :: rest)) :
    ∃ fault, (firstChoice choices >>= readChoice body) = .error fault ∧ ∀ why, fault ≠ .failure why := by
  cases choices with
  | list items =>
    cases items with
    | nil => cases given
    | cons first rest => exact absurd rfl (unlisted first rest)
  | str s =>
    rw [firstChoice]
    cases s.toList with
    | nil => exact ⟨.noIndex "string", rfl, nofun⟩
    | cons c _ => exact ⟨.noMember (Value.str (String.singleton c)).kind "get", rfl, nofun⟩
  | dict entries => exact ⟨.noKey (.int 0), rfl, nofun⟩
  | _ => exact ⟨.mismatch (.notIndexable _), rfl, nofun⟩

/-- A body lacks what has to be in it, or has a first choice, or is not made as it should be. -/
theorem readResponse_cases (body : Value) :
    (Lacks body ∧ readResponse body = .error (.failure .completionMalformed)) ∨
    (∃ first rest, body.entry "choices" = .ok (.list (first :: rest)) ∧ readResponse body = readChoice body first) ∨
    ∃ fault, readResponse body = .error fault ∧ (∀ why, fault ≠ .failure why) ∧ ¬Lacks body := by
  cases has : body.has "choices" with
  | error fault =>
    have fails : readResponse body = .error fault := by
      rw [readResponse, has]
      rfl
    refine .inr (.inr ⟨fault, fails, Value.has_unlike has, fun lacks => ?_⟩)
    obtain ⟨_, known⟩ := lacks.known
    cases has.symm.trans known
  | ok known =>
    cases known with
    | false => exact .inl ⟨.keyless has, readResponse_keyless has⟩
    | true =>
      cases entry : body.entry "choices" with
      | error fault =>
        refine .inr (.inr ⟨fault, readResponse_unkeyed has entry, Value.entry_unlike entry, fun lacks => ?_⟩)
        obtain ⟨_, entry', _⟩ := lacks.of_known has
        cases entry.symm.trans entry'
      | ok choices =>
        cases given : choices.truthy with
        | false => exact .inl ⟨.choiceless entry given, readResponse_choiceless has entry given⟩
        | true =>
          have reads := readResponse_choices has entry given
          by_cases listed : ∃ first rest, choices = .list (first :: rest)
          · obtain ⟨first, rest, rfl⟩ := listed
            exact .inr (.inl ⟨first, rest, rfl, reads⟩)
          · have unlisted : ∀ first rest, choices ≠ .list (first :: rest) := fun first rest same => listed ⟨first, rest, same⟩
            obtain ⟨fault, fails, unlike⟩ := firstChoice_unlisted body given unlisted
            refine .inr (.inr ⟨fault, reads.trans fails, unlike, fun lacks => listed ?_⟩)
            obtain ⟨choices', entry', among⟩ := lacks.of_known has
            cases entry.symm.trans entry'
            exact among given

theorem readUsage_dict (entries : List (Value × Value)) : (readUsage (.dict entries)).toOption = usageIn (.dict entries) := by
  rw [usageIn, Value.field?]
  cases reported : Value.lookup "usage" entries with
  | none => simp [readUsage, Value.getD, reported, bind, Except.bind]; rfl
  | some usage =>
    simp only [readUsage, Value.getD, reported, Option.getD_some, bind, Except.bind]
    cases usage <;> rfl

theorem readContent_ok_iff {first completion : Value} (given : completion.isNull = false) :
    readContent first = .ok completion ↔ (first.field? "message").bind (·.field? "content") = some completion := by
  cases first with
  | dict fields =>
    rw [readContent, Value.getD, Value.field?]
    cases Value.lookup "message" fields with
    | none =>
      constructor
      · rintro ⟨⟩
        cases given
      · rintro ⟨⟩
    | some message =>
      cases message with
      | dict entries =>
        change Except.ok ((Value.lookup "content" entries).getD .null) = _ ↔ Value.lookup "content" entries = some completion
        cases Value.lookup "content" entries with
        | none =>
          constructor
          · rintro ⟨⟩
            cases given
          · rintro ⟨⟩
        | some content => simp
      | _ => constructor <;> rintro ⟨⟩
  | _ => constructor <;> rintro ⟨⟩

theorem contentIn_of_entry {body first : Value} {rest : List Value} (entry : body.entry "choices" = .ok (.list (first :: rest))) :
    contentIn body = ((first.field? "message").bind (·.field? "content")).filter (!·.isNull) := by
  cases body with
  | dict entries =>
    rw [contentIn, Value.field?]
    rw [Value.entry] at entry
    cases found : Value.lookup "choices" entries with
    | none =>
      rw [found] at entry
      cases entry
    | some choices =>
      rw [found] at entry
      cases entry
      rfl
  | _ => cases entry

theorem entry_of_contentIn {body completion : Value} (holds : contentIn body = some completion) :
    ∃ first rest, body.entry "choices" = .ok (.list (first :: rest)) := by
  cases body with
  | dict entries =>
    rw [contentIn, Value.field?] at holds
    split at holds
    next first rest found => exact ⟨first, rest, by rw [Value.entry, found]⟩
    next => cases holds
  | _ => cases holds

theorem readChoice_of_content {body first content : Value} (read : readContent first = .ok content) : readChoice body first =
    if content.isNull then .error (.failure .completionEmpty) else (readUsage body).map fun usage => (content, usage) := by
  rw [readChoice, read]
  change (if content.isNull then _ else _) = _
  cases content.isNull with
  | true => rfl
  | false => cases readUsage body <;> rfl

theorem readChoice_unread {body first : Value} {fault : Fault} (read : readContent first = .error fault) :
    readChoice body first = .error fault := by
  rw [readChoice, read]
  rfl

theorem readChoice_ok_iff {entries : List (Value × Value)} {first completion : Value} {usage : List (String × Value)} :
    readChoice (.dict entries) first = .ok (completion, usage) ↔
      ((first.field? "message").bind (·.field? "content")).filter (!·.isNull) = some completion ∧
        usageIn (.dict entries) = some usage := by
  rw [Option.filter_eq_some_iff, Bool.not_eq_true', ← readUsage_dict entries]
  constructor
  · intro reads
    cases read : readContent first with
    | error => cases (readChoice_unread read).symm.trans reads
    | ok content =>
      rw [readChoice_of_content read] at reads
      cases given : content.isNull with
      | true =>
        rw [given] at reads
        cases reads
      | false =>
        rw [given] at reads
        cases used : readUsage (.dict entries) with
        | error =>
          rw [used] at reads
          cases reads
        | ok =>
          rw [used] at reads
          cases reads
          exact ⟨⟨(readContent_ok_iff given).mp read, given⟩, rfl⟩
  · rintro ⟨⟨found, given⟩, used⟩
    cases read : readUsage (.dict entries) with
    | error =>
      rw [read] at used
      cases used
    | ok =>
      rw [read] at used
      cases used
      rw [readChoice_of_content ((readContent_ok_iff given).mpr found), given, read]
      rfl

/-- A response is read when it holds a completion, and nothing or an object about its usage. -/
theorem readResponse_ok_iff {body completion : Value} {usage : List (String × Value)} :
    readResponse body = .ok (completion, usage) ↔ contentIn body = some completion ∧ usageIn body = some usage := by
  have choices {first : Value} {rest : List Value} (entry : body.entry "choices" = .ok (.list (first :: rest))) :
      readResponse body = .ok (completion, usage) ↔ contentIn body = some completion ∧ usageIn body = some usage := by
    rw [contentIn_of_entry entry, readResponse_choices (Value.has_of_entry entry) entry rfl]
    cases body with
    | dict => exact readChoice_ok_iff
    | _ => cases entry
  constructor
  · intro reads
    rcases readResponse_cases body with ⟨-, fails⟩ | ⟨first, rest, entry, -⟩ | ⟨fault, fails, -⟩
    · cases fails.symm.trans reads
    · exact (choices entry).mp reads
    · cases fails.symm.trans reads
  · intro holds
    obtain ⟨first, rest, entry⟩ := entry_of_contentIn holds.1
    exact (choices entry).mpr holds

theorem readContent_unlike {first : Value} {fault : Fault} (fails : readContent first = .error fault) (why : Failure) :
    fault ≠ .failure why := by
  rintro rfl
  cases first with
  | dict fields =>
    rw [readContent, Value.getD] at fails
    cases message : (Value.lookup "message" fields).getD (.dict []) <;> rw [message] at fails <;> cases fails
  | _ => cases fails

theorem readUsage_unlike {body : Value} {fault : Fault} (fails : readUsage body = .error fault) (why : Failure) :
    fault ≠ .failure why := by
  rintro rfl
  cases body with
  | dict entries =>
    rw [readUsage, Value.getD] at fails
    cases usage : (Value.lookup "usage" entries).getD (.dict []) <;> rw [usage] at fails <;> cases fails
  | _ => cases fails

/-- A response is a failure when it lacks a choice or a content, and in no other case. -/
theorem readResponse_failure_iff {body : Value} : (∃ why, readResponse body = .error (.failure why)) ↔ Lacks body := by
  rcases readResponse_cases body with ⟨lacks, fails⟩ | ⟨first, rest, entry, reads⟩ | ⟨fault, fails, unlike, full⟩
  · exact ⟨fun _ => lacks, fun _ => ⟨_, fails⟩⟩
  · rw [reads]
    constructor
    · rintro ⟨why, fails⟩
      cases read : readContent first with
      | error fault =>
        cases (readChoice_unread read).symm.trans fails
        exact absurd rfl (readContent_unlike read why)
      | ok content =>
        rw [readChoice_of_content read] at fails
        cases content with
        | null => exact .empty entry read
        | _ =>
          cases used : readUsage body with
          | error fault =>
            rw [used] at fails
            cases fails
            exact absurd rfl (readUsage_unlike used why)
          | ok =>
            rw [used] at fails
            cases fails
    · intro lacks
      cases lacks with
      | keyless keyless => cases keyless.symm.trans (Value.has_of_entry entry)
      | choiceless entry' falsy =>
        cases entry.symm.trans entry'
        cases falsy
      | empty entry' read =>
        cases entry.symm.trans entry'
        exact ⟨_, readChoice_of_content read⟩
  · refine ⟨?_, fun lacks => absurd lacks full⟩
    rintro ⟨why, fails'⟩
    cases fails.symm.trans fails'
    exact absurd rfl (unlike why)

/-- A call: what was asked, how the service answered or failed to, and what came of it. -/
structure Call where
  prompt : Value
  system : Value
  reply : Except Fault HttpReply
  result : Except Fault Value

/-- What a reply reports if its completion can be read. -/
def reported : Except Fault HttpReply → Option (List (String × Value))
  | .ok ⟨status, _, .ok body⟩ => if status.same (.int 200) ∧ (contentIn body).isSome then usageIn body else none
  | _ => none

/-- The service answers so; what fails may have failed before it was asked. -/
def answering (reply : Except Fault HttpReply) : (question : Ask) → Except Fault question.Reply → Prop
  | .openSession _, opened => opened = .ok () ∨ ∃ fault, opened = .error fault ∧ reply = .error fault
  | .requestCompletion .., answer => answer = reply
  | _, _ => True

/-- Calls one after the other, from one memory to another. -/
inductive Calls (n : Nat) (m : Memory) : List Call → Memory → Prop
  | start : Calls n m [] m
  | next {calls m' c m''} : Calls n m calls m' →
      (generate n c.prompt c.system).Arrives (.alone (answering c.reply)) m' c.result m'' → Calls n m (calls ++ [c]) m''

/-- There is a service with this number, and it has a key. -/
structure Ready (n : Nat) (m : Memory) : Prop where
  present : n < m.completions.length
  keyed : (m.completion n).settings.apiKey.truthy = true

theorem completion_onCompletion {n : Nat} {m : Memory} (present : n < m.completions.length)
    (f : CompletionService → CompletionService) : (m.onCompletion n f).completion n = f (m.completion n) := by
  simp [Memory.completion, Memory.onCompletion, part, present]

theorem Ready.onCompletion {n : Nat} {m : Memory} (ready : Ready n m) {f : CompletionService → CompletionService}
    (settings : ∀ s, (f s).settings = s.settings) : Ready n (m.onCompletion n f) where
  present := by simpa [Memory.onCompletion] using ready.present
  keyed := by
    rw [completion_onCompletion ready.present, settings]
    exact ready.keyed

section Reading

variable {r : HttpReply} {data : Value} {read : Value × List (String × Value)} {fault : Fault}

theorem readReply_refused (refused : r.status.same (.int 200) = false) :
    readReply r = .error (.failure (.completionStatus r.status r.text)) := by
  rw [readReply, refused]
  rfl

theorem readReply_bodiless (accepted : r.status.same (.int 200) = true) (body : r.body = .error fault) :
    readReply r = .error fault := by
  rw [readReply, accepted, body]
  rfl

theorem readReply_unread (accepted : r.status.same (.int 200) = true) (body : r.body = .ok data)
    (response : readResponse data = .error fault) : readReply r = .error fault := by
  rw [readReply, accepted, body]
  change readResponse data >>= _ = _
  rw [response]
  rfl

theorem readReply_of_response (accepted : r.status.same (.int 200) = true) (body : r.body = .ok data)
    (response : readResponse data = .ok read) : readReply r = read.1.length >>= fun _ => .ok read.1 := by
  rw [readReply, accepted, body]
  change readResponse data >>= _ = _
  rw [response]
  rfl

theorem readReply_ok_iff {completion : Value} (body : r.body = .ok data) : readReply r = .ok completion ↔
    r.status.same (.int 200) = true ∧ contentIn data = some completion ∧ (usageIn data).isSome ∧
      ∃ size, completion.length = .ok size := by
  cases accepted : r.status.same (.int 200) with
  | false => simp [readReply_refused accepted]
  | true =>
    cases response : readResponse data with
    | error fault =>
      rw [readReply_unread accepted body response]
      refine ⟨nofun, fun ⟨_, content, reports, _⟩ => ?_⟩
      obtain ⟨usage, given⟩ := Option.isSome_iff_exists.mp reports
      cases response.symm.trans (readResponse_ok_iff.mpr ⟨content, given⟩)
    | ok read =>
      obtain ⟨content, usage⟩ := readResponse_ok_iff.mp response
      rw [readReply_of_response accepted body response, content, usage]
      cases measured : read.1.length with
      | error =>
        refine ⟨nofun, fun ⟨_, same, _, size, sized⟩ => ?_⟩
        cases same
        cases measured.symm.trans sized
      | ok size =>
        constructor
        · rintro ⟨⟩
          exact ⟨rfl, rfl, rfl, size, measured⟩
        · rintro ⟨-, ⟨⟩, -⟩
          rfl

/-- A reply that is refused, or lacks what has to be in it, is a failure, and no other one. -/
theorem readReply_failure_iff (body : r.body = .ok data) :
    (∃ why, readReply r = .error (.failure why)) ↔ r.status.same (.int 200) = false ∨ Lacks data := by
  cases accepted : r.status.same (.int 200) with
  | false => exact ⟨fun _ => .inl rfl, fun _ => ⟨_, readReply_refused accepted⟩⟩
  | true =>
    simp only [Bool.true_eq_false, false_or]
    rw [← readResponse_failure_iff]
    cases response : readResponse data with
    | error fault => simp only [readReply_unread accepted body response, Except.error.injEq]
    | ok read =>
      rw [readReply_of_response accepted body response]
      refine ⟨fun ⟨why, fails⟩ => ?_, nofun⟩
      cases measured : read.1.length with
      | ok =>
        rw [measured] at fails
        cases fails
      | error fault =>
        rw [measured] at fails
        cases fails
        exact absurd rfl (Value.length_unlike measured why)

theorem reported_refused (refused : r.status.same (.int 200) = false) : reported (.ok r) = none := by
  obtain ⟨status, text, body⟩ := r
  replace refused : status.same (.int 200) = false := refused
  cases body with
  | error => rfl
  | ok => simp [reported, refused]

theorem reported_bodiless (body : r.body = .error fault) : reported (.ok r) = none := by
  obtain ⟨status, text, _⟩ := r
  cases body
  rfl

theorem reported_unread (body : r.body = .ok data) (response : readResponse data = .error fault) : reported (.ok r) = none := by
  obtain ⟨status, text, _⟩ := r
  cases body
  rw [reported]
  split
  next holds =>
    obtain ⟨content, found⟩ := Option.isSome_iff_exists.mp holds.2
    cases usage : usageIn data with
    | none => rfl
    | some usage => cases response.symm.trans (readResponse_ok_iff.mpr ⟨found, usage⟩)
  next => rfl

theorem reported_of_response (accepted : r.status.same (.int 200) = true) (body : r.body = .ok data)
    (response : readResponse data = .ok read) : reported (.ok r) = some read.2 := by
  obtain ⟨status, text, _⟩ := r
  cases body
  obtain ⟨content, usage⟩ := readResponse_ok_iff.mp response
  simpa [reported, content] using ⟨accepted, usage⟩

end Reading

open Routine

section Calling

variable {n : Nat} {m : Memory} {reply : Except Fault HttpReply}

/-- A session is open in the end, or that is what failed. -/
theorem openSession_comes (ready : Ready n m) : (openSession n).Comes (.alone (answering reply)) m fun r m' =>
    Ready n m' ∧ (m'.completion n).usage = (m.completion n).usage ∧
      (r = .ok () ∨ ∃ fault, r = .error fault ∧ reply = .error fault) := by
  refine comes_view_bind ?_
  split
  · exact comes_done ⟨ready, rfl, .inl rfl⟩
  · refine comes_query_bind ⟨.ok (), .inl rfl⟩ (fun _ _ => comes_change ?_) ?_
    · refine ⟨ready.onCompletion fun _ => rfl, ?_, .inl rfl⟩
      rw [completion_onCompletion ready.present]
    · rintro fault (⟨⟨⟩⟩ | failed)
      exact ⟨ready, rfl, .inr failed⟩

/-- What is reported is kept before the completion is measured. -/
theorem readReply_comes (ready : Ready n m) (r : HttpReply) : (if !r.status.same (.int 200) then
        Routine.fail (.failure (.completionStatus r.status r.text))
      else do
        let data ← r.body
        let (completion, usage) ← readResponse data
        Routine.change (Memory.onCompletion n fun s => { s with usage })
        let _ ← completion.length
        return completion : Routine Value).Comes (.alone (answering reply)) m fun result m' =>
      Ready n m' ∧ result = readReply r ∧ (m'.completion n).usage = (reported (.ok r)).getD (m.completion n).usage := by
  cases accepted : r.status.same (.int 200) with
  | false => exact comes_done ⟨ready, (readReply_refused accepted).symm, by rw [reported_refused accepted]; rfl⟩
  | true =>
    refine comes_compute (fun data body => ?_) fun fault body =>
      ⟨ready, (readReply_bodiless accepted body).symm, by rw [reported_bodiless body]; rfl⟩
    refine comes_compute (fun read response => ?_) fun fault response =>
      ⟨ready, (readReply_unread accepted body response).symm, by rw [reported_unread body response]; rfl⟩
    -- from here on it counts as reported, also if the completion has no length
    have kept : ((m.onCompletion n fun s => { s with usage := read.2 }).completion n).usage =
        (reported (.ok r)).getD (m.completion n).usage := by
      rw [completion_onCompletion ready.present, reported_of_response accepted body response]
      rfl
    refine comes_change_bind (comes_compute (fun size measured => comes_done ?_) fun fault measured => ?_)
    · refine ⟨ready.onCompletion fun _ => rfl, ?_, kept⟩
      rw [readReply_of_response accepted body response, measured]
      rfl
    · refine ⟨ready.onCompletion fun _ => rfl, ?_, kept⟩
      rw [readReply_of_response accepted body response, measured]
      rfl

/-- What one call does: it returns what is read of the reply, and keeps what the reply reports. -/
theorem generate_comes (ready : Ready n m) (prompt system : Value) (reply : Except Fault HttpReply) :
    (generate n prompt system).Comes (.alone (answering reply)) m fun r m' =>
      Ready n m' ∧ r = reply >>= readReply ∧ (m'.completion n).usage = (reported reply).getD (m.completion n).usage := by
  refine comes_view_bind ?_
  simp only [ready.keyed]
  refine (openSession_comes ready).bind ?_ ?_
  · rintro _ m' ⟨ready', same, -⟩
    rw [← same]
    refine comes_query_bind ⟨reply, rfl⟩ ?_ ?_
    · rintro r rfl
      exact readReply_comes ready' r
    · rintro fault rfl
      exact ⟨ready', rfl, rfl⟩
  · rintro fault m' ⟨ready', same, opened⟩
    rcases opened with ⟨⟨⟩⟩ | ⟨_, ⟨⟩, rfl⟩
    exact ⟨ready', rfl, same⟩

/-- What each of the calls comes to, and what is known of the usage after the last of them. -/
theorem Calls.come {calls : List Call} {m' : Memory} (ready : Ready n m) (made : Calls n m calls m') :
    Ready n m' ∧ (∀ c ∈ calls, c.result = c.reply >>= readReply) ∧
      (m'.completion n).usage = (calls.filterMap (reported ·.reply)).getLast?.getD (m.completion n).usage := by
  induction made with
  | start => exact ⟨ready, List.forall_mem_nil _, rfl⟩
  | @next calls m' c m'' made arrives ih =>
    obtain ⟨ready', results, usage⟩ := ih
    obtain ⟨ready'', result, usage'⟩ := (generate_comes ready' c.prompt c.system c.reply).2 _ _ arrives
    refine ⟨ready'', List.forall_mem_append.mpr ⟨results, List.forall_mem_singleton.mpr result⟩, ?_⟩
    rw [usage', usage, List.filterMap_append]
    cases new : reported c.reply with
    | none => simp [new]
    | some latest => simp [new]

/-- One more call can be made, and it comes to what is read of the reply. -/
theorem Calls.further {calls : List Call} {m' : Memory} (made : Calls n m calls m') (ready : Ready n m) (prompt system : Value)
    (reply : Except Fault HttpReply) : ∃ m'', Calls n m (calls ++ [⟨prompt, system, reply, reply >>= readReply⟩]) m'' := by
  obtain ⟨⟨result, m'', arrives⟩, ends⟩ := generate_comes (made.come ready).1 prompt system reply
  obtain ⟨-, rfl, -⟩ := ends result m'' arrives
  exact ⟨m'', made.next arrives⟩

end Calling

/-- How a service completes prompts, one after the other. -/
structure Completes (n : Nat) (m : Memory) : Prop where
  /-- Every call comes to an end, whatever the reply. -/
  ends {calls m'} (prompt system : Value) (reply : Except Fault HttpReply) : Calls n m calls m' →
    ∃ result m'', Calls n m (calls ++ [⟨prompt, system, reply, result⟩]) m''
  /-- It returns the completion of a body that gives one with a length, unless it reports something else than an object. -/
  returns {calls m' c r body completion} : Calls n m calls m' → c ∈ calls → c.reply = .ok r → r.body = .ok body →
    (c.result = .ok completion ↔ r.status.same (.int 200) = true ∧ contentIn body = some completion ∧
      (usageIn body).isSome ∧ ∃ size, completion.length = .ok size)
  /-- It fails when it was refused, or there is no choice or no content in the body. -/
  fails {calls m' c r body} : Calls n m calls m' → c ∈ calls → c.reply = .ok r → r.body = .ok body →
    ((∃ why, c.result = .error (.failure why)) ↔ r.status.same (.int 200) = false ∨ Lacks body)
  /-- What is known of the usage is what the last reply with a completion reported. -/
  usage {calls m'} : Calls n m calls m' →
    (m'.completion n).usage = (calls.filterMap (reported ·.reply)).getLast?.getD (m.completion n).usage

theorem generate_completes {n : Nat} {m : Memory} (ready : Ready n m) : Completes n m where
  ends prompt system reply made := ⟨_, made.further ready prompt system reply⟩
  returns made inside replied body := by
    rw [(made.come ready).2.1 _ inside, replied]
    exact readReply_ok_iff body
  fails made inside replied body := by
    rw [(made.come ready).2.1 _ inside, replied]
    exact readReply_failure_iff body
  usage made := (made.come ready).2.2

/-- A memory with one service, which has a key. -/
def keyedMemory : Memory :=
  let settings : CompletionSettings := { (default : CompletionSettings) with apiKey := .str "sk-1" }
  { (default : Memory) with completions := [{ settings, session := .none, usage := [] }] }

/-- A reply with this content, and this about the usage. -/
def saying (content usage : Value) : HttpReply where
  status := .int 200
  text := .str ""
  body := .ok (.record [("choices", .list [.record [("message", .record [("content", content)])]]), ("usage", usage)])

/-- A reply that reports null is not read; one whose content is a number is not returned, but what it reports counts. -/
theorem generate_completes_counting : ∃ m', Completes 0 keyedMemory ∧ Calls 0 keyedMemory [
      ⟨.str "Greet.", .null, .ok (saying (.str "Hello.") (.record [("total_tokens", .int 3)])), .ok (.str "Hello.")⟩,
      ⟨.str "Greet.", .null, .ok (saying (.str "Hello.") .null), .error (.noMember "NoneType" "get")⟩,
      ⟨.str "Count.", .null, .ok (saying (.int 5) (.record [("total_tokens", .int 7)])), .error (.mismatch (.noLength "int"))⟩] m' ∧
    (m'.completion 0).usage = [("total_tokens", .int 7), ("prompt_tokens", .int 0), ("completion_tokens", .int 0)] := by
  have ready : Ready 0 keyedMemory := ⟨by decide, rfl⟩
  have completes := generate_completes ready
  obtain ⟨_, once⟩ := Calls.start.further ready (.str "Greet.") .null
    (.ok (saying (.str "Hello.") (.record [("total_tokens", .int 3)])))
  obtain ⟨_, twice⟩ := once.further ready (.str "Greet.") .null (.ok (saying (.str "Hello.") .null))
  obtain ⟨m', thrice⟩ := twice.further ready (.str "Count.") .null (.ok (saying (.int 5) (.record [("total_tokens", .int 7)])))
  exact ⟨m', completes, thrice, (completes.usage thrice).trans rfl⟩

end CompletionService

end CodeAtlas
