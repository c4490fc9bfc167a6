import CodeAtlas.Polling
import CodeAtlas.Proofs.Graph.Sending
import CodeAtlas.Proofs.Turns.Charter
import CodeAtlas.Proofs.Turns.Runs
import Mathlib.Algebra.Group.Nat.Defs
import Mathlib.Algebra.Ring.Int.Defs

namespace CodeAtlas

open Routine Value

namespace HttpReply

/-- The service answers with an error. -/
def Refuses (r : HttpReply) : Prop := r.status.same (.int 200) = false

/-- The service answers with an object that has this in its envelope. -/
structure Holds (r : HttpReply) (data : Value) : Prop where
  accepted : r.status.same (.int 200) = true
  body : ∃ entries, r.body = .ok (.dict entries) ∧ (Value.dict entries).field "data" = data

/-- An answer of the service is an error, or an object with an object or nothing in its envelope. -/
inductive Proper (r : HttpReply) : Prop
  | refusal : r.Refuses → r.Proper
  | nothing : r.Holds .null → r.Proper
  | object {fields} : r.Holds (.dict fields) → r.Proper

/-- The answer names the analysis that has begun. -/
def Names (r : HttpReply) (id : String) : Prop :=
  ∃ fields named, r.Holds (.dict fields) ∧ lookup "analysisId" fields = some named ∧ named.display = id

/-- The answer gives a status, which is this word in capitals. -/
structure Reports (r : HttpReply) (fields : List (Value × Value)) (word : String) : Prop where
  holds : r.Holds (.dict fields)
  word : capitals ((lookup "status" fields).getD (.str "")).display = word

/-- An analysis that is over well. -/
def Completes (r : HttpReply) : Prop := ∃ fields word, r.Reports fields word ∧ word ∈ ["COMPLETED", "SUCCESS"]

/-- An analysis that goes on. -/
def Pends (r : HttpReply) : Prop :=
  ∃ fields word, r.Reports fields word ∧ word ∉ ["COMPLETED", "SUCCESS", "FAILED", "ERROR"]

end HttpReply

/-- How long all the waiting is, as a message shows it. -/
def PollingSettings.waited (s : PollingSettings) : Except Fault String := do
  (← Value.times s.maxPolls s.pollInterval).fixed 0

/-- What surrounds a routine does its part: the service answers properly, and nothing else fails or is cut short. -/
def Event.Serves : Event → Prop
  | .hears (.requestAnalysis ..) reply => ∃ r, reply = .ok r ∧ HttpReply.Proper r
  | .hears _ reply => ∃ answer, reply = .ok answer
  | .granted _ reply => ∃ answer, reply = .ok answer
  | _ => True

namespace Analysis

def posted (address : String) (r : HttpReply) : Event :=
  .hears (.requestAnalysis "POST" (address ++ "/analyze") (.dict [])) (.ok r)

def statusUrl (address id : String) : String := address ++ "/status/" ++ id

def asked (address id : String) (r : HttpReply) : Event :=
  .hears (.requestAnalysis "GET" (statusUrl address id) .null) (.ok r)

def resultsUrl (address id : String) : String := address ++ "/results/" ++ id

def fetched (address id : String) (r : HttpReply) : Event :=
  .hears (.requestAnalysis "GET" (resultsUrl address id) .null) (.ok r)

def paused (seconds : Float) : Event := .granted (.pause seconds) (.ok ())

/-- No analysis begins. -/
inductive Unstarted (address : String) (r : HttpReply) : Failure → Prop
  | refused : r.Refuses → Unstarted address r (.analysisStatus r.status (address ++ "/analyze") r.text)
  | empty : r.Holds .null → Unstarted address r .analysisNotStarted
  | nameless {fields} : r.Holds (.dict fields) → lookup "analysisId" fields = none → Unstarted address r .analysisNotStarted

/-- A status has been asked for, and it is known that there will be no results. -/
inductive Broken (address id : String) (r : HttpReply) : Failure → Prop
  | refused : r.Refuses → Broken address id r (.analysisStatus r.status (statusUrl address id) r.text)
  | unknown : r.Holds .null → Broken address id r (.analysisUnknown id)
  | failed {fields word} : r.Reports fields word → word ∈ ["FAILED", "ERROR"] →
      Broken address id r (.analysisFailed ((lookup "error" fields).getD (.str "Unknown error")))

/-- So many times, one after the other, the status has been asked for, was not final, and was followed by a pause of the
interval. -/
inductive Idles (settings : PollingSettings) (address id : String) : Nat → List Event → Prop
  | start : Idles settings address id 0 []
  | next {k r x log} : r.Pends → settings.pollInterval.toFloat = .ok x → Idles settings address id k log →
      Idles settings address id (k + 1) (asked address id r :: paused x :: log)

/-- How asking for the status up to `n` times ends. -/
inductive Awaits (settings : PollingSettings) (address id : String) (n : Nat) : List Event → Except Fault Unit → Prop
  | completed {k log last} : Idles settings address id k log → k < n → last.Completes →
      Awaits settings address id n (log ++ [asked address id last]) (.ok ())
  | broken {k log last why} : Idles settings address id k log → k < n → Broken address id last why →
      Awaits settings address id n (log ++ [asked address id last]) (.error (.failure why))
  | timedOut {log shown} : Idles settings address id n log → settings.waited = .ok shown →
      Awaits settings address id n log (.error (.failure (.analysisTimedOut shown)))
  /-- The interval is a number that is out of the range of a clock. -/
  | unpaused {k log last} : Idles settings address id k log → k < n → last.Pends →
      settings.pollInterval.toFloat = .error .overflow →
      Awaits settings address id n (log ++ [asked address id last]) (.error .overflow)
  /-- All intervals together are. -/
  | unshown {log} : Idles settings address id n log → settings.waited = .error .overflow →
      Awaits settings address id n log (.error .overflow)

/-- What a client asks of the service in an open session, in order, and what it comes to. -/
inductive Goes (settings : PollingSettings) (address : String) (n : Nat) :
    List Event → Except Fault (Option Snapshot) → Prop
  | unstarted {r why} : Unstarted address r why → Goes settings address n [posted address r] (.error (.failure why))
  | stopped {r id log fault} : r.Names id → Awaits settings address id n log (.error fault) →
      Goes settings address n (posted address r :: log) (.error fault)
  | withheld {r id log last} : r.Names id → Awaits settings address id n log (.ok ()) → last.Refuses →
      Goes settings address n (posted address r :: log ++ [fetched address id last])
        (.error (.failure (.analysisStatus last.status (resultsUrl address id) last.text)))
  | empty {r id log last} : r.Names id → Awaits settings address id n log (.ok ()) → last.Holds .null →
      Goes settings address n (posted address r :: log ++ [fetched address id last]) (.ok none)
  | full {r id log last fields} : r.Names id → Awaits settings address id n log (.ok ()) → last.Holds (.dict fields) →
      Goes settings address n (posted address r :: log ++ [fetched address id last])
        ((Snapshot.ofValue (.dict fields)).map some)

end Analysis

/-- What an answer comes to: a failure, or what is in the envelope of its body. -/
def HttpReply.opened (url : String) (r : HttpReply) : Except Fault Value :=
  if r.status.same (.int 200) then r.body >>= envelope else .error (.failure (.analysisStatus r.status url r.text))

theorem Routine.liftM_ok_bind {α β : Type} (a : α) (f : α → Routine β) :
    ((liftM (.ok a : Except Fault α) : Routine α) >>= f) = f a := rfl

theorem HttpReply.Holds.unique {r : HttpReply} {data data' : Value} (holds : r.Holds data) (holds' : r.Holds data') :
    data = data' := by
  obtain ⟨_, entries, body, rfl⟩ := holds
  obtain ⟨_, _, body', rfl⟩ := holds'
  cases body.symm.trans body'
  rfl

theorem Value.toFloat_number {v : Value} {a : Magnitude} {fault : Fault} (number : v.magnitude? = some a)
    (fails : v.toFloat = .error fault) : fault = .overflow := by
  cases v with
  | int n =>
    simp only [Value.toFloat] at fails
    split at fails
    · cases fails
    · cases fails
      rfl
  | bool | float => cases fails
  | _ => cases number

/-- The product of two numbers is one, unless a factor is out of the range of a double. -/
theorem Value.times_number {v w : Value} {a b : Magnitude} (left : v.magnitude? = some a) (right : w.magnitude? = some b) :
    (∃ u c, v.times w = .ok u ∧ u.magnitude? = some c) ∨ v.times w = .error .overflow := by
  have scaled {v : Value} {a : Magnitude} (number : v.magnitude? = some a) (f : Float → Float) :
      (∃ u c, (v.toFloat.map fun x => Value.float (f x)) = .ok u ∧ u.magnitude? = some c) ∨
        (v.toFloat.map fun x => Value.float (f x)) = .error .overflow := by
    cases long : v.toFloat with
    | ok x => exact .inl ⟨_, _, rfl, rfl⟩
    | error => exact .inr (congrArg Except.error (Value.toFloat_number number long))
  cases v with
  | float x =>
    cases w with
    | bool | int | float => exact scaled right (x * ·)
    | _ => cases right
  | bool | int =>
    cases w with
    | float y => exact scaled left (· * y)
    | bool | int => exact .inl ⟨_, _, rfl, rfl⟩
    | _ => cases right
  | _ => cases left

theorem Value.fixed_number {v : Value} {a : Magnitude} {places : Nat} {fault : Fault} (number : v.magnitude? = some a)
    (fails : v.fixed places = .error fault) : fault = .overflow := by
  cases v with
  | int n =>
    simp only [Value.fixed] at fails
    split at fails
    · cases fails
    · cases fails
      rfl
  | bool | float => cases fails
  | _ => cases number

/-- All the waiting can be shown, unless it is out of the range of a double. -/
theorem waited_number {settings : PollingSettings} {a : Magnitude} {n : Int} {fault : Fault}
    (number : settings.pollInterval.magnitude? = some a) (counted : settings.maxPolls.toIndex = .ok n)
    (fails : settings.waited = .error fault) : fault = .overflow := by
  obtain ⟨b, polls⟩ : ∃ b, settings.maxPolls.magnitude? = some b := by
    cases polls : settings.maxPolls with
    | bool | int => exact ⟨_, rfl⟩
    | _ =>
      rw [polls] at counted
      cases counted
  unfold PollingSettings.waited at fails
  rcases Value.times_number polls number with ⟨total, c, times, number⟩ | times
  · rw [times] at fails
    exact Value.fixed_number number fails
  · rw [times] at fails
    cases fails
    rfl

section Requests

variable {α : Type} {settings : PollingSettings} {address id : String} {log : List Event}

theorem HttpReply.Refuses.opened {r : HttpReply} (refuses : r.Refuses) (url : String) :
    r.opened url = .error (.failure (.analysisStatus r.status url r.text)) := if_neg (ne_true_of_eq_false refuses)

theorem HttpReply.Holds.opened {r : HttpReply} {data : Value} (holds : r.Holds data) (url : String) :
    r.opened url = .ok data := by
  obtain ⟨accepted, entries, body, rfl⟩ := holds
  rw [HttpReply.opened, if_pos accepted, body]
  cases entries <;> rfl

/-- A request is one question, and its answer is opened before anything else happens. -/
theorem requestData_envelope (verb url : String) (body : Value) (next : Value → Routine α) :
    (requestData verb url body >>= fun b => Routine.ofExcept (envelope b) >>= next) =
      .ask (.requestAnalysis verb url body) fun reply =>
        Routine.ofExcept (reply >>= fun r => HttpReply.opened url r) >>= next := by
  refine congrArg (Routine.ask (.requestAnalysis verb url body)) (funext fun reply => ?_)
  cases reply with
  | error => rfl
  | ok r =>
    change Routine.bind (ite _ _ _) _ = Routine.bind (ofExcept (HttpReply.opened url r)) next
    unfold HttpReply.opened
    cases HttpReply.status r |>.same (.int 200) with
    | false => rfl
    | true => cases HttpReply.body r <;> rfl

/-- Of a proper answer an error is a failure, and what is in the envelope is gone on with. -/
theorem runs_envelope {verb url : String} {body : Value} {next : Value → Routine α} {result : Except Fault α}
    (runs : (requestData verb url body >>= fun b => Routine.ofExcept (envelope b) >>= next).Runs log result)
    (serves : ∀ event ∈ log, event.Serves) : ∃ (r : HttpReply) (rest : List Event),
      log = .hears (.requestAnalysis verb url body) (.ok r) :: rest ∧
      ((r.Refuses ∧ rest = [] ∧ result = .error (.failure (.analysisStatus r.status url r.text))) ∨
        (r.Holds .null ∧ (next .null).Runs rest result) ∨
        ∃ fields, r.Holds (.dict fields) ∧ (next (.dict fields)).Runs rest result) := by
  rw [requestData_envelope] at runs
  obtain ⟨reply, rest, rfl, goesOn⟩ := runs_ask.mp runs
  obtain ⟨r, rfl, proper⟩ := serves _ (List.mem_cons_self ..)
  refine ⟨r, rest, rfl, ?_⟩
  change (Routine.ofExcept (HttpReply.opened url r) >>= next).Runs rest result at goesOn
  cases proper with
  | refusal refuses =>
    rw [refuses.opened] at goesOn
    obtain ⟨rfl, rfl⟩ := runs_done.mp goesOn
    exact .inl ⟨refuses, rfl, rfl⟩
  | nothing holds =>
    rw [holds.opened] at goesOn
    exact .inr (.inl ⟨holds, goesOn⟩)
  | @object fields holds =>
    rw [holds.opened] at goesOn
    exact .inr (.inr ⟨fields, holds, goesOn⟩)

theorem startAnalysis_goes {result : Except Fault String} (runs : (startAnalysis address).Runs log result)
    (serves : ∀ event ∈ log, event.Serves) : ∃ r, log = [Analysis.posted address r] ∧
      ((∃ id, r.Names id ∧ result = .ok id) ∨ ∃ why, Analysis.Unstarted address r why ∧ result = .error (.failure why)) := by
  obtain ⟨r, rest, rfl, ⟨refuses, rfl, rfl⟩ | ⟨holds, runs⟩ | ⟨fields, holds, runs⟩⟩ := runs_envelope runs serves
  · exact ⟨r, rfl, .inr ⟨_, .refused refuses, rfl⟩⟩
  · obtain ⟨rfl, rfl⟩ := runs_done.mp runs
    exact ⟨r, rfl, .inr ⟨_, .empty holds, rfl⟩⟩
  · cases named : lookup "analysisId" fields with
    | none =>
      have fails : (Routine.fail (.failure .analysisNotStarted) : Routine String).Runs rest result := by
        cases fields with
        | nil => exact runs
        | cons => simpa [Value.truthy, has, named, Routine.liftM_ok_bind] using runs
      obtain ⟨rfl, rfl⟩ := runs_done.mp fails
      exact ⟨r, rfl, .inr ⟨_, .nameless holds named, rfl⟩⟩
    | some value =>
      have named' : (pure value.display : Routine String).Runs rest result := by
        cases fields with
        | nil => cases named
        | cons => simpa [Value.truthy, has, entry, named, Routine.liftM_ok_bind, -bind_pure_comp] using runs
      obtain ⟨rfl, rfl⟩ := runs_done.mp named'
      exact ⟨r, rfl, .inl ⟨_, ⟨fields, value, holds, named, rfl⟩, rfl⟩⟩

/-- A pause is as long as the interval is, if a clock can tell. -/
theorem runs_pauseFor {seconds : Value} {result : Except Fault Unit} {a : Magnitude} (number : seconds.magnitude? = some a)
    (runs : (pauseFor seconds).Runs log result) :
    (∃ x reply, seconds.toFloat = .ok x ∧ log = [.granted (.pause x) reply] ∧ result = reply) ∨
      (seconds.toFloat = .error .overflow ∧ log = [] ∧ result = .error .overflow) := by
  unfold pauseFor at runs
  rw [Value.compare_of_magnitudes number rfl, Routine.liftM_ok_bind] at runs
  cases long : seconds.toFloat with
  | ok x =>
    rw [long] at runs
    change (request (.pause x)).Runs log result at runs
    cases runs with
    | control _ runs =>
      obtain ⟨rfl, rfl⟩ := runs_done.mp runs
      exact .inl ⟨x, _, rfl, rfl, rfl⟩
  | error fault =>
    obtain rfl := toFloat_number number long
    rw [long] at runs
    obtain ⟨rfl, rfl⟩ := runs_done.mp runs
    exact .inr ⟨rfl, rfl, rfl⟩

/-- After one more answer that is not final all goes on as it would have. -/
theorem Analysis.Awaits.next {n : Nat} {result : Except Fault Unit} {r : HttpReply} {x : Float} (pends : r.Pends)
    (long : settings.pollInterval.toFloat = .ok x) (awaits : Awaits settings address id n log result) :
    Awaits settings address id (n + 1) (asked address id r :: paused x :: log) result := by
  cases awaits with
  | completed idles fewer completes => exact .completed (.next pends long idles) (Nat.succ_lt_succ fewer) completes
  | broken idles fewer breaks => exact .broken (.next pends long idles) (Nat.succ_lt_succ fewer) breaks
  | timedOut idles waited => exact .timedOut (.next pends long idles) waited
  | unpaused idles fewer pends' endless => exact .unpaused (.next pends long idles) (Nat.succ_lt_succ fewer) pends' endless
  | unshown idles endless => exact .unshown (.next pends long idles) endless

/-- The word for a status tells whether an analysis is over. -/
theorem Progress.ofStatus_cases (status : Value) :
    (Progress.ofStatus status = .completed ∧ capitals status.display ∈ ["COMPLETED", "SUCCESS"]) ∨
    (Progress.ofStatus status = .failed ∧ capitals status.display ∈ ["FAILED", "ERROR"]) ∨
    (Progress.ofStatus status = .running ∧ capitals status.display ∉ ["COMPLETED", "SUCCESS", "FAILED", "ERROR"]) := by
  simp only [Progress.ofStatus, List.mem_cons, List.not_mem_nil, or_false]
  split
  next completed => exact .inl ⟨rfl, completed⟩
  next goesOn =>
    split
    next failed => exact .inr (.inl ⟨rfl, failed⟩)
    next neither =>
      refine .inr (.inr ⟨rfl, ?_⟩)
      rintro (first | second | failed)
      · exact goesOn (.inl first)
      · exact goesOn (.inr second)
      · exact neither failed

/-- After the last answer all that is left is to say how long that took. -/
theorem awaitAnalysis_zero (settings : PollingSettings) (address id : String) : awaitAnalysis settings address id 0 =
    Routine.ofExcept settings.waited >>= fun shown => Routine.fail (.failure (.analysisTimedOut shown)) := by
  unfold awaitAnalysis PollingSettings.waited
  cases settings.maxPolls.times settings.pollInterval with
  | error => rfl
  | ok total => rfl

theorem awaitAnalysis_goes {n : Nat} {result : Except Fault Unit} {a : Magnitude} {polls : Int}
    (number : settings.pollInterval.magnitude? = some a) (counted : settings.maxPolls.toIndex = .ok polls)
    (runs : (awaitAnalysis settings address id n).Runs log result) (serves : ∀ event ∈ log, event.Serves) :
    Analysis.Awaits settings address id n log result := by
  induction n generalizing log with
  | zero =>
    rw [awaitAnalysis_zero] at runs
    cases waited : settings.waited with
    | ok shown =>
      rw [waited] at runs
      obtain ⟨rfl, rfl⟩ := runs_done.mp runs
      exact .timedOut .start waited
    | error fault =>
      obtain rfl := waited_number number counted waited
      rw [waited] at runs
      obtain ⟨rfl, rfl⟩ := runs_done.mp runs
      exact .unshown .start waited
  | succ n ih =>
    obtain ⟨r, rest, rfl, ⟨refuses, rfl, rfl⟩ | ⟨holds, runs⟩ | ⟨fields, holds, runs⟩⟩ := runs_envelope runs serves
    · exact .broken .start (Nat.succ_pos n) (.refused refuses)
    · obtain ⟨rfl, rfl⟩ := runs_done.mp runs
      exact .broken .start (Nat.succ_pos n) (.unknown holds)
    · simp only [isNull, getD, Routine.liftM_ok_bind] at runs
      rcases Progress.ofStatus_cases ((lookup "status" fields).getD (.str "")) with ⟨final, word⟩ | ⟨final, word⟩ | ⟨going, word⟩
      · rw [final] at runs
        obtain ⟨rfl, rfl⟩ := runs_done.mp runs
        exact .completed .start (Nat.succ_pos n) ⟨fields, _, ⟨holds, rfl⟩, word⟩
      · rw [final] at runs
        obtain ⟨rfl, rfl⟩ := runs_done.mp runs
        exact .broken .start (Nat.succ_pos n) (.failed ⟨holds, rfl⟩ word)
      · rw [going] at runs
        have pends : r.Pends := ⟨fields, _, ⟨holds, rfl⟩, word⟩
        obtain ⟨before, after, waited, rfl, pauses, goesOn⟩ := runs_andThen.mp runs
        -- one interval passes before the next question, unless no clock can tell how long it is
        rcases runs_pauseFor number pauses with ⟨x, reply, long, rfl, rfl⟩ | ⟨endless, rfl, rfl⟩
        · obtain ⟨_, rfl⟩ := serves (.granted (.pause x) waited) (by simp)
          exact .next pends long (ih goesOn fun event inside => serves event (List.mem_cons_of_mem _ (List.mem_cons_of_mem _ inside)))
        · obtain ⟨rfl, rfl⟩ := runs_done.mp goesOn
          exact .unpaused .start (Nat.succ_pos n) pends endless

/-- What follows once an analysis is over. -/
theorem runs_results {result : Except Fault Value}
    (runs : (requestData "GET" (Analysis.resultsUrl address id) .null >>= fun b => Routine.ofExcept (envelope b)).Runs log result)
    (serves : ∀ event ∈ log, event.Serves) : ∃ r, log = [Analysis.fetched address id r] ∧
      ((r.Refuses ∧ result = .error (.failure (.analysisStatus r.status (Analysis.resultsUrl address id) r.text))) ∨
        (r.Holds .null ∧ result = .ok .null) ∨ ∃ fields, r.Holds (.dict fields) ∧ result = .ok (.dict fields)) := by
  have whole : (requestData "GET" (Analysis.resultsUrl address id) .null >>= fun b => Routine.ofExcept (envelope b) >>= pure).Runs
      log result := by simpa using runs
  obtain ⟨r, rest, rfl, ⟨refuses, rfl, rfl⟩ | ⟨holds, runs⟩ | ⟨fields, holds, runs⟩⟩ := runs_envelope whole serves
  · exact ⟨r, rfl, .inl ⟨refuses, rfl⟩⟩
  · obtain ⟨rfl, rfl⟩ := runs_done.mp runs
    exact ⟨r, rfl, .inr (.inl ⟨holds, rfl⟩)⟩
  · obtain ⟨rfl, rfl⟩ := runs_done.mp runs
    exact ⟨r, rfl, .inr (.inr ⟨fields, holds, rfl⟩)⟩

/-- What is made of the data of an analysis. -/
def Snapshot.ofData (data : Value) : Except Fault (Option Snapshot) :=
  if data.isNull then .ok none else (Snapshot.ofValue data).map some

theorem analyseCode_goes {n : Int} {result : Except Fault Value} {a : Magnitude}
    (number : settings.pollInterval.magnitude? = some a) (counted : settings.maxPolls.toIndex = .ok n)
    (runs : (analyseCode settings address).Runs log result) (serves : ∀ event ∈ log, event.Serves) :
    Analysis.Goes settings address n.toNat log (result >>= Snapshot.ofData) := by
  obtain ⟨before, after, started, rfl, starts, runs⟩ := runs_andThen.mp runs
  obtain ⟨r, rfl, ⟨id, names, rfl⟩ | ⟨why, unstarted, rfl⟩⟩ :=
    startAnalysis_goes starts fun event inside => serves event (List.mem_append_left _ inside)
  · simp only [counted, Routine.liftM_ok_bind] at runs
    obtain ⟨waiting, last, waited, rfl, awaits, runs⟩ := runs_andThen.mp runs
    have awaits := awaitAnalysis_goes number counted awaits fun event inside =>
      serves event (List.mem_append_right _ (List.mem_append_left _ inside))
    cases waited with
    | error fault =>
      obtain ⟨rfl, rfl⟩ := runs_done.mp runs
      rw [List.append_nil]
      exact .stopped names awaits
    | ok =>
      obtain ⟨r', rfl, ⟨refuses, rfl⟩ | ⟨holds, rfl⟩ | ⟨fields, holds, rfl⟩⟩ := runs_results runs fun event inside =>
        serves event (List.mem_append_right _ (List.mem_append_right _ inside))
      · exact .withheld names awaits refuses
      · exact .empty names awaits holds
      · exact .full names awaits holds
  · obtain ⟨rfl, rfl⟩ := runs_done.mp runs
    exact .unstarted unstarted

/-- Nothing but requests to the service. -/
def Charter.analysing : Charter where
  keeps _ := True
  asks question := ∃ verb url body, question = .requestAnalysis verb url body
  requests _ := True

theorem requestData_abides (verb url : String) (body : Value) : (requestData verb url body).Abides .analysing := by
  have asks : (query (.requestAnalysis verb url body)).Abides .analysing := .query ⟨verb, url, body, rfl⟩
  exact asks.bind fun _ => .ite (fun _ => .fail _) fun _ => .ofExcept _

theorem startAnalysis_abides (address : String) : (startAnalysis address).Abides .analysing := by
  refine (requestData_abides ..).bind fun _ => Abides.compute fun _ _ => .ite (fun _ => .fail _) fun _ => ?_
  refine Abides.compute fun _ _ => .ite (fun _ => .fail _) fun _ => Abides.compute fun _ _ => .pure _

theorem awaitAnalysis_abides (settings : PollingSettings) (address id : String) (n : Nat) :
    (awaitAnalysis settings address id n).Abides .analysing := by
  induction n with
  | zero => exact Abides.compute fun _ _ => Abides.compute fun _ _ => .fail _
  | succ n ih =>
    refine (requestData_abides ..).bind fun _ => Abides.compute fun _ _ => .ite (fun _ => .fail _) fun _ => ?_
    refine Abides.compute fun status _ => ?_
    cases Progress.ofStatus status with
    | completed => exact .pure _
    | failed => exact Abides.compute fun _ _ => .fail _
    | running =>
      have pauses : (pauseFor settings.pollInterval).Abides .analysing :=
        Abides.compute fun _ _ => Abides.compute fun _ _ => .request trivial
      exact pauses.bind fun _ => ih

theorem analyseCode_abides (settings : PollingSettings) (address : String) :
    (analyseCode settings address).Abides .analysing :=
  (startAnalysis_abides address).bind fun _ => Abides.compute fun _ _ =>
    (awaitAnalysis_abides ..).bind fun _ => (requestData_abides ..).bind fun _ => .ofExcept _

end Requests

namespace Analysis

def opened (settings : PollingSettings) (reply : Except Fault Unit) : Event := .hears (.openSession settings.requestTimeout) reply

def closed (reply : Except Fault Unit) : Event := .hears .closeSession reply

/-- A session that has been opened is closed once, after everything that is asked in it. -/
inductive Scoped (settings : PollingSettings) : List Event → Prop
  | unopened (fault : Fault) : Scoped settings [opened settings (.error fault)]
  | within (inner : List Event) (closing : Except Fault Unit) :
      (∀ question reply, .hears question reply ∈ inner → ∃ verb url body, question = .requestAnalysis verb url body) →
      Scoped settings (opened settings (.ok ()) :: inner ++ [closed closing])

theorem fetched_ne_posted {address id : String} {r r' : HttpReply} : fetched address id r ≠ posted address r' := by
  intro same
  injection same with question
  injection question with verb
  exact absurd verb (by decide)

theorem statusUrl_ne_resultsUrl (address id id' : String) : statusUrl address id ≠ resultsUrl address id' := by
  intro same
  have chars := congrArg String.toList same
  simp only [statusUrl, resultsUrl, String.toList_append, List.append_assoc, List.append_cancel_left_eq] at chars
  exact absurd (congrArg (·[1]?) chars) (by simp)

theorem fetched_ne_asked (address id id' : String) (r r' : HttpReply) : fetched address id r ≠ asked address id' r' := by
  intro same
  injection same with question
  injection question with _ url
  exact statusUrl_ne_resultsUrl address id' id url.symm

theorem Idles.fetched_not_mem {settings : PollingSettings} {address id id' : String} {k : Nat} {log : List Event}
    {r : HttpReply} (idles : Idles settings address id k log) : fetched address id' r ∉ log := by
  induction idles with
  | start => exact List.not_mem_nil
  | next _ _ _ ih => exact List.not_mem_cons_of_ne_of_not_mem (fetched_ne_asked _ _ _ _ _) (List.not_mem_cons_of_ne_of_not_mem nofun ih)

/-- The results are not asked for while a client waits. -/
theorem Awaits.fetched_not_mem {settings : PollingSettings} {address id id' : String} {n : Nat} {log : List Event}
    {r : HttpReply} {result : Except Fault Unit} (awaits : Awaits settings address id n log result) :
    fetched address id' r ∉ log := by
  have last {before : List Event} {k : Nat} {r' : HttpReply} (idles : Idles settings address id k before) :
      fetched address id' r ∉ before ++ [asked address id r'] := by
    simpa [idles.fetched_not_mem] using fetched_ne_asked address id' id r r'
  cases awaits with
  | completed idles | broken idles | unpaused idles => exact last idles
  | timedOut idles | unshown idles => exact idles.fetched_not_mem

/-- They are asked for at most once. -/
theorem Awaits.eq_of_fetched {settings : PollingSettings} {address id id' : String} {n : Nat} {log : List Event}
    {r r' last : HttpReply} {result : Except Fault Unit} (awaits : Awaits settings address id n log result)
    (inside : fetched address id' r' ∈ posted address r :: log ++ [fetched address id last]) : r' = last := by
  rcases List.mem_append.mp inside with before | final
  · exact (List.mem_cons.mp before).elim (absurd · fetched_ne_posted) (absurd · awaits.fetched_not_mem)
  · injection List.mem_singleton.mp final with _ same
    exact Except.ok.inj same

/-- Nothing is returned just when the results have nothing in their envelope. -/
theorem Goes.nothing_iff {settings : PollingSettings} {address : String} {n : Nat} {log : List Event}
    {result : Except Fault (Option Snapshot)} (goes : Goes settings address n log result) :
    result = .ok none ↔ ∃ id r, fetched address id r ∈ log ∧ r.Holds .null := by
  constructor
  · rintro rfl
    generalize given : (Except.ok none : Except Fault (Option Snapshot)) = result at goes
    cases goes with
    | unstarted | stopped | withheld => cases given
    | @empty _ id _ last _ _ holds => exact ⟨id, last, by simp, holds⟩
    | @full _ _ _ _ fields =>
      cases read : Snapshot.ofValue (.dict fields) with
      | ok | error =>
        rw [read] at given
        cases given
  · rintro ⟨id, r, inside, holds⟩
    cases goes with
    | unstarted => exact absurd (List.mem_singleton.mp inside) fetched_ne_posted
    | stopped _ awaits => exact (List.mem_cons.mp inside).elim (absurd · fetched_ne_posted) (absurd · awaits.fetched_not_mem)
    | withheld _ awaits refuses =>
      obtain rfl := awaits.eq_of_fetched inside
      exact absurd holds.accepted (ne_true_of_eq_false refuses)
    | empty => rfl
    | full _ awaits holds' =>
      obtain rfl := awaits.eq_of_fetched inside
      cases holds.unique holds'

/-- How a client polls the service for an analysis of the code behind an address. It comes to an end however everything
around it behaves, and closes its session in any case; while nothing around it fails, it asks and pauses in turn. -/
structure Polls (settings : PollingSettings) (address : String) (n : Nat) (p : Routine (Option Snapshot)) : Prop where
  ends : ∀ c : Conduct, ∃ log result, c.Follows [] log ∧ p.Runs log result
  closes : ∀ {log result}, p.Runs log result → Scoped settings log
  goes : ∀ {log result}, p.Runs log result → (∀ event ∈ log, event.Serves) →
    ∃ inner, log = opened settings (.ok ()) :: inner ++ [closed (.ok ())] ∧ Goes settings address n inner result ∧
      (result = .ok none ↔ ∃ id r, fetched address id r ∈ inner ∧ r.Holds .null)

end Analysis

theorem fetchSnapshot_eq (settings : PollingSettings) (endpoint : String) : fetchSnapshot settings (.str endpoint) =
    (query (.openSession settings.requestTimeout) >>= fun _ =>
      (analyseCode settings (stripRight '/' endpoint)).ensuring (query .closeSession)) >>= fun data =>
        Routine.ofExcept (Snapshot.ofData data) := by
  simp only [fetchSnapshot, text, Routine.liftM_ok_bind, bind_assoc]
  refine congrArg _ (funext fun _ => congrArg _ (funext fun data => ?_))
  unfold Snapshot.ofData
  cases data.isNull with
  | true => rfl
  | false => cases Snapshot.ofValue data <;> rfl

/-- A session is opened, an analysis is run in it, and the session is closed before its data is read. -/
theorem fetchSnapshot_runs {settings : PollingSettings} {endpoint : String} {log : List Event}
    {result : Except Fault (Option Snapshot)} (runs : (fetchSnapshot settings (.str endpoint)).Runs log result) :
    (∃ fault, log = [Analysis.opened settings (.error fault)] ∧ result = .error fault) ∨
    ∃ inner data closing, log = Analysis.opened settings (.ok ()) :: inner ++ [Analysis.closed closing] ∧
      (analyseCode settings (stripRight '/' endpoint)).Runs inner data ∧
      result = closing >>= fun _ => data >>= Snapshot.ofData := by
  rw [fetchSnapshot_eq] at runs
  rcases runs_session_read runs with failed | ⟨_, inner, closing, data, shut, rfl, analyses, closes, rfl⟩
  · exact .inl failed
  · obtain rfl := runs_query.mp closes
    exact .inr ⟨inner, data, shut, rfl, analyses, rfl⟩

/-- For any whole number of polls and any number for the interval. -/
theorem fetchSnapshot_polls (settings : PollingSettings) (endpoint : String) {n : Int} {a : Magnitude}
    (counted : settings.maxPolls.toIndex = .ok n) (number : settings.pollInterval.magnitude? = some a) :
    Analysis.Polls settings (stripRight '/' endpoint) n.toNat (fetchSnapshot settings (.str endpoint)) where
  ends c := runs_under c [] _
  closes runs := by
    rcases fetchSnapshot_runs runs with ⟨fault, rfl, _⟩ | ⟨inner, data, closing, rfl, analyses, _⟩
    · exact .unopened fault
    · exact .within inner closing fun question reply heard =>
        analyses.asked (analyseCode_abides ..) (fun _ _ => trivial) heard
  goes runs serves := by
    rcases fetchSnapshot_runs runs with ⟨fault, rfl, _⟩ | ⟨inner, data, closing, rfl, analyses, rfl⟩
    · obtain ⟨_, ⟨⟩⟩ := serves _ (List.mem_cons_self ..)
    · obtain ⟨_, rfl⟩ : ∃ answer, closing = .ok answer := serves (Analysis.closed closing) (by simp)
      have goes := analyseCode_goes number counted analyses fun event inside =>
        serves event (List.mem_cons_of_mem _ (List.mem_append_left _ inside))
      exact ⟨inner, rfl, goes, goes.nothing_iff⟩

/-- Settings with so many polls at such an interval. -/
def PollingSettings.every (interval : Value) (polls : Int) : PollingSettings :=
  { requestTimeout := .float 30, pollInterval := interval, maxPolls := .int polls }

/-- An answer with these fields in its envelope. -/
def HttpReply.ofFields (fields : List (Value × Value)) : HttpReply :=
  { status := .int 200, text := .str "", body := .ok (.dict [(.str "data", .dict fields)]) }

theorem HttpReply.holds_ofFields (fields : List (Value × Value)) : (HttpReply.ofFields fields).Holds (.dict fields) where
  accepted := rfl
  body := ⟨_, rfl, rfl⟩

namespace Analysis

/-- An answer that an analysis has begun, and one that it goes on. -/
def started : HttpReply := .ofFields [(.str "analysisId", .str "a-1")]

def running : HttpReply := .ofFields [(.str "status", .str "Running")]

def finished : HttpReply := .ofFields [(.str "status", .str "completed")]

def withoutData : HttpReply := { status := .int 200, text := .str "", body := .ok (.dict [(.str "data", .null)]) }

end Analysis

theorem fetchSnapshot_polls_thrice :
    (PollingSettings.every (.float 5) 3).check = .ok () ∧
    Analysis.Polls (.every (.float 5) 3) (stripRight '/' "http://ast:8080/") 3
      (fetchSnapshot (.every (.float 5) 3) (.str "http://ast:8080/")) ∧
    (fetchSnapshot (.every (.float 5) 3) (.str "http://ast:8080/")).Runs [
      Analysis.opened (.every (.float 5) 3) (.ok ()),
      Analysis.posted (stripRight '/' "http://ast:8080/") Analysis.started,
      Analysis.asked (stripRight '/' "http://ast:8080/") "a-1" Analysis.running,
      Analysis.paused 5,
      Analysis.asked (stripRight '/' "http://ast:8080/") "a-1" Analysis.finished,
      Analysis.fetched (stripRight '/' "http://ast:8080/") "a-1" Analysis.withoutData,
      Analysis.closed (.ok ())] (.ok none) := by
  refine ⟨rfl, fetchSnapshot_polls (.every (.float 5) 3) "http://ast:8080/" rfl rfl, ?_⟩
  exact .ask (.ask (.ask (.control (.alone fun _ _ => nofun) (.ask (.ask (.ask .done))))))

/-- A client that cannot pause stops after the first answer that is not final. -/
theorem fetchSnapshot_unpaused {interval : Value} {fault : Fault} (endpoint : String)
    (stops : (pauseFor interval).Runs [] (.error fault)) :
    (fetchSnapshot (.every interval 1) (.str endpoint)).Runs [
      Analysis.opened (.every interval 1) (.ok ()),
      Analysis.posted (stripRight '/' endpoint) Analysis.started,
      Analysis.asked (stripRight '/' endpoint) "a-1" Analysis.running,
      Analysis.closed (.ok ())] (.error fault) := by
  rw [fetchSnapshot_eq]
  generalize stripRight '/' endpoint = address
  have pauses := Runs.bind_error (fun _ => awaitAnalysis (.every interval 1) address "a-1" 0) stops
  have asks : (awaitAnalysis (.every interval 1) address "a-1" 1).Runs [Analysis.asked address "a-1" Analysis.running]
      (.error fault) := .ask pauses
  have awaits := Runs.bind_error (fun _ => requestData "GET" (Analysis.resultsUrl address "a-1") .null >>= fun body =>
    Routine.ofExcept (envelope body)) asks
  have starts : (startAnalysis address).Runs [Analysis.posted address Analysis.started] (.ok "a-1") := .ask .done
  have analyses : (analyseCode (.every interval 1) address).Runs
      ([Analysis.posted address Analysis.started] ++ [Analysis.asked address "a-1" Analysis.running]) (.error fault) :=
    starts.bind awaits
  have closes : (query .closeSession).Runs [Analysis.closed (.ok ())] (.ok ()) := .ask .done
  exact Runs.bind_error _ (runs_session.mpr (.inr ⟨(), _, _, _, _, rfl, analyses, closes, rfl⟩))

/-- An integer of more than three hundred and twenty digits is out of the range of a double. -/
theorem intToFloat?_of_le {n : Int} (large : 10 ^ 320 ≤ n.natAbs) : intToFloat? n = none := by
  have digits : 320 < n.natAbs.repr.length := by
    have fits := Nat.length_repr_le_iff (n := n.natAbs) (k := 320) (by decide)
    omega
  have infinite : decimalToFloat n.natAbs 0 = 1.0 / 0.0 := by
    have nonzero : n.natAbs ≠ 0 := by
      intro zero
      rw [zero] at large
      exact absurd large (by decide +kernel)
    have long : (0 : Int) + (toString n.natAbs).length > 320 := by
      have same : toString n.natAbs = n.natAbs.repr := rfl
      rw [same]
      omega
    rw [decimalToFloat, if_neg nonzero, if_pos long]
  have beyond : Binary.ofFloat (1.0 / 0.0) = .infinite false := by decide +kernel
  rw [intToFloat?, infinite, beyond]

/-- After a single answer that is not final no clock can tell how long an interval this is. -/
theorem fetchSnapshot_overflows :
    (PollingSettings.every (.int (10 ^ 320)) 1).check = .ok () ∧ Analysis.running.Pends ∧
    ∃ log, (∀ event ∈ log, event.Serves) ∧ Analysis.asked (stripRight '/' "http://ast:8080") "a-1" Analysis.running ∈ log ∧
      (fetchSnapshot (.every (.int (10 ^ 320)) 1) (.str "http://ast:8080")).Runs log (.error .overflow) := by
  have endless : (Value.int (10 ^ 320)).toFloat = .error .overflow := by
    rw [toFloat, intToFloat?_of_le (n := 10 ^ 320) (by decide +kernel)]
  have stops : pauseFor (.int (10 ^ 320)) = .fail .overflow := by
    rw [pauseFor, Value.compare_of_magnitudes rfl rfl, Routine.liftM_ok_bind, endless]
    rfl
  have usable : Value.compare .below (.int (10 ^ 320)) (.int 0) = .ok false := by
    have below : Comparison.below.magnitudes (.finite (10 ^ 320 : Int)) (.finite (0 : Int)) = false := by decide +kernel
    rw [Value.compare_of_magnitudes rfl rfl]
    exact congrArg Except.ok below
  refine ⟨?_, ⟨_, _, ⟨HttpReply.holds_ofFields _, rfl⟩, by decide +kernel⟩, _, ?_, ?_, fetchSnapshot_unpaused _ (stops ▸ .done)⟩
  · have counts : atLeastOne "max_poll_attempts" (.int 1) = .ok () := rfl
    simp only [PollingSettings.every, PollingSettings.check, counts, usable]
    rfl
  · have proper (fields : List (Value × Value)) : (HttpReply.ofFields fields).Proper := .object (HttpReply.holds_ofFields fields)
    simp only [List.mem_cons, List.not_mem_nil, or_false]
    rintro event (rfl | rfl | rfl | rfl)
    · exact ⟨_, rfl⟩
    · exact ⟨_, rfl, proper _⟩
    · exact ⟨_, rfl, proper _⟩
    · exact ⟨_, rfl⟩
  · exact List.mem_cons_of_mem _ (List.mem_cons_of_mem _ (List.mem_cons_self ..))

end CodeAtlas
