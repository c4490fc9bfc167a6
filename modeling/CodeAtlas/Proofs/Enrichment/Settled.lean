import CodeAtlas.Enrichment
import CodeAtlas.World

namespace CodeAtlas

/-- What is answered while methods are described, always the same to the same question. What the language model answers
depends on what it is sent alone, and what comes of a description on the method alone. -/
structure Oracle where
  listing : Except Fault Table
  file : String → Except Fault FileContent
  session : Value → Except Fault Unit
  model : (url : String) → (body headers : Value) → Except Fault HttpReply
  helper : (prompt : String) → (system : Option String) → Except Fault Value
  created : (method : Value) → Except Fault Table

/-- What may be answered. The number that is drawn for a description may be any. -/
def Oracle.Allows (o : Oracle) : (question : Ask) → Except Fault question.Reply → Prop
  | .query .undescribedMethods _, reply => reply = o.listing
  | .query .createDescription parameters, reply => reply = o.created (parameters.field "method_id")
  | .contentAt path, reply => reply = o.file path
  | .openSession timeout, reply => reply = o.session timeout
  | .requestCompletion url body headers, reply => reply = o.model url body headers
  | .complete prompt system, reply => reply = o.helper prompt system
  | .drawId, reply => ∃ drawn, reply = .ok drawn
  | _, _ => True

/-- Surroundings that answer in their own time, at any time the same. -/
def World.Steady {ω : Type} (w : World ω) (o : Oracle) : Prop :=
  ∀ question clock world, o.Allows question (w.answer question clock world).reply

/-- A description that was written: of which method, with which content, and after which file. -/
structure Written where
  method : Value
  content : Value
  file : Value

/-- Whether an answer says that a description was created. -/
def Table.creates (table : Table) : Bool :=
  match table.records >>= createdCount with
  | .ok created => created.truthy
  | .error _ => false

/-- The descriptions that a question with its answer has written. -/
def Ask.entries : (question : Ask) → Except Fault question.Reply → List Written
  | .query .createDescription parameters, .ok table =>
    if Table.creates table then
      [⟨parameters.field "method_id", parameters.field "content", parameters.field "source_file"⟩]
    else []
  | _, _ => []

/-- What the description of methods relies on in the memory: who is connected, and how the language model is reached.
A session that is open stays open, and is opened only where that can be done. -/
structure Oracle.Bears (o : Oracle) (m m' : Memory) : Prop where
  connected : ∀ n, (m'.graph n).connected = (m.graph n).connected
  settings : ∀ n, (m'.completion n).settings = (m.completion n).settings
  stays : ∀ n, (m.completion n).session = .open → (m'.completion n).session = .open
  opened : ∀ n, (m'.completion n).session = .open →
    (m.completion n).session = .open ∨ o.session (m.completion n).settings.timeout = .ok ()

namespace Oracle.Bears

variable {o : Oracle} {m m' : Memory}

theorem refl (o : Oracle) (m : Memory) : o.Bears m m where
  connected _ := rfl
  settings _ := rfl
  stays _ := id
  opened _ := .inl

theorem usage (bears : o.Bears m m') (n : Nat) (usage : List (String × Value)) :
    o.Bears m (m'.onCompletion n fun s => { s with usage }) := by
  let m'' := m'.onCompletion n fun s => { s with usage }
  have settings : ∀ i, (m''.completion i).settings = (m'.completion i).settings := fun i => part_modify_same fun _ => rfl
  have session : ∀ i, (m''.completion i).session = (m'.completion i).session := fun i => part_modify_same fun _ => rfl
  exact ⟨bears.connected, fun i => (settings i).trans (bears.settings i), fun i first => (session i).trans (bears.stays i first),
    fun i later => bears.opened i ((session i).symm.trans later)⟩

/-- A session may be opened where the attempt succeeds. -/
theorem opening (bears : o.Bears m m') {n : Nat} (opens : o.session (m.completion n).settings.timeout = .ok ()) :
    o.Bears m (m'.onCompletion n fun s => { s with session := .open }) := by
  let m'' := m'.onCompletion n fun s => { s with session := .open }
  have settings : ∀ i, (m''.completion i).settings = (m'.completion i).settings := fun i => part_modify_same fun _ => rfl
  have session : ∀ i, (m''.completion i).session = (m'.completion i).session ∨ i = n ∧ (m''.completion i).session = .open := by
    intro i
    rcases part_modify m'.completions n i fun s => { s with session := .open } with kept | ⟨own, changed⟩
    · exact .inl (congrArg (·.session) kept)
    · exact .inr ⟨own, congrArg (·.session) changed⟩
  refine ⟨bears.connected, fun i => (settings i).trans (bears.settings i), fun i first => ?_, fun i later => ?_⟩
  · rcases session i with same | ⟨_, now⟩
    · exact same.trans (bears.stays i first)
    · exact now
  · rcases session i with same | ⟨rfl, _⟩
    · exact bears.opened i (same.symm.trans later)
    · exact .inr opens

end Oracle.Bears

namespace Routine

variable {α β : Type} {o : Oracle} {m : Memory}

/-- However the memory changes in the meantime and whatever number is drawn, a routine comes to the same result and has
the same descriptions written. It asks only while it holds a permit. -/
def SettlesOn (o : Oracle) (m : Memory) (result : Except Fault α) (ends : Prop) : (holds : Prop) → List Written → Routine α → Prop
  | holds, entries, .done result' => result' = result ∧ (holds ↔ ends) ∧ entries = []
  | holds, entries, .look next => ∀ m', o.Bears m m' → (next m').SettlesOn o m result ends holds entries
  | holds, entries, .store m' next => o.Bears m m' ∧ next.SettlesOn o m result ends holds entries
  | holds, entries, .ask question next => holds ∧ ∀ reply, o.Allows question reply →
      ∃ rest, entries = question.entries reply ++ rest ∧ (next reply).SettlesOn o m result ends holds rest
  | holds, entries, .control .takePermit next => ¬holds ∧ (next (.ok ())).SettlesOn o m result ends True entries
  | holds, entries, .control .givePermit next => holds ∧ (next (.ok ())).SettlesOn o m result ends False entries
  | _, _, .control _ _ => False

namespace SettlesOn

variable {result : Except Fault α} {result' : Except Fault β} {holds mid ends : Prop} {entries entries' : List Written}

theorem andThen {p : Routine α} {f : Except Fault α → Routine β} (first : p.SettlesOn o m result mid holds entries)
    (rest : (f result).SettlesOn o m result' ends mid entries') : (p.andThen f).SettlesOn o m result' ends holds (entries ++ entries') := by
  induction p generalizing holds entries with
  | done =>
    obtain ⟨rfl, same, rfl⟩ := first
    rwa [propext same]
  | look next ih => exact fun m' bears => ih m' (first m' bears)
  | store m' next ih => exact ⟨first.1, ih first.2⟩
  | ask question next ih =>
    refine ⟨first.1, fun reply allowed => ?_⟩
    obtain ⟨later, rfl, settles⟩ := first.2 reply allowed
    exact ⟨later ++ entries', List.append_assoc .., ih reply settles⟩
  | control request next ih =>
    cases request with
    | takePermit | givePermit => exact ⟨first.1, ih _ first.2⟩
    | _ => exact first.elim

theorem view_bind {f : Memory → α} {g : α → Routine β} : (view f >>= g).SettlesOn o m result' ends holds entries ↔
    ∀ m', o.Bears m m' → (g (f m')).SettlesOn o m result' ends holds entries := Iff.rfl

end SettlesOn

/-- While it holds a permit, a routine comes to one result, and has the same descriptions written each time. -/
def Settled (o : Oracle) (m : Memory) (p : Routine α) : Prop := ∃ result entries, p.SettlesOn o m result True True entries

namespace Settled

theorem done (result : Except Fault α) : (Routine.done result).Settled o m := ⟨result, [], rfl, Iff.rfl, rfl⟩

theorem andThen {p : Routine α} {f : Except Fault α → Routine β} (settled : p.Settled o m) (rest : ∀ result, (f result).Settled o m) :
    (p.andThen f).Settled o m := by
  obtain ⟨result, entries, first⟩ := settled
  obtain ⟨result', entries', second⟩ := rest result
  exact ⟨result', entries ++ entries', first.andThen second⟩

theorem composes : Composes fun _ p => p.Settled o m := ⟨done, andThen⟩

theorem bind {p : Routine α} {f : α → Routine β} (settled : p.Settled o m) (rest : ∀ a, (f a).Settled o m) :
    (p >>= f).Settled o m :=
  composes.bind settled rest

theorem rescue {p : Routine α} {handler : Fault → Routine α} (settled : p.Settled o m) (handles : ∀ fault, (handler fault).Settled o m) :
    (p.rescue handler).Settled o m :=
  composes.rescue settled handles

/-- A question with a settled answer. -/
theorem query {question : Ask} {answer : Except Fault question.Reply} (sure : ∀ reply, o.Allows question reply → reply = answer) :
    (Routine.query question).Settled o m := by
  refine ⟨answer, question.entries answer ++ [], trivial, fun reply allowed => ?_⟩
  cases sure reply allowed
  exact ⟨[], rfl, rfl, Iff.rfl, rfl⟩

/-- What is made of the memory is always the same. -/
theorem view {f : Memory → α} {g : α → Routine β} (settled : (g (f m)).Settled o m) (same : ∀ m', o.Bears m m' → g (f m') = g (f m)) :
    (Routine.view f >>= g).Settled o m := by
  obtain ⟨result, entries, settles⟩ := settled
  exact ⟨result, entries, SettlesOn.view_bind.mpr fun m' bears => (same m' bears) ▸ settles⟩

theorem change {f : Memory → Memory} (bears : ∀ m', o.Bears m m' → o.Bears m (f m')) : (Routine.change f).Settled o m :=
  ⟨.ok (), [], fun m' found => ⟨bears m' found, rfl, Iff.rfl, rfl⟩⟩

/-- Routines that all come to the same are gone on with in the same way. -/
theorem varied {ι : Type} {p : ι → Routine α} {f : α → Routine β}
    (same : ∃ result entries, ∀ i, (p i).SettlesOn o m result True True entries) (rest : ∀ a, (f a).Settled o m) :
    ∃ result entries, ∀ i, (p i >>= f).SettlesOn o m result True True entries := by
  obtain ⟨result, entries, settles⟩ := same
  cases result with
  | ok a =>
    obtain ⟨result', entries', second⟩ := rest a
    exact ⟨result', entries ++ entries', fun i => (settles i).andThen second⟩
  | error fault => exact ⟨.error fault, entries ++ [], fun i => (settles i).andThen ⟨rfl, Iff.rfl, rfl⟩⟩

/-- Whatever number is drawn, the rest comes to the same. -/
theorem drawn {f : Nat → Routine β} (same : ∃ result entries, ∀ n, (f n).SettlesOn o m result True True entries) :
    (Routine.query .drawId >>= f).Settled o m := by
  obtain ⟨result, entries, settles⟩ := same
  refine ⟨result, entries, trivial, fun reply allowed => ?_⟩
  obtain ⟨n, rfl⟩ := allowed
  exact ⟨entries, rfl, settles n⟩

end Settled

end Routine

open Routine

variable {o : Oracle} {m : Memory}

/-- Whether a session can be had is the same each time, whoever has opened it. -/
theorem CompletionService.openSession_settled (n : Nat) : (openSession n).Settled o m := by
  unfold openSession
  by_cases first : (m.completion n).session = .open
  · refine ⟨.ok (), [], SettlesOn.view_bind.mpr fun m' bears => ?_⟩
    rw [if_pos (bears.stays n first)]
    exact ⟨rfl, Iff.rfl, rfl⟩
  cases answer : o.session (m.completion n).settings.timeout with
  | ok =>
    refine ⟨.ok (), [], SettlesOn.view_bind.mpr fun m' bears => ?_⟩
    split
    · exact ⟨rfl, Iff.rfl, rfl⟩
    · refine ⟨trivial, fun reply allowed => ⟨[], rfl, ?_⟩⟩
      cases (allowed.trans (congrArg _ (congrArg _ (bears.settings n)))).trans answer
      exact fun m'' found => ⟨found.opening answer, rfl, Iff.rfl, rfl⟩
  | error fault =>
    refine ⟨.error fault, [], SettlesOn.view_bind.mpr fun m' bears => ?_⟩
    split
    next isOpen =>
      rcases bears.opened n isOpen with isOpen | opens
      · exact absurd isOpen first
      · cases answer.symm.trans opens
    · refine ⟨trivial, fun reply allowed => ⟨[], rfl, ?_⟩⟩
      cases (allowed.trans (congrArg _ (congrArg _ (bears.settings n)))).trans answer
      exact ⟨rfl, Iff.rfl, rfl⟩

theorem CompletionService.generate_settled (n : Nat) (prompt system : Value) : (generate n prompt system).Settled o m := by
  unfold generate
  refine .view ?_ fun m' bears => ?_
  · split
    · exact .done _
    refine .bind (openSession_settled n) fun _ => .bind (.query fun _ => id) fun reply => ?_
    split
    · exact .done _
    refine .bind (.done _) fun data => .bind (.done _) fun completed => ?_
    refine .bind (.change fun m' bears => bears.usage n _) fun _ => .bind (.done _) fun _ => .done _
  · have same := bears.settings n
    generalize m'.completion n = service' at same
    generalize m.completion n = service at same
    cases service
    cases service'
    cases same
    rfl

theorem CompletionSource.complete_settled (source : CompletionSource) (prompt : String) (system : Option String) :
    (source.complete prompt system).Settled o m := by
  cases source with
  | service n => exact CompletionService.generate_settled n _ _
  | outside => exact .query fun _ => id

theorem readCode_settled (e : Enricher) (method : PendingMethod) : (readCode e method).Settled o m := by
  unfold readCode
  split
  · exact .done _
  · split
    · refine .bind (.query fun _ => id) fun content => ?_
      cases content with
      | missing | directory | bytes => exact .done _
    · exact .done _

theorem describe_settled (e : Enricher) (method : PendingMethod) (code : String) : (describe e method code).Settled o m :=
  .rescue (.bind (e.completion.complete_settled _ _) fun _ => .bind (.done _) fun _ => .done _) fun _ => .done _

namespace GraphClient

/-- What the records of an answer are, if it can be read. -/
def readAnswer (statement : Statement) (parameters : Value) (answer : Except Fault Table) : Except Fault (List Value) := do
  let table ← answer
  let records ← table.records
  journal statement parameters
  return records

theorem send_settles (n : Nat) (statement : Statement) (parameters : Value) (answer : Except Fault Table)
    (sure : ∀ reply, o.Allows (.query statement (parameters.orElse (.dict []))) reply → reply = answer) :
    (send n statement parameters).SettlesOn o m
      (if (m.graph n).connected then readAnswer statement (parameters.orElse (.dict [])) answer else .error (.failure .graphClosed))
      True True (if (m.graph n).connected then (Ask.query statement (parameters.orElse (.dict []))).entries answer else []) := by
  unfold send
  refine SettlesOn.view_bind.mpr fun m' bears => ?_
  rw [bears.connected]
  cases (m.graph n).connected with
  | false => exact ⟨rfl, Iff.rfl, rfl⟩
  | true =>
    refine ⟨trivial, fun reply allowed => ?_⟩
    cases sure reply allowed
    refine ⟨[], (List.append_nil _).symm, ?_⟩
    cases answer with
    | error fault => exact ⟨rfl, Iff.rfl, rfl⟩
    | ok table =>
      change SettlesOn o m (table.records >>= fun records => journal statement (parameters.orElse (.dict [])) >>= fun _ => pure records)
        True True [] (liftM table.records >>= fun records => liftM (journal statement (parameters.orElse (.dict []))) >>= fun _ => pure records)
      cases table.records with
      | error fault => exact ⟨rfl, Iff.rfl, rfl⟩
      | ok records =>
        cases journal statement (parameters.orElse (.dict [])) with
        | error | ok => exact ⟨rfl, Iff.rfl, rfl⟩

/-- The list of methods without a description is the same each time. -/
theorem run_settles (n : Nat) : ∃ result, (run n .undescribedMethods).SettlesOn o m result True True [] := by
  have settles := send_settles (m := m) n .undescribedMethods .null o.listing fun _ => id
  have nothing : (Ask.query .undescribedMethods (Value.null.orElse (.dict []))).entries o.listing = [] := rfl
  rw [nothing, ite_self] at settles
  exact ⟨_, settles⟩

/-- What comes of a description, and what is written, does not depend on the number of the description. -/
theorem send_creates (n : Nat) (method content file : Value) : ∃ result entries, ∀ number, (send n .createDescription
    (.record [("method_id", method), ("description_id", number), ("content", content), ("source_file", file)])).SettlesOn o m
      result True True entries := by
  let parameters (number : Value) : Value :=
    .record [("method_id", method), ("description_id", number), ("content", content), ("source_file", file)]
  have settles := fun number => send_settles (m := m) n .createDescription (parameters number) (o.created method) fun _ => id
  have read : ∀ number, readAnswer .createDescription ((parameters number).orElse (.dict [])) (o.created method) =
      readAnswer .createDescription (parameters .null) (o.created method) := fun _ => rfl
  have written : ∀ number, (Ask.query .createDescription ((parameters number).orElse (.dict []))).entries (o.created method) =
      (Ask.query .createDescription (parameters .null)).entries (o.created method) := by
    intro number
    cases o.created method with
    | error | ok => rfl
  simp only [read, written] at settles
  exact ⟨_, _, settles⟩

end GraphClient

theorem writeDescription_settled (e : Enricher) (method : PendingMethod) (content : String) :
    (writeDescription e method content).Settled o m := by
  obtain ⟨result, entries, settles⟩ := GraphClient.send_creates (o := o) (m := m) e.graph method.id (.str content) method.filePath
  refine .drawn (Settled.varied ⟨result, entries, fun n => settles _⟩ fun records => .bind (.done _) fun created => ?_)
  split
  · exact .done _
  · exact .done _

theorem enrichOne_settled (e : Enricher) (method : PendingMethod) : (enrichOne e method).Settled o m := by
  refine .rescue (.bind (readCode_settled e method) fun code => .bind (describe_settled e method code) fun content => ?_)
    fun _ => .done _
  cases content with
  | some content => exact .bind (writeDescription_settled e method content) fun _ => .done _
  | none => exact .bind (writeDescription_settled e method _) fun _ => .done _

end CodeAtlas
