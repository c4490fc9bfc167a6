import CodeAtlas.Proofs.Crew.Terms
import CodeAtlas.Proofs.Enrichment.Settled
import CodeAtlas.Proofs.Ingestion.Civil
import CodeAtlas.Proofs.Ingestion.Stages

namespace CodeAtlas

/-- The language model is asked. -/
def Ask.isPrompt : Ask → Bool
  | .requestCompletion .. | .complete .. => true
  | _ => false

/-- The language model is asked, or reached for that. -/
def Ask.consults : Ask → Bool
  | .openSession _ | .requestCompletion .. | .complete .. => true
  | _ => false

/-- A description is sent. -/
def Ask.creates : Ask → Bool
  | .query .createDescription _ => true
  | _ => false

/-- What the service of the language model has completed. -/
def CompletionService.readReply (reply : HttpReply) : Except Fault Value :=
  if !reply.status.same (.int 200) then .error (.failure (.completionStatus reply.status reply.text))
  else do
    let data ← reply.body
    let (completion, _) ← readResponse data
    let _ ← completion.length
    return completion

namespace Exchange

/-- The description in what the language model answers, if it holds one that can be used. -/
def description? : Exchange → Option String
  | ⟨.requestCompletion .., reply⟩ => (reply >>= CompletionService.readReply >>= readDescription).toOption
  | ⟨.complete .., reply⟩ => (reply >>= readDescription).toOption
  | _ => none

end Exchange

/-- Nothing but the language model was asked, once at most. -/
structure Consulting (heard : List Exchange) : Prop where
  only : ∀ x ∈ heard, x.question.consults = true
  once : heard.countP (·.question.isPrompt) ≤ 1

/-- The first description that the language model gave. -/
def gained (heard : List Exchange) : Option String := heard.findSome? Exchange.description?

/-- Methods can be described on these terms: the graph stays connected, whatever becomes of the services of the language
model, and what fails does so by an ordinary fault. -/
structure Terms.Serves (t : Terms) (e : Enricher) : Prop where
  connected : ∀ m, t.keeps m → (m.graph e.graph).connected = true
  undisturbed : ∀ m n f, t.keeps m → t.keeps (m.onCompletion n f)
  civil : ∀ question reply, question.describes → t.answers question reply → question.Civil reply

open Routine

variable {t : Terms} {e : Enricher}

section Consultation

/-- What was heard of the language model, and what was answered in the end. -/
def Answers (heard : List Exchange) (answer : Except Fault Value) : Prop :=
  Consulting heard ∧ gained heard = (answer >>= readDescription).toOption ∧ Civil answer

/-- Nobody has been asked yet who could have answered. -/
def Opening (heard : List Exchange) : Prop := ∀ x ∈ heard, ∃ timeout, x.question = .openSession timeout

namespace Opening

variable {heard : List Exchange}

theorem prompts (opening : Opening heard) : heard.countP (·.question.isPrompt) = 0 := by
  refine List.countP_eq_zero.mpr fun x inside => ?_
  obtain ⟨timeout, asked⟩ := opening x inside
  simp [asked, Ask.isPrompt]

theorem gained (opening : Opening heard) : CodeAtlas.gained heard = none := by
  refine List.findSome?_eq_none_iff.mpr fun ⟨question, reply⟩ inside => ?_
  obtain ⟨timeout, asked⟩ := opening _ inside
  cases asked
  rfl

/-- Nobody is asked after all. -/
theorem fails (opening : Opening heard) {fault : Fault} (ordinary : fault.ordinary = true) : Answers heard (.error fault) := by
  refine ⟨⟨fun x inside => ?_, by rw [opening.prompts]; exact Nat.zero_le _⟩, opening.gained, Civil.error ordinary⟩
  obtain ⟨timeout, asked⟩ := opening x inside
  rw [asked]
  rfl

/-- The language model is asked in the end. -/
theorem answers (opening : Opening heard) {question : Ask} {reply : Except Fault question.Reply} {answer : Except Fault Value}
    (prompts : question.isPrompt = true) (consults : question.consults = true)
    (read : Exchange.description? ⟨question, reply⟩ = (answer >>= readDescription).toOption) (civil : Civil answer) :
    Answers (heard ++ [⟨question, reply⟩]) answer := by
  refine ⟨⟨List.forall_mem_append.mpr ⟨fun x inside => ?_, List.forall_mem_singleton.mpr consults⟩, ?_⟩, ?_, civil⟩
  · obtain ⟨timeout, asked⟩ := opening x inside
    rw [asked]
    rfl
  · rw [List.countP_append, opening.prompts]
    simp [prompts]
  · have before := opening.gained
    unfold CodeAtlas.gained at before ⊢
    rw [List.findSome?_append, before, Option.none_or, List.findSome?_singleton, read]

end Opening

theorem CompletionService.openSession_hears (serves : t.Serves e) (n : Nat) :
    (openSession n).Hears t True True fun heard result => Opening heard ∧ Civil result := by
  have nothing : Opening [] := List.forall_mem_nil _
  refine .view_bind fun m _ => .ite (fun _ => ⟨Iff.rfl, nothing, .ok ()⟩) fun _ => ?_
  refine .query_bind (fun _ _ => ?_) fun fault answered => ⟨List.forall_mem_singleton.mpr ⟨_, rfl⟩, ?_⟩
  · exact fun m kept => ⟨serves.undisturbed m n _ kept, Iff.rfl, List.forall_mem_singleton.mpr ⟨_, rfl⟩, .ok ()⟩
  · exact serves.civil (.openSession _) _ trivial answered

theorem CompletionService.readReply_civil {reply : HttpReply} (body : Civil reply.body) : Civil (readReply reply) := by
  refine .ite (.error rfl) (body.bind fun data => (readResponse_civil data).bind fun read => ?_)
  exact (Value.length_civil _).bind fun _ => .ok _

/-- What is made of a reply is what it holds. -/
theorem CompletionService.readReply_hears (serves : t.Serves e) (n : Nat) (reply : HttpReply) :
    (if !reply.status.same (.int 200) then Routine.fail (.failure (.completionStatus reply.status reply.text))
      else do
        let data ← reply.body
        let (completion, usage) ← readResponse data
        Routine.change (Memory.onCompletion n fun s => { s with usage })
        let _ ← completion.length
        return completion).Hears t True True fun heard result => heard = [] ∧ result = readReply reply := by
  unfold readReply
  split
  · exact ⟨Iff.rfl, rfl, rfl⟩
  refine .compute_bind (fun data body => ?_) fun fault body => ⟨rfl, by rw [body]; rfl⟩
  rw [body]
  refine .compute_bind (fun read response => ?_) fun fault response => ⟨rfl, ?_⟩
  · refine .change_bind (fun m kept => serves.undisturbed m n _ kept) ?_
    have made : (readResponse data >>= fun read => read.1.length >>= fun _ => pure read.1) = read.1.length >>= fun _ => pure read.1 := by
      rw [response]
      rfl
    refine .compute_bind (fun _ size => ⟨Iff.rfl, rfl, ?_⟩) fun fault size => ⟨rfl, ?_⟩
    · exact (made.trans (by rw [size]; rfl)).symm
    · exact (made.trans (by rw [size]; rfl)).symm
  · change _ = readResponse data >>= _
    rw [response]
    rfl

theorem CompletionService.generate_hears (serves : t.Serves e) (n : Nat) (prompt system : Value) :
    (generate n prompt system).Hears t True True Answers := by
  refine .view_bind fun m _ => .ite (fun _ => ⟨Iff.rfl, Opening.fails (List.forall_mem_nil _) rfl⟩) fun _ => ?_
  refine (openSession_hears serves n).bind (fun opened _ opening => ?_) fun opened fault opening => opening.1.fails (opening.2 _ rfl)
  refine .query_bind (fun reply answered => ?_) fun fault answered => ?_
  · refine (readReply_hears serves n reply).imp ?_
    rintro _ answer ⟨rfl, rfl⟩
    refine opening.1.answers rfl rfl rfl (readReply_civil ?_)
    exact serves.civil (.requestCompletion ..) _ trivial answered
  · exact opening.1.answers rfl rfl rfl (.error (serves.civil (.requestCompletion ..) _ trivial answered fault rfl))

theorem CompletionSource.complete_hears (serves : t.Serves e) (source : CompletionSource) (prompt : String) (system : Option String) :
    (source.complete prompt system).Hears t True True Answers := by
  cases source with
  | service n => exact CompletionService.generate_hears serves n _ _
  | outside =>
    refine ⟨trivial, fun reply answered => ⟨Iff.rfl, ?_⟩⟩
    have opening : Opening [] := List.forall_mem_nil _
    exact opening.answers rfl rfl rfl (serves.civil (.complete ..) _ trivial answered)

/-- What came of a consultation: the description that the language model gave, or an ordinary fault without one. -/
structure Consulted (heard : List Exchange) (result : Except Fault (Option String)) : Prop where
  consulting : Consulting heard
  gains : gained heard = result.toOption.join
  civil : Civil result

/-- The description is the one that the language model gave, if any. -/
theorem describe_hears (serves : t.Serves e) (m : PendingMethod) (code : String) :
    (describe e m code).Hears t True True fun heard result => Consulted heard result ∧ ∃ content, result = .ok content := by
  have consults : (e.completion.complete (enrichmentPrompt m code) (some enrichmentSystem) >>= fun answer =>
      (liftM (readDescription answer) : Routine String) >>= fun content => pure (some content)).Hears t True True Consulted := by
    refine (e.completion.complete_hears serves _ _).bind (fun heard answer answers => ?_) fun heard fault answers => ?_
    · obtain ⟨consulting, read, _⟩ := answers
      replace read : gained heard = (readDescription answer).toOption := read
      cases given : readDescription answer with
      | ok content => exact .ended ⟨consulting, by rw [read, given]; rfl, .ok _⟩
      | error fault => exact .ended ⟨consulting, by rw [read, given]; rfl, .error (readDescription_civil answer _ given)⟩
    · exact ⟨answers.1, answers.2.1, .error (answers.2.2 _ rfl)⟩
  refine consults.rescue (fun heard content consulted => ⟨consulted, content, rfl⟩) (fun _ fault consulted => consulted.civil fault rfl)
    fun heard fault consulted => ⟨Iff.rfl, ?_⟩
  simp only [List.append_nil]
  exact ⟨⟨consulted.consulting, consulted.gains, .ok _⟩, none, rfl⟩

end Consultation

section Treatment

/-- The code of a method can be read: none is to be read, or what stands at its path is no directory. A file that is missing
does no harm. -/
def PendingMethod.Legible (e : Enricher) (m : PendingMethod) (heard : List Exchange) : Prop :=
  m.filePath.truthy = false ∨ ∃ path content, m.filePath = .str path ∧ content ≠ .directory ∧
    ⟨.contentAt (Path.below e.sourceRoot path), .ok content⟩ ∈ heard

/-- What is sent with a description. -/
def PendingMethod.parameters (m : PendingMethod) (drawn : Nat) (content : String) : Value :=
  .record [("method_id", m.id), ("description_id", .str ("desc_" ++ m.id.display ++ "_" ++ String.ofList (hexText 8 drawn))),
    ("content", .str content), ("source_file", m.filePath)]

/-- Only files were looked for. -/
def FileReads (heard : List Exchange) : Prop := ∀ x ∈ heard, ∃ path, x.question = .contentAt path

theorem PendingMethod.legible_single {m : PendingMethod} {path : String} (placed : m.filePath = .str path)
    (somewhere : m.filePath.truthy = true) (reply : Except Fault FileContent) :
    m.Legible e [⟨.contentAt (Path.below e.sourceRoot path), reply⟩] ↔ ∃ content, reply = .ok content ∧ content ≠ .directory := by
  constructor
  · rintro (nowhere | ⟨path', content, placed', readable, inside⟩)
    · cases somewhere.symm.trans nowhere
    · cases placed.symm.trans placed'
      cases List.mem_singleton.mp inside
      exact ⟨content, rfl, readable⟩
  · rintro ⟨content, rfl, readable⟩
    exact .inr ⟨path, content, placed, readable, List.mem_singleton_self _⟩

theorem readCode_hears (serves : t.Serves e) (m : PendingMethod) : (readCode e m).Hears t True True fun heard result =>
    FileReads heard ∧ (m.Legible e heard ↔ result.isOk) ∧ Civil result := by
  have nothing : FileReads [] := List.forall_mem_nil _
  unfold readCode
  split
  next nowhere =>
    have unplaced : m.filePath.truthy = false := by simpa using nowhere
    exact ⟨Iff.rfl, nothing, iff_of_true (.inl unplaced) rfl, .ok _⟩
  next somewhere =>
    replace somewhere : m.filePath.truthy = true := by simpa using somewhere
    split
    next path placed =>
      have reading : ∀ reply, FileReads [⟨.contentAt (Path.below e.sourceRoot path), reply⟩] :=
        fun reply => List.forall_mem_singleton.mpr ⟨_, rfl⟩
      have legible := PendingMethod.legible_single (e := e) placed somewhere
      refine .query_bind (fun content _ => ?_) fun fault answered => ?_
      · cases content with
        | directory =>
          refine ⟨Iff.rfl, reading _, iff_of_false (fun found => ?_) Bool.false_ne_true, .error rfl⟩
          obtain ⟨_, ⟨⟩, readable⟩ := (legible _).mp found
          exact readable rfl
        | missing | bytes => exact ⟨Iff.rfl, reading _, iff_of_true ((legible _).mpr ⟨_, rfl, nofun⟩) rfl, .ok _⟩
      · refine ⟨reading _, iff_of_false (fun found => ?_) Bool.false_ne_true, ?_⟩
        · obtain ⟨_, ⟨⟩, _⟩ := (legible _).mp found
        · exact .error (serves.civil (.contentAt _) _ trivial answered fault rfl)
    next v unplaced =>
      refine ⟨Iff.rfl, nothing, iff_of_false ?_ Bool.false_ne_true, .error rfl⟩
      rintro (nowhere | ⟨path, _, same, _⟩)
      · cases somewhere.symm.trans nowhere
      · exact unplaced path same

/-- What was sent for a description that was to be written, unless no number could be drawn for it, and whether it was. -/
inductive Sent (t : Terms) (m : PendingMethod) (content : String) : List Exchange → Bool → Prop
  | undrawn {fault} : t.answers .drawId (.error fault) → Sent t m content [⟨.drawId, .error fault⟩] false
  | sent {drawn : Nat} {reply : Except Fault Table} {written : Bool} :
      (written = true ↔ ∃ table, reply = .ok table ∧ table.creates = true) → Sent t m content
        [⟨.drawId, .ok drawn⟩, ⟨.query .createDescription (m.parameters drawn content), reply⟩] written

/-- What is made of how many descriptions were created for a method. -/
def PendingMethod.confirm (m : PendingMethod) (created : Value) : Except Fault Unit :=
  if created.truthy then .ok () else .error (.failure (.methodMissing m.id))

theorem Table.creates_iff (table : Table) (m : PendingMethod) :
    (table.records >>= createdCount >>= m.confirm).isOk = true ↔ table.creates = true := by
  unfold Table.creates
  cases table.records >>= createdCount with
  | error => exact Iff.rfl
  | ok created =>
    change (if created.truthy then _ else _ : Except Fault Unit).isOk = true ↔ created.truthy = true
    cases created.truthy with
    | true | false => exact Iff.rfl

theorem GraphClient.read_create (parameters : List (Value × Value)) (reply : Except Fault Table) :
    read .createDescription (.dict parameters) reply = reply >>= Table.records := by
  cases reply with
  | error => rfl
  | ok table =>
    change (table.records >>= fun records => journal .createDescription (.dict parameters) >>= fun _ => .ok records) = table.records
    cases table.records with
    | error | ok => rfl

/-- A client that is connected sends the description, and reads whether it was created. -/
theorem writeDescription_eq (e : Enricher) (m : PendingMethod) (content : String) :
    writeDescription e m content = query .drawId >>= fun drawn => .look fun memory =>
      if (memory.graph e.graph).connected then .ask (.query .createDescription (m.parameters drawn content)) fun reply =>
        .done (reply >>= Table.records >>= createdCount >>= m.confirm)
      else .done (.error (.failure .graphClosed)) := by
  let last (records : List Value) : Routine Unit := (liftM (createdCount records) : Routine Value) >>= fun created =>
    if created.truthy then pure () else Routine.fail (.failure (.methodMissing m.id))
  have ends : ∀ read : Except Fault (List Value), Routine.bind (.done read) last = .done (read >>= createdCount >>= m.confirm) := by
    intro read
    cases read with
    | error fault => rfl
    | ok records =>
      change (liftM (createdCount records) : Routine Value) >>= _ = Routine.done (createdCount records >>= m.confirm)
      cases createdCount records with
      | error fault => rfl
      | ok created => exact (apply_ite Routine.done _ _ _).symm
  refine congrArg (query .drawId >>= ·) (funext fun drawn => ?_)
  change GraphClient.send e.graph .createDescription (m.parameters drawn content) >>= last = _
  rw [GraphClient.send_eq]
  refine congrArg Routine.look (funext fun memory => ?_)
  cases connected : (memory.graph e.graph).connected with
  | false => simp only [Routine.andThen, connected, Bool.false_eq_true, if_false]
  | true =>
    simp only [Routine.andThen, connected, if_true]
    refine congrArg (Routine.ask _) (funext fun reply => ?_)
    exact (congrArg (fun read => Routine.bind (.done read) last) (GraphClient.read_create _ reply)).trans (ends _)

theorem writeDescription_hears (serves : t.Serves e) (m : PendingMethod) (content : String) :
    (writeDescription e m content).Hears t True True fun heard result => Sent t m content heard result.isOk ∧ Civil result := by
  rw [writeDescription_eq]
  refine .query_bind (fun drawn _ => ?_) fun fault answered =>
    ⟨.undrawn answered, .error (serves.civil .drawId _ trivial answered fault rfl)⟩
  refine fun memory kept => .ite (fun _ => ⟨trivial, fun reply answered => ⟨Iff.rfl, .sent ?_, ?_⟩⟩) fun closed => ?_
  · cases reply with
    | error => exact iff_of_false Bool.false_ne_true nofun
    | ok table =>
      refine (table.creates_iff m).trans ⟨fun created => ⟨table, rfl, created⟩, ?_⟩
      rintro ⟨_, ⟨⟩, created⟩
      exact created
  · have civil : Civil reply := serves.civil (.query .createDescription _) _ trivial answered
    exact ((civil.bind Table.records_civil).bind createdCount_civil).bind fun _ => .ite (.ok ()) (.error rfl)
  · exact absurd (serves.connected memory kept) closed

/-- What was heard while a method was described, and what became of it. -/
inductive Described (t : Terms) (e : Enricher) (m : PendingMethod) : List Exchange → Outcome → Prop
  | illegible {reading} : FileReads reading → ¬m.Legible e reading → Described t e m reading .failed
  | failed {reading consulting sending} : FileReads reading → m.Legible e reading → Consulting consulting →
      Sent t m ((gained consulting).getD m.placeholder) sending false → Described t e m (reading ++ (consulting ++ sending)) .failed
  | written {reading consulting sending} : FileReads reading → m.Legible e reading → Consulting consulting →
      Sent t m ((gained consulting).getD m.placeholder) sending true → Described t e m (reading ++ (consulting ++ sending))
        (if (gained consulting).isSome then .enriched else .placeholder)

/-- What comes of a method, before it is known whether a fault makes it a failed one. -/
structure Treated (t : Terms) (e : Enricher) (m : PendingMethod) (heard : List Exchange) (result : Except Fault Outcome) : Prop where
  described : Described t e m heard (result.toOption.getD .failed)
  civil : Civil result

/-- A description is written, and the method counted. -/
theorem written_hears (serves : t.Serves e) {m : PendingMethod} {reading consulting : List Exchange} (read : FileReads reading)
    (legible : m.Legible e reading) (consults : Consulting consulting) {content : String} {outcome : Outcome}
    (chosen : content = (gained consulting).getD m.placeholder)
    (counted : outcome = if (gained consulting).isSome then .enriched else .placeholder) :
    (writeDescription e m content >>= fun _ => pure outcome).Hears t True True
      fun later => Treated t e m (reading ++ (consulting ++ later)) := by
  subst chosen counted
  refine (writeDescription_hears serves m _).bind (fun sending _ came => ⟨Iff.rfl, ?_⟩) fun sending fault came => ?_
  · simp only [List.append_nil]
    exact ⟨.written read legible consults came.1, .ok _⟩
  · exact ⟨.failed read legible consults came.1, .error (came.2 fault rfl)⟩

theorem enrichOne_hears (serves : t.Serves e) (m : PendingMethod) :
    (enrichOne e m).Hears t True True fun heard result => ∃ outcome, result = .ok outcome ∧ Described t e m heard outcome := by
  unfold enrichOne
  refine Hears.rescue ?_ (fun heard outcome (treated : Treated t e m heard _) => ⟨outcome, rfl, treated.described⟩)
    (fun _ fault treated => treated.civil fault rfl) fun heard fault treated => ⟨Iff.rfl, ?_⟩
  · refine (readCode_hears serves m).bind (fun reading code came => ?_) fun reading fault came => ?_
    · obtain ⟨read, legible, _⟩ := came
      replace legible : m.Legible e reading := legible.mpr rfl
      refine (describe_hears serves m code).bind (fun consulting content came => ?_) fun consulting fault came => ?_
      · obtain ⟨consulted, _⟩ := came
        have gains : gained consulting = content := consulted.gains
        cases content with
        | some content => exact written_hears serves read legible consulted.consulting (by rw [gains]; rfl) (by rw [gains]; rfl)
        | none => exact written_hears serves read legible consulted.consulting (by rw [gains]; rfl) (by rw [gains]; rfl)
      · obtain ⟨_, _, ⟨⟩⟩ := came
    · obtain ⟨read, legible, civil⟩ := came
      exact ⟨.illegible read fun found => Bool.false_ne_true (legible.mp found), .error (civil fault rfl)⟩
  · simp only [List.append_nil]
    exact ⟨.failed, rfl, treated.described⟩

/-- A job describes its method while it holds a permit, which it hands back. -/
theorem describe_job_hears (serves : t.Serves e) (m : PendingMethod) : (Job.describe e m).routine.Hears t False False
    fun heard result => ∃ outcome, result = .ok (.outcome outcome) ∧ Described t e m heard outcome := by
  have ensured : ((enrichOne e m).ensuring (request .givePermit)).Hears t False True
      fun heard result => ∃ outcome, result = .ok outcome ∧ Described t e m heard outcome :=
    (enrichOne_hears serves m).andThen fun heard result came => ⟨trivial, Iff.rfl, by simpa only [List.append_nil] using came⟩
  refine ⟨id, ensured.bind (fun heard outcome came => ?_) fun heard fault came => ?_⟩
  · obtain ⟨_, ⟨⟩, described⟩ := came
    refine ⟨Iff.rfl, ?_⟩
    simp only [List.append_nil]
    exact ⟨outcome, rfl, described⟩
  · obtain ⟨_, ⟨⟩, _⟩ := came

end Treatment

end CodeAtlas
