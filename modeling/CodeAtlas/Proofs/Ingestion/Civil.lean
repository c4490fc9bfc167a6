import CodeAtlas.Ingestion

namespace CodeAtlas

/-- What fails does so by an ordinary fault: neither a cancellation nor an interruption comes of it. -/
def Civil {α : Type} (result : Except Fault α) : Prop := ∀ fault, result = .error fault → fault.ordinary = true

namespace Civil

variable {α β : Type}

theorem ok (a : α) : Civil (.ok a) := nofun

theorem error {fault : Fault} (ordinary : fault.ordinary = true) : Civil (.error fault : Except Fault α) := by
  rintro _ ⟨⟩
  exact ordinary

theorem bind {result : Except Fault α} {f : α → Except Fault β} (civil : Civil result) (rest : ∀ a, Civil (f a)) :
    Civil (result >>= f) := by
  cases result with
  | ok a => exact rest a
  | error fault => exact error (civil fault rfl)

theorem map {result : Except Fault α} (f : α → β) (civil : Civil result) : Civil (result.map f) := by
  cases result with
  | ok a => exact ok _
  | error fault => exact error (civil fault rfl)

theorem ite {p : Prop} [Decidable p] {a b : Except Fault α} (yes : Civil a) (no : Civil b) : Civil (if p then a else b) := by
  split
  · exact yes
  · exact no

/-- What is refused under a condition, and goes on otherwise. -/
theorem guarded {p : Prop} [Decidable p] {fault : Fault} {f : β → Except Fault α} {rest : Except Fault α}
    (ordinary : fault.ordinary = true) (civil : Civil rest) : Civil (if p then throw fault >>= f else rest) :=
  .ite (error ordinary) civil

theorem mapM {f : α → Except Fault β} {l : List α} (each : ∀ a, Civil (f a)) : Civil (l.mapM f) := by
  induction l with
  | nil => exact ok _
  | cons a rest ih =>
    rw [List.mapM_cons]
    exact (each a).bind fun _ => ih.bind fun _ => ok _

end Civil

section Readings

theorem Value.elements_civil (v : Value) : Civil v.elements := by
  cases v <;> first | exact .ok _ | exact .error rfl

theorem Value.length_civil (v : Value) : Civil v.length := by
  cases v <;> first | exact .ok _ | exact .error rfl

theorem Value.text_civil (member : String) (v : Value) : Civil (v.text member) := by
  cases v <;> first | exact .ok _ | exact .error rfl

theorem Value.has_civil (key : String) (v : Value) : Civil (v.has key) := by
  cases v <;> first | exact .ok _ | exact .error rfl

theorem Value.entry_civil (key : String) (v : Value) : Civil (v.entry key) := by
  cases v with
  | dict entries =>
    cases found : Value.lookup key entries with
    | some v => simpa only [Value.entry, found] using Civil.ok v
    | none =>
      have missing : Civil (.error (.noKey (.str key)) : Except Fault Value) := .error rfl
      simpa only [Value.entry, found] using missing
  | _ => exact .error rfl

theorem Value.getD_civil (v : Value) (key : String) (other : Value) : Civil (v.getD key other) := by
  cases v <;> first | exact .ok _ | exact .error rfl

theorem Value.asKey_civil (v : Value) : Civil v.asKey := .ite (.ok _) (.error rfl)

theorem cutTo_civil {α : Type} (bound : Value) (l : List α) : Civil (cutTo bound l) := by
  cases bound <;> first | exact .ok _ | exact .error rfl

theorem Value.start_civil (v bound : Value) : Civil (v.start bound) := by
  cases v <;> first | exact (cutTo_civil _ _).map _ | exact .error rfl

theorem columnName_civil (position : Nat) (header : Value) : Civil (columnName position header) := by
  refine header.length_civil.bind fun count => .ite (.ok _) ?_
  split <;> first | exact .ok _ | exact .error rfl

theorem Row.cell_civil (row : Row) (position : Nat) : Civil (row.cell position) := by
  unfold Row.cell
  split
  · split <;> first | exact .ok _ | exact .error rfl
  · split <;> first | exact .ok _ | exact .error rfl
  · exact .error rfl
  · exact .error rfl

theorem recordFrom_civil (row : Row) (position : Nat) (headers : List Value) (entries : List (Value × Value)) :
    Civil (recordFrom row position headers entries) := by
  induction headers generalizing position entries with
  | nil => exact .ok _
  | cons header rest ih =>
    refine (columnName_civil position header).bind fun name => (row.cell_civil position).bind fun cell => ?_
    exact name.asKey_civil.bind fun key => ih _ _

theorem Table.records_civil (t : Table) : Civil t.records :=
  .mapM fun row => t.header.elements_civil.bind fun headers => recordFrom_civil row 0 headers []

theorem GraphClient.journal_civil (statement : Statement) (parameters : Value) : Civil (journal statement parameters) := by
  refine (Value.start_civil _ _).bind fun _ => ?_
  split <;> first | exact .ok _ | exact .error rfl

theorem createdCount_civil (records : List Value) : Civil (createdCount records) := by
  cases records with
  | nil => exact .ok _
  | cons record => exact record.getD_civil _ _

theorem CompletionService.readResponse_civil (data : Value) : Civil (readResponse data) := by
  have count : ∀ (usage : Value) (key : String), Civil (do return (key, ← usage.getD key (.int 0)) : Except Fault (String × Value)) :=
    fun usage key => (usage.getD_civil _ _).bind fun _ => .ok _
  have first : ∀ choices, Civil (firstChoice choices) := by
    intro choices
    unfold firstChoice
    repeat' split
    all_goals first | exact .ok _ | exact .error rfl
  refine (data.has_civil _).bind fun there => .guarded rfl ((data.entry_civil _).bind fun choices => ?_)
  refine .guarded rfl ((first choices).bind fun choice => (choice.getD_civil _ _).bind fun message => ?_)
  refine (message.getD_civil _ _).bind fun content => .guarded rfl ((data.getD_civil _ _).bind fun usage => ?_)
  exact (count usage _).bind fun _ => (count usage _).bind fun _ => (count usage _).bind fun _ => .ok _

theorem readDescription_civil (answer : Value) : Civil (readDescription answer) := by
  refine (answer.text_civil _).bind fun text => ?_
  split
  · exact .error rfl
  · exact .ite (.ok _) (.error rfl)

end Readings

/-- An answer with an ordinary fault, if with any; the body that comes with it can be read, or not for such a
fault. -/
def Ask.Civil : (question : Ask) → Except Fault question.Reply → Prop
  | .requestCompletion .., .ok reply => CodeAtlas.Civil reply.body
  | _, reply => CodeAtlas.Civil reply

/-- A routine that ends at once with a cancellation when one comes in place of an answer, and otherwise with an
ordinary fault at worst. -/
def Routine.Heeds {α : Type} : Routine α → Prop
  | .done result => Civil result
  | .look next => ∀ m, (next m).Heeds
  | .store _ next => next.Heeds
  | .ask question next => next (.error .cancelled) = .done (.error .cancelled) ∧
      ∀ reply, question.Civil reply → (next reply).Heeds
  | .control _ next => next (.error .cancelled) = .done (.error .cancelled) ∧ ∀ reply, Civil reply → (next reply).Heeds

namespace Routine.Heeds

variable {α β : Type}

theorem done {result : Except Fault α} (civil : Civil result) : (Routine.done result).Heeds := civil

theorem pure (a : α) : (Pure.pure a : Routine α).Heeds := Civil.ok a

theorem fail {fault : Fault} (ordinary : fault.ordinary = true) : (Routine.fail fault : Routine α).Heeds := Civil.error ordinary

theorem ofExcept {result : Except Fault α} (civil : Civil result) : (Routine.ofExcept result).Heeds := civil

/-- What follows must not deal with a cancellation. -/
theorem andThen {p : Routine α} {f : Except Fault α → Routine β} (heeds : p.Heeds)
    (passes : f (.error .cancelled) = .done (.error .cancelled)) (rest : ∀ result, Civil result → (f result).Heeds) :
    (p.andThen f).Heeds := by
  induction p with
  | done result => exact rest result heeds
  | look next ih => exact fun m => ih m (heeds m)
  | store m next ih => exact ih heeds
  | ask question next ih | control question next ih =>
    obtain ⟨stops, goesOn⟩ := heeds
    refine ⟨?_, fun reply civil => ih reply (goesOn reply civil)⟩
    show (next (.error .cancelled)).andThen f = _
    rw [stops]
    exact passes

theorem bind {p : Routine α} {f : α → Routine β} (heeds : p.Heeds) (rest : ∀ a, (f a).Heeds) : (p >>= f).Heeds := by
  refine heeds.andThen rfl fun result civil => ?_
  cases result with
  | ok a => exact rest a
  | error fault => exact Civil.error (civil fault rfl)

theorem rescue {p : Routine α} {handler : Fault → Routine α} (heeds : p.Heeds)
    (handles : ∀ fault, (handler fault).Heeds) : (p.rescue handler).Heeds := by
  refine heeds.andThen rfl fun result civil => ?_
  cases result with
  | ok a => exact Civil.ok a
  | error fault =>
    dsimp only
    rw [if_pos (civil fault rfl)]
    exact handles fault

theorem view (f : Memory → α) : (view f).Heeds := fun m => Civil.ok (f m)

theorem change (f : Memory → Memory) : (change f).Heeds := fun _ => Civil.ok ()

/-- A question, of whose answer it is only known that it is civil. -/
theorem query_bind {question : Ask} {f : question.Reply → Routine α}
    (civil : ∀ reply, question.Civil reply → CodeAtlas.Civil reply)
    (rest : ∀ a, question.Civil (.ok a) → (f a).Heeds) : (query question >>= f).Heeds := by
  refine ⟨rfl, fun reply isCivil => ?_⟩
  cases reply with
  | ok a => exact rest a isCivil
  | error fault => exact Civil.error (civil _ isCivil fault rfl)

theorem query {question : Ask} (civil : ∀ reply, question.Civil reply → CodeAtlas.Civil reply) :
    (query question).Heeds := ⟨rfl, civil⟩

theorem ite {p q : Routine α} {b : Prop} [Decidable b] (yes : p.Heeds) (no : q.Heeds) : (if b then p else q).Heeds := by
  split
  · exact yes
  · exact no

end Routine.Heeds

open Routine

section Describing

theorem CompletionService.openSession_heeds (n : Nat) : (openSession n).Heeds := by
  refine (Heeds.view _).bind fun service => .ite (.pure _) ?_
  have opens : (query (.openSession service.settings.timeout)).Heeds := .query fun _ => id
  exact opens.bind fun _ => .change _

theorem CompletionService.generate_heeds (n : Nat) (prompt system : Value) : (generate n prompt system).Heeds := by
  refine (Heeds.view _).bind fun service => .ite (.fail rfl) ((openSession_heeds n).bind fun _ => ?_)
  refine Heeds.query_bind (fun reply civil => ?_) fun reply body => .ite (.fail rfl) ?_
  · cases reply with
    | ok => exact .ok _
    | error => exact civil
  · refine (Heeds.ofExcept body).bind fun data => (Heeds.ofExcept (readResponse_civil data)).bind fun read => ?_
    exact (Heeds.change _).bind fun _ => (Heeds.ofExcept (Value.length_civil _)).bind fun _ => .pure _

theorem CompletionSource.complete_heeds (source : CompletionSource) (prompt : String) (system : Option String) :
    (source.complete prompt system).Heeds := by
  cases source with
  | service n => exact CompletionService.generate_heeds n _ _
  | outside => exact .query fun _ => id

theorem readCode_heeds (e : Enricher) (m : PendingMethod) : (readCode e m).Heeds := by
  unfold readCode
  split
  · exact .pure _
  · split
    · refine Heeds.query_bind (fun _ civil => civil) fun content _ => ?_
      split <;> first | exact .pure _ | exact .fail rfl
    · exact .fail rfl

theorem describe_heeds (e : Enricher) (m : PendingMethod) (code : String) : (describe e m code).Heeds := by
  refine Heeds.rescue ?_ fun _ => .pure _
  refine (CompletionSource.complete_heeds _ _ _).bind fun answer => ?_
  exact (Heeds.ofExcept (readDescription_civil answer)).bind fun _ => .pure _

end Describing

end CodeAtlas
