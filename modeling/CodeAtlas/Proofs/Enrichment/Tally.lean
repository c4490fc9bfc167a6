import Mathlib.Data.Set.List
import CodeAtlas.Proofs.Enrichment.Alike
import CodeAtlas.Proofs.Enrichment.Listed

namespace CodeAtlas

variable {ω : Type} {w : World ω} {e : Enricher} {m : Memory}

namespace Exchange

/-- A description is sent. -/
def creates (x : Exchange) : Bool := x.question.creates

theorem entries_of_not_creates {x : Exchange} (other : x.creates = false) : x.entries = [] := by
  obtain ⟨question, reply⟩ := x
  cases question with
  | query statement =>
    cases statement with
    | createDescription => cases other
    | _ => rfl
  | _ => rfl

end Exchange

section Method

variable {t : Terms} {method : PendingMethod} {heard : List Exchange} {outcome : Outcome} {content : String} {written : Bool}

theorem FileReads.of_question (read : FileReads heard) {x : Exchange} (inside : x ∈ heard) :
    x.question.isPrompt = false ∧ x.creates = false ∧ x.description? = none := by
  obtain ⟨question, reply⟩ := x
  obtain ⟨path, asked⟩ := read _ inside
  cases asked
  exact ⟨rfl, rfl, rfl⟩

theorem Consulting.of_question (consults : Consulting heard) {x : Exchange} (inside : x ∈ heard) :
    x.creates = false ∧ ∀ path, x.question ≠ .contentAt path := by
  have consulted := consults.only x inside
  obtain ⟨question, reply⟩ := x
  cases question with
  | openSession | requestCompletion | complete => exact ⟨rfl, nofun⟩
  | _ => cases consulted

theorem Sent.of_question (sent : Sent t method content heard written) {x : Exchange} (inside : x ∈ heard) :
    x.question.isPrompt = false ∧ x.description? = none ∧ ∀ path, x.question ≠ .contentAt path := by
  cases sent with
  | undrawn =>
    cases List.mem_singleton.mp inside
    exact ⟨rfl, rfl, nofun⟩
  | sent =>
    rcases List.mem_cons.mp inside with rfl | inside
    · exact ⟨rfl, rfl, nofun⟩
    · cases List.mem_singleton.mp inside
      exact ⟨rfl, rfl, nofun⟩

section Whole

variable {reading consulting sending : List Exchange}

/-- Whether the code can be read is known once it was looked for. -/
theorem PendingMethod.legible_whole (consults : Consulting consulting) (sent : Sent t method content sending written) :
    method.Legible e (reading ++ (consulting ++ sending)) ↔ method.Legible e reading := by
  refine or_congr_right (exists₂_congr fun path found => and_congr_right fun _ => and_congr_right fun _ => ?_)
  rw [List.mem_append, or_iff_left]
  intro later
  rcases List.mem_append.mp later with inside | inside
  · exact (consults.of_question inside).2 _ rfl
  · exact (sent.of_question inside).2.2 _ rfl

/-- Only the language model gives descriptions. -/
theorem gained_whole (read : FileReads reading) (sent : Sent t method content sending written) :
    gained (reading ++ (consulting ++ sending)) = gained consulting := by
  have first : reading.findSome? Exchange.description? = none :=
    List.findSome?_eq_none_iff.mpr fun _ inside => (read.of_question inside).2.2
  have last : sending.findSome? Exchange.description? = none :=
    List.findSome?_eq_none_iff.mpr fun _ inside => (sent.of_question inside).2.1
  rw [gained, List.findSome?_append, first, Option.none_or, List.findSome?_append, last, Option.or_none]
  rfl

theorem prompts_whole (read : FileReads reading) (consults : Consulting consulting) (sent : Sent t method content sending written) :
    (reading ++ (consulting ++ sending)).countP (·.question.isPrompt) ≤ 1 := by
  have first : reading.countP (·.question.isPrompt) = 0 :=
    List.countP_eq_zero.mpr fun _ inside => Bool.eq_false_iff.mp (read.of_question inside).1
  have last : sending.countP (·.question.isPrompt) = 0 :=
    List.countP_eq_zero.mpr fun _ inside => Bool.eq_false_iff.mp (sent.of_question inside).1
  rw [List.countP_append, first, Nat.zero_add, List.countP_append, last]
  exact consults.once

/-- A description is sent at the end alone. -/
theorem creates_whole (read : FileReads reading) (consults : Consulting consulting) :
    (reading ++ (consulting ++ sending)).filter Exchange.creates = sending.filter Exchange.creates := by
  have first : reading.filter Exchange.creates = [] :=
    List.filter_eq_nil_iff.mpr fun _ inside => Bool.eq_false_iff.mp (read.of_question inside).2.1
  have second : consulting.filter Exchange.creates = [] :=
    List.filter_eq_nil_iff.mpr fun _ inside => Bool.eq_false_iff.mp (consults.of_question inside).1
  rw [List.filter_append, first, List.nil_append, List.filter_append, second, List.nil_append]

end Whole

/-- What is sent with a description, and what is answered. -/
def PendingMethod.creation (method : PendingMethod) (drawn : Nat) (content : String) (reply : Except Fault Table) : Exchange :=
  ⟨.query .createDescription (method.parameters drawn content), reply⟩

/-- Whether a description was created, by what was answered when it was sent. -/
def Created (reply : Except Fault Table) : Prop := ∃ table, reply = .ok table ∧ table.creates = true

/-- What becomes of a method by all that was heard while it was described. Nothing is sent for one whose code cannot be
read. Otherwise the description that the language model gave is sent, or the placeholder. -/
inductive MethodFate (e : Enricher) (method : PendingMethod) (heard : List Exchange) : Outcome → Prop
  | illegible : ¬method.Legible e heard → (∀ x ∈ heard, x.question.isPrompt = false ∧ x.creates = false) →
      MethodFate e method heard .failed
  | refused {drawn reply} : method.Legible e heard → heard.countP (·.question.isPrompt) ≤ 1 →
      heard.filter Exchange.creates = [method.creation drawn ((gained heard).getD method.placeholder) reply] → ¬Created reply →
      MethodFate e method heard .failed
  | written {drawn reply} : method.Legible e heard → heard.countP (·.question.isPrompt) ≤ 1 →
      heard.filter Exchange.creates = [method.creation drawn ((gained heard).getD method.placeholder) reply] → Created reply →
      MethodFate e method heard (if (gained heard).isSome then .enriched else .placeholder)

/-- Numbers can always be drawn, so that what is to be written is sent. -/
theorem Sent.creation (sent : Sent t method content heard written) (draws : ∀ fault, ¬t.answers .drawId (.error fault)) :
    ∃ drawn reply, heard.filter Exchange.creates = [method.creation drawn content reply] ∧ (written = true ↔ Created reply) := by
  cases sent with
  | undrawn failed => exact absurd failed (draws _)
  | sent same => exact ⟨_, _, rfl, same⟩

theorem Described.fate (described : Described t e method heard outcome) (draws : ∀ fault, ¬t.answers .drawId (.error fault)) :
    MethodFate e method heard outcome := by
  cases described with
  | illegible read illegible => exact .illegible illegible fun _ inside => ⟨(read.of_question inside).1, (read.of_question inside).2.1⟩
  | failed read legible consults sent =>
    obtain ⟨drawn, reply, creates, same⟩ := sent.creation draws
    rw [← creates_whole read consults, ← gained_whole read sent] at creates
    exact .refused ((PendingMethod.legible_whole consults sent).mpr legible) (prompts_whole read consults sent) creates
      fun created => Bool.false_ne_true (same.mpr created)
  | written read legible consults sent =>
    obtain ⟨drawn, reply, creates, same⟩ := sent.creation draws
    rw [← creates_whole read consults, ← gained_whole read sent] at creates
    rw [← gained_whole read sent]
    exact .written ((PendingMethod.legible_whole consults sent).mpr legible) (prompts_whole read consults sent) creates (same.mp rfl)

/-- Where nothing is sent, no description is. -/
theorem nothing_created (silent : ∀ x ∈ heard, x.question.isPrompt = false ∧ x.creates = false) : heard.filter Exchange.creates = [] :=
  List.filter_eq_nil_iff.mpr fun x inside => Bool.eq_false_iff.mp (silent x inside).2

namespace MethodFate

theorem prompts_le (fate : MethodFate e method heard outcome) : heard.countP (·.question.isPrompt) ≤ 1 := by
  cases fate with
  | illegible _ silent =>
    have nothing : heard.countP (·.question.isPrompt) = 0 :=
      List.countP_eq_zero.mpr fun x inside => Bool.eq_false_iff.mp (silent x inside).1
    exact nothing ▸ Nat.zero_le 1
  | refused _ once => exact once
  | written _ once => exact once

theorem creates_le (fate : MethodFate e method heard outcome) : heard.countP Exchange.creates ≤ 1 := by
  rw [List.countP_eq_length_filter]
  cases fate with
  | illegible _ silent =>
    rw [nothing_created silent]
    exact Nat.zero_le 1
  | refused _ _ creates => exact creates ▸ Nat.le_refl 1
  | written _ _ creates => exact creates ▸ Nat.le_refl 1

end MethodFate

/-- Only what sends descriptions writes them. -/
theorem entries_of_creates (heard : List Exchange) :
    heard.flatMap Exchange.entries = (heard.filter Exchange.creates).flatMap Exchange.entries := by
  induction heard with
  | nil => rfl
  | cons x rest ih =>
    cases creates : x.creates with
    | true => rw [List.filter_cons_of_pos creates, List.flatMap_cons, List.flatMap_cons, ih]
    | false =>
      have other : ¬x.creates = true := Bool.eq_false_iff.mp creates
      rw [List.filter_cons_of_neg other, List.flatMap_cons, Exchange.entries_of_not_creates creates, List.nil_append, ih]

theorem PendingMethod.entries_creation {drawn : Nat} {reply : Except Fault Table} :
    (method.creation drawn content reply).entries = [⟨method.id, .str content, method.filePath⟩] ∧ Created reply ∨
      (method.creation drawn content reply).entries = [] ∧ ¬Created reply := by
  cases reply with
  | error => exact .inr ⟨rfl, nofun⟩
  | ok table =>
    cases created : table.creates with
    | true => exact .inl ⟨if_pos created, table, rfl, created⟩
    | false =>
      refine .inr ⟨if_neg (Bool.eq_false_iff.mp created), ?_⟩
      rintro ⟨_, ⟨⟩, created'⟩
      cases created.symm.trans created'

/-- What has been written is the description of a method that did not fail. -/
theorem MethodFate.entries (fate : MethodFate e method heard outcome) : heard.flatMap Exchange.entries =
    if outcome = .failed then [] else [⟨method.id, .str ((gained heard).getD method.placeholder), method.filePath⟩] := by
  rw [entries_of_creates]
  cases fate with
  | illegible _ silent =>
    rw [nothing_created silent]
    rfl
  | refused _ _ creates refused =>
    rw [creates, List.flatMap_singleton, if_pos rfl]
    exact (PendingMethod.entries_creation.resolve_left fun written => refused written.2).1
  | written _ _ creates created =>
    rw [creates, List.flatMap_singleton, if_neg (by split <;> nofun)]
    exact (PendingMethod.entries_creation.resolve_right fun refused => refused.2 created).1

/-- A method counts as one with a placeholder when a description was written for it that the language model did not give. -/
theorem MethodFate.placeholder_iff (fate : MethodFate e method heard outcome) :
    outcome = .placeholder ↔ outcome ≠ .failed ∧ gained heard = none := by
  cases fate with
  | illegible => exact ⟨nofun, fun ⟨other, _⟩ => absurd rfl other⟩
  | refused => exact ⟨nofun, fun ⟨other, _⟩ => absurd rfl other⟩
  | written =>
    cases gained heard with
    | none => exact ⟨fun _ => ⟨nofun, rfl⟩, fun _ => rfl⟩
    | some => exact ⟨nofun, nofun⟩

end Method

section Counting

variable {α β : Type} {p : α → Bool} {l : List α}

/-- When each of several gives one where something holds and nothing elsewhere, they give as many as there are where it holds. -/
theorem length_flatMap_range {f : Nat → List β} (each : ∀ j a, l[j]? = some a → (f j).length = if p a then 1 else 0) :
    ((List.range l.length).flatMap f).length = l.countP p := by
  induction l using List.reverseRecOn with
  | nil => rfl
  | append_singleton l a ih =>
    have earlier := ih fun j b at_j => each j b (List.getElem?_append_left (List.getElem?_eq_some_iff.mp at_j).1 ▸ at_j)
    have last := each l.length a (by simp)
    rw [List.length_append, List.length_singleton, List.range_succ, List.flatMap_append, List.length_append, earlier,
      List.flatMap_singleton, last, List.countP_append, List.countP_singleton]

theorem countP_range {g : Nat → Bool} (each : ∀ j a, l[j]? = some a → g j = p a) : (List.range l.length).countP g = l.countP p := by
  have same : (List.range l.length).map g = l.map p :=
    List.ext_getElem (by simp) fun j inside _ => by
      have bound : j < l.length := by simpa using inside
      simpa using each j l[j] (List.getElem?_eq_getElem bound)
  calc (List.range l.length).countP g
    _ = ((List.range l.length).map g).countP id := by rw [List.countP_map]; rfl
    _ = (l.map p).countP id := by rw [same]
    _ = l.countP p := List.countP_map

end Counting

namespace Enricher

/-- What a run reports in the end: the fault that the listing came to, or counts that suit the records that were listed. -/
inductive Reported (e : Enricher) (m : Memory) (c : Crew ω) (suits : List Value → EnrichmentCounts → Prop) :
    Except Fault EnrichmentCounts → Prop
  | unlisted {fault} : e.Listed m (c.diary (.caller 0)).heard (.error fault) → c.jobs = [] → Reported e m c suits (.error fault)
  | listed {records counts} : e.Listed m (c.diary (.caller 0)).heard (.ok records) → suits records counts →
      Reported e m c suits (.ok counts)

theorem Reported.imp {c : Crew ω} {suits weaker : List Value → EnrichmentCounts → Prop} {r : Except Fault EnrichmentCounts}
    (reported : e.Reported m c suits r)
    (implies : ∀ records counts, e.Listed m (c.diary (.caller 0)).heard (.ok records) → suits records counts → weaker records counts) :
    e.Reported m c weaker r := by
  cases reported with
  | unlisted listed nobody => exact .unlisted listed nobody
  | listed listed suits => exact .listed listed (implies _ _ listed suits)

/-- For each method there is a job that describes it, and each job has come to an outcome. -/
structure Ledger (e : Enricher) (c : Crew ω) (methods : List PendingMethod) (outcomes : List Outcome) : Prop where
  origins : c.jobs.map Hand.origin = methods.map fun method => .job (.describe e method)
  whole : outcomes.length = methods.length
  fates : ∀ j method outcome, methods[j]? = some method → outcomes[j]? = some outcome →
    (c.diary (.job j)).Answered ∧ MethodFate e method (c.diary (.job j)).heard outcome

variable {report : Except Fault EnrichmentCounts → Except Fault Yield} {world : ω} {hasLoop : Bool} {a : Shift ω}

/-- A job that is over has come to an outcome for its method, which suits what it heard. -/
theorem job_tallied (lists : w.Lists) (leads : Shift.Leads w (e.describing report m world hasLoop) a) {j : Nat} {method : PendingMethod}
    {result : Except Fault Yield} (origin : (a.crew.jobs.map Hand.origin)[j]? = some (.job (.describe e method)))
    (ended : a.crew.result? j = some result) : ∃ outcome, result = .ok (.outcome outcome) ∧ (a.crew.diary (.job j)).Answered ∧
      MethodFate e method (a.crew.diary (.job j)).heard outcome := by
  obtain ⟨held, holding⟩ := leads.holding
  have goes := (underway lists e m report world hasLoop).goes holding
  obtain ⟨h, job, found, own, isOver, came⟩ := goes.job_over ended
  rw [List.getElem?_map, show a.crew.jobs[j]? = some h from found, Option.map_some, own] at origin
  cases origin
  obtain ⟨outcome, rfl, described⟩ := came
  refine ⟨outcome, rfl, leads.reach.answered found isOver, described.fate ?_⟩
  rintro fault ⟨clock, world', answered⟩
  obtain ⟨drawn, draws⟩ := lists.draws clock world'
  cases answered.trans draws

/-- When the caller is done, the report counts what the ledger says. -/
theorem tallied (lists : w.Lists) (leads : Shift.Leads w (e.describing report m world hasLoop) a) {h : Hand} {result : Except Fault Yield}
    (found : a.crew.hand? (.caller 0) = some h) (isOver : h.station = .over result) : ∃ r, result = report r ∧
      e.Reported m a.crew (fun records counts => ∃ methods outcomes duration, records.mapM PendingMethod.ofRecord = .ok methods ∧
        e.Ledger a.crew methods outcomes ∧ counts = .ofOutcomes methods.length outcomes duration) r := by
  obtain ⟨held, holding⟩ := leads.holding
  have goes := (underway lists e m report world hasLoop).goes holding
  rcases goes.caller_over found isOver with ⟨nobody, ⟨fault, listed, rfl⟩ | ⟨listed, rfl⟩⟩ | ⟨jobs, waited, opened, left, duration, rfl⟩
  · exact ⟨_, rfl, .unlisted listed nobody⟩
  · exact ⟨_, rfl, .listed listed ⟨[], [], 0.0, rfl, ⟨by rw [nobody]; rfl, rfl, nofun⟩, rfl⟩⟩
  · obtain ⟨records, methods, listed, made, rfl⟩ := opened.opens
    rw [List.length_map] at left
    have origins : a.crew.jobs.map Hand.origin = methods.map fun method => .job (.describe e method) := by
      rw [opened.origins, List.map_map]
      rfl
    have each : ∀ j method result, methods[j]? = some method → a.crew.result? j = some result → ∃ outcome,
        result = .ok (.outcome outcome) ∧ (a.crew.diary (.job j)).Answered ∧ MethodFate e method (a.crew.diary (.job j)).heard outcome :=
      fun j method result at_j => job_tallied lists leads (by rw [origins, List.getElem?_map, at_j]; rfl)
    rcases left with ⟨yields, ended, rfl⟩ | ⟨j, inside, fault, failed, rfl⟩
    · have whole : yields.length = methods.length := by simpa using (congrArg List.length ended).symm
      have own : ∀ j y, yields[j]? = some y → a.crew.result? j = some (.ok y) := by
        intro j y yielded
        have bound : j < methods.length := whole ▸ (List.getElem?_eq_some_iff.mp yielded).1
        simpa [yielded, bound] using congrArg (·[j]?) ended
      -- Each job has yielded an outcome, so that what they yielded is a list of outcomes.
      obtain ⟨outcomes, rfl⟩ : ∃ outcomes : List Outcome, outcomes.map Yield.outcome = yields := by
        change yields ∈ Set.range (List.map Yield.outcome)
        rw [Set.range_list_map]
        intro y inside
        obtain ⟨j, yielded⟩ := List.mem_iff_getElem?.mp inside
        have bound : j < methods.length := whole ▸ (List.getElem?_eq_some_iff.mp yielded).1
        obtain ⟨outcome, same, _⟩ := each j _ _ (List.getElem?_eq_getElem bound) (own j y yielded)
        exact ⟨outcome, (Except.ok.inj same).symm⟩
      refine ⟨_, rfl, .listed listed ⟨methods, outcomes, duration, made, ⟨origins, ?_, fun j method outcome at_j came => ?_⟩, ?_⟩⟩
      · rwa [List.length_map] at whole
      · have yielded : (outcomes.map Yield.outcome)[j]? = some (.outcome outcome) := by rw [List.getElem?_map, came]; rfl
        obtain ⟨_, ⟨⟩, answered, fate⟩ := each j method _ at_j (own j _ yielded)
        exact ⟨answered, fate⟩
      · have counted : (outcomes.map Yield.outcome).filterMap Yield.outcome? = outcomes := by
          rw [List.filterMap_map]
          exact List.filterMap_some
        dsimp only
        rw [counted, List.length_map]
    · obtain ⟨_, ⟨⟩, _⟩ := each j _ _ (List.getElem?_eq_getElem (List.mem_range.mp inside)) failed

/-- Nothing is written while the methods are listed. -/
theorem Listed.silent {heard : List Exchange} {listing : Except Fault (List Value)} (listed : e.Listed m heard listing) :
    heard.flatMap Exchange.entries = [] := by
  cases listed <;> rfl

namespace Ledger

variable {c : Crew ω} {methods : List PendingMethod} {outcomes : List Outcome}

theorem entriesBy (ledger : e.Ledger c methods outcomes) {j : Nat} {method : PendingMethod} {outcome : Outcome}
    (at_j : methods[j]? = some method) (came : outcomes[j]? = some outcome) : c.entriesBy (.job j) = if outcome = .failed then [] else
      [⟨method.id, .str ((gained (c.diary (.job j)).heard).getD method.placeholder), method.filePath⟩] := by
  rw [Crew.entriesBy_eq]
  exact (ledger.fates j method outcome at_j came).2.entries

theorem method (ledger : e.Ledger c methods outcomes) {j : Nat} {outcome : Outcome} (came : outcomes[j]? = some outcome) :
    ∃ method, methods[j]? = some method := by
  have inside := (List.getElem?_eq_some_iff.mp came).1
  exact ⟨_, List.getElem?_eq_getElem (ledger.whole ▸ inside)⟩

theorem jobs (ledger : e.Ledger c methods outcomes) : c.jobs.length = methods.length := by
  have same := congrArg List.length ledger.origins
  rwa [List.length_map, List.length_map] at same

/-- As many descriptions were written as methods did not fail. -/
theorem entries_length (ledger : e.Ledger c methods outcomes)
    (authors : ∀ noted ∈ c.log, noted.2.2.entries ≠ [] → ∃ j, j < c.jobs.length ∧ noted.2.1 = .job j) :
    c.entries.length = outcomes.countP fun outcome => outcome != .failed := by
  rw [(Crew.entries_perm authors).length_eq, ledger.jobs, ← ledger.whole]
  refine length_flatMap_range fun j outcome came => ?_
  obtain ⟨method, at_j⟩ := ledger.method came
  rw [ledger.entriesBy at_j came]
  cases outcome <;> rfl

/-- The methods with a placeholder are those for which a description was written though the language model gave none. -/
theorem placeholders (ledger : e.Ledger c methods outcomes) : outcomes.count .placeholder =
    (List.range methods.length).countP fun j => (gained (c.diary (.job j)).heard).isNone && !(c.entriesBy (.job j)).isEmpty := by
  rw [← ledger.whole]
  refine (countP_range fun j outcome came => ?_).symm
  obtain ⟨method, at_j⟩ := ledger.method came
  have fate := (ledger.fates j method outcome at_j came).2
  rw [ledger.entriesBy at_j came, Bool.eq_iff_iff, beq_iff_eq, fate.placeholder_iff]
  by_cases failed : outcome = .failed
  · simp [failed]
  · simp [failed]

end Ledger

end Enricher

/-- The counts add up, and say what was written. -/
structure EnrichmentCounts.AddUp (counts : EnrichmentCounts) (c : Crew ω) (records : List Value) : Prop where
  found : counts.found = records.length
  conserved : counts.enriched + counts.failed = counts.found
  placeholders_le : counts.placeholders ≤ counts.enriched
  enriched : counts.enriched = c.entries.length
  placeholders : counts.placeholders = (List.range records.length).countP fun j =>
    (gained (c.diary (.job j)).heard).isNone && !(c.entriesBy (.job j)).isEmpty

/-- A job describes the method of a record. It asks the language model once at most and sends one description at most, and
what it writes is what the language model gave, or the placeholder. -/
def Enricher.Attends (e : Enricher) (c : Crew ω) (j : Nat) (record : Value) : Prop :=
  ∃ method, PendingMethod.ofRecord record = .ok method ∧ (c.jobs[j]?).map Hand.origin = some (.job (.describe e method)) ∧
    (c.diary (.job j)).asked.countP Ask.isPrompt ≤ 1 ∧ (c.diary (.job j)).asked.countP Ask.creates ≤ 1 ∧
    ∀ entry ∈ c.entriesBy (.job j),
      entry = ⟨method.id, .str ((gained (c.diary (.job j)).heard).getD method.placeholder), method.filePath⟩

namespace Enricher

theorem Ledger.addUp {c : Crew ω} {records : List Value} {methods : List PendingMethod} {outcomes : List Outcome}
    (ledger : e.Ledger c methods outcomes) (made : records.mapM PendingMethod.ofRecord = .ok methods)
    (authors : ∀ noted ∈ c.log, noted.2.2.entries ≠ [] → ∃ j, j < c.jobs.length ∧ noted.2.1 = .job j) (duration : Float) :
    (EnrichmentCounts.ofOutcomes methods.length outcomes duration).AddUp c records where
  found := (getElem?_of_mapM made).1
  conserved := by
    have others : ∀ outcome ∈ outcomes, ¬(outcome != .failed) = true ↔ (outcome == .failed) = true := fun outcome _ => by simp
    have split := outcomes.length_eq_countP_add_countP fun outcome => outcome != .failed
    rw [List.countP_congr fun outcome inside => (decide_eq_true_iff.trans (others outcome inside)), ledger.whole] at split
    exact split.symm
  placeholders_le := List.countP_mono_left fun outcome _ same => by
    cases beq_iff_eq.mp same
    rfl
  enriched := (ledger.entries_length authors).symm
  placeholders := ledger.placeholders.trans (by rw [(getElem?_of_mapM made).1])

theorem Ledger.attends {c : Crew ω} {records : List Value} {methods : List PendingMethod} {outcomes : List Outcome}
    (ledger : e.Ledger c methods outcomes) (made : records.mapM PendingMethod.ofRecord = .ok methods) {j : Nat} {record : Value}
    (at_j : records[j]? = some record) : e.Attends c j record := by
  obtain ⟨method, at_j', own⟩ := (getElem?_of_mapM made).2 at_j
  have inside : j < outcomes.length := ledger.whole ▸ (List.getElem?_eq_some_iff.mp at_j').1
  have came : outcomes[j]? = some outcomes[j] := List.getElem?_eq_getElem inside
  obtain ⟨answered, fate⟩ := ledger.fates j method _ at_j' came
  refine ⟨method, own, ?_, ?_, ?_, fun entry wrote => ?_⟩
  · rw [← List.getElem?_map, ledger.origins, List.getElem?_map, at_j']
    rfl
  · rw [answered, List.countP_map]
    exact fate.prompts_le
  · rw [answered, List.countP_map]
    exact fate.creates_le
  · rw [ledger.entriesBy at_j' came] at wrote
    split at wrote
    · cases wrote
    · exact List.mem_singleton.mp wrote

end Enricher

/-- How a method ends. When its code can be read one description is sent for it, with what the language model gave or the
placeholder, and the method fails only where that does not create one. When its code cannot be read it fails, and nothing is
asked of the language model or sent for it. -/
structure PendingMethod.Ends (e : Enricher) (method : PendingMethod) (d : Diary) (outcome : Outcome) : Prop where
  answered : d.Answered
  legible : method.Legible e d.heard → ∃ drawn reply,
    d.heard.filter Exchange.creates = [method.creation drawn ((gained d.heard).getD method.placeholder) reply] ∧
      (outcome = .failed ↔ ¬Created reply)
  illegible : ¬method.Legible e d.heard → outcome = .failed ∧ ∀ question ∈ d.asked, question.isPrompt = false ∧ question.creates = false

/-- For each method there is a job that describes it, each has ended with an outcome, and the counts are those of the outcomes. -/
structure EnrichmentCounts.Conclude (counts : EnrichmentCounts) (e : Enricher) (c : Crew ω) (methods : List PendingMethod)
    (outcomes : List Outcome) : Prop where
  origins : c.jobs.map Hand.origin = methods.map fun method => .job (.describe e method)
  whole : outcomes.length = methods.length
  enriched : counts.enriched = outcomes.countP fun outcome => outcome != .failed
  failed : counts.failed = outcomes.count .failed
  ends : ∀ (j : Nat) (method : PendingMethod) (outcome : Outcome), methods[j]? = some method → outcomes[j]? = some outcome →
    method.Ends e (c.diary (.job j)) outcome

theorem MethodFate.ends {method : PendingMethod} {d : Diary} {outcome : Outcome} (fate : MethodFate e method d.heard outcome)
    (answered : d.Answered) : method.Ends e d outcome := by
  refine ⟨answered, fun legible => ?_, fun illegible => ?_⟩
  · cases fate with
    | illegible illegible => exact absurd legible illegible
    | refused _ _ creates refused => exact ⟨_, _, creates, iff_of_true rfl refused⟩
    | written _ _ creates created => exact ⟨_, _, creates, iff_of_false (by split <;> nofun) (not_not_intro created)⟩
  · cases fate with
    | illegible _ silent =>
      refine ⟨rfl, fun question asked => ?_⟩
      rw [answered] at asked
      obtain ⟨x, inside, rfl⟩ := List.mem_map.mp asked
      exact silent x inside
    | refused legible => exact absurd legible illegible
    | written legible => exact absurd legible illegible

namespace Enricher

variable {report : Except Fault EnrichmentCounts → Except Fault Yield} {world : ω} {hasLoop : Bool} {a : Shift ω} {v : Value}

/-- Whatever the language model, the graph and the files have to say and in whatever order, a run can come to the end. Its report
is the fault that the listing came to, or counts that add up; for each record the language model is asked once at most and
one description is sent at most. -/
theorem describing_adds_up (lists : w.Lists) (accepted : Permits.ofValue v = .ok e.permits)
    (leads : Shift.Leads w (e.describing report m world hasLoop) a) :
    (∃ b h result, Shift.Leads w a b ∧ b.crew.hand? (.caller 0) = some h ∧ h.station = .over result) ∧
      ∀ h result, a.crew.hand? (.caller 0) = some h → h.station = .over result → ∃ r, result = report r ∧
        e.Reported m a.crew (fun records counts => counts.AddUp a.crew records ∧ a.crew.jobs.length = records.length ∧
          ∀ j record, records[j]? = some record → e.Attends a.crew j record) r := by
  refine ⟨finishes lists accepted leads, fun h result found isOver => ?_⟩
  obtain ⟨r, reported, counted⟩ := tallied lists leads found isOver
  refine ⟨r, reported, counted.imp ?_⟩
  rintro records _ listed ⟨methods, outcomes, duration, made, ledger, rfl⟩
  exact ⟨ledger.addUp made (leads.authors listed.silent) duration, ledger.jobs.trans (getElem?_of_mapM made).1,
    fun j record => ledger.attends made⟩

/-- Whatever the language model, the graph and the files have to say and in whatever order, a run can come to the end, and by
then each method that was listed has ended as methods do, and was counted for that. -/
theorem describing_ends (lists : w.Lists) (accepted : Permits.ofValue v = .ok e.permits)
    (leads : Shift.Leads w (e.describing report m world hasLoop) a) :
    (∃ b h result, Shift.Leads w a b ∧ b.crew.hand? (.caller 0) = some h ∧ h.station = .over result) ∧
      ∀ h result, a.crew.hand? (.caller 0) = some h → h.station = .over result → ∃ r, result = report r ∧
        e.Reported m a.crew (fun records counts => ∃ methods outcomes,
          records.mapM PendingMethod.ofRecord = .ok methods ∧ counts.Conclude e a.crew methods outcomes) r := by
  refine ⟨finishes lists accepted leads, fun h result found isOver => ?_⟩
  obtain ⟨r, reported, counted⟩ := tallied lists leads found isOver
  refine ⟨r, reported, counted.imp ?_⟩
  rintro records _ _ ⟨methods, outcomes, duration, made, ledger, rfl⟩
  refine ⟨methods, outcomes, made, ledger.origins, ledger.whole, rfl, rfl, fun j method outcome at_j came => ?_⟩
  obtain ⟨answered, fate⟩ := ledger.fates j method outcome at_j came
  exact fate.ends answered

end Enricher

section Example

/-- Two methods are listed. The file of one is gone, that of the other is a directory, and the language model has nothing to say. -/
def Oracle.scattered : Oracle where
  listing := .ok ⟨.list [.list [.int 1, .str "id"], .list [.int 1, .str "file_path"]],
    [.cells [.plain (.str "a"), .plain (.str "gone")], .cells [.plain (.str "b"), .plain (.str "folder")]]⟩
  file path := .ok (if path = "folder" then .directory else .missing)
  session _ := .ok ()
  model _ _ _ := .error (.foreign .connection none)
  helper _ _ := .ok (.str "")
  created _ := .ok ⟨.list [.list [.int 1, .str "created"]], [.cells [.plain (.int 1)]]⟩

theorem Oracle.scattered_lists : scattered.world.Lists where
  civil question clock world describes := by
    cases question with
    | query statement =>
      cases statement with
      | createDescription => exact .ok _
      | _ => exact describes.elim
    | requestCompletion => exact .error rfl
    | contentAt | openSession | complete | drawId => exact .ok _
    | _ => exact describes.elim
  draws _ _ := ⟨Nat.zero, rfl⟩
  lined _ _ table records answered read := by
    cases answered
    have listed : records = [.record [("id", .str "a"), ("file_path", .str "gone")],
        .record [("id", .str "b"), ("file_path", .str "folder")]] := Except.ok.inj (read.symm.trans rfl)
    subst listed
    intro record inside key named
    simp only [List.mem_cons, List.not_mem_nil, or_false] at inside named
    rcases inside with rfl | rfl <;> rcases named with rfl | rfl <;> exact .inl rfl

/-- A caller has them described, two at a time, until all is done. -/
def Enricher.scattered : Shift Unit :=
  ((helped.within 2).describing (Except.map fun _ => .nothing) .linked () true).rota Oracle.scattered.world
    [(.caller 0, 100), (.job 0, 100), (.job 1, 100), (.job 0, 100), (.caller 0, 100)]

theorem Enricher.scattered_leads : Shift.Leads Oracle.scattered.world
    ((helped.within 2).describing (Except.map fun _ => .nothing) .linked () true) scattered := Shift.rota_leads _ _

theorem Enricher.scattered_over : ∃ h last, scattered.crew.hand? (.caller 0) = some h ∧ h.station = .over (.ok last) :=
  Crew.over_of_finished (by decide +kernel)

/-- The counts add up when one method gets a placeholder and the other one fails. -/
theorem Enricher.describing_adds_up_scattered : ∃ h last, scattered.crew.hand? (.caller 0) = some h ∧ h.station = .over (.ok last) ∧
    ∃ r, .ok last = r.map (fun _ => Yield.nothing) ∧ (helped.within 2).Reported .linked scattered.crew (fun records counts =>
      counts.AddUp scattered.crew records ∧ scattered.crew.jobs.length = records.length ∧
        ∀ j record, records[j]? = some record → (helped.within 2).Attends scattered.crew j record) r := by
  obtain ⟨h, last, found, isOver⟩ := scattered_over
  have accepted : Permits.ofValue (.int 2) = .ok (helped.within 2).permits := rfl
  have adds := describing_adds_up Oracle.scattered_lists accepted scattered_leads
  exact ⟨h, last, found, isOver, adds.2 h _ found isOver⟩

/-- Both methods have ended when the caller is done, whether their code could be read or not. -/
theorem Enricher.describing_ends_scattered : ∃ h last, scattered.crew.hand? (.caller 0) = some h ∧ h.station = .over (.ok last) ∧
    ∃ r, .ok last = r.map (fun _ => Yield.nothing) ∧ (helped.within 2).Reported .linked scattered.crew (fun records counts =>
      ∃ methods outcomes, records.mapM PendingMethod.ofRecord = .ok methods ∧
        counts.Conclude (helped.within 2) scattered.crew methods outcomes) r := by
  obtain ⟨h, last, found, isOver⟩ := scattered_over
  have accepted : Permits.ofValue (.int 2) = .ok (helped.within 2).permits := rfl
  have ends := describing_ends Oracle.scattered_lists accepted scattered_leads
  exact ⟨h, last, found, isOver, ends.2 h _ found isOver⟩

end Example

end CodeAtlas
