import Mathlib.Data.List.Nodup
import Mathlib.Data.List.Perm.Subperm
import CodeAtlas.Proofs.Crew.Rota
import CodeAtlas.Proofs.Enrichment.Plan

namespace CodeAtlas

variable {ω ω' : Type}

/-- Whether the language model is at work on an answer. -/
def Hand.prompts (h : Hand) : Bool :=
  match h.station with
  | .asking (.requestCompletion ..) _ _ _ => true
  | .asking (.complete ..) _ _ _ => true
  | _ => false

namespace Crew

variable {c : Crew ω}

/-- The jobs that wait for the language model. -/
def prompting (c : Crew ω) : List Who :=
  ((List.range c.jobs.length).filter fun j => (c.jobs[j]?).any Hand.prompts).map Who.job

theorem nodup_prompting (c : Crew ω) : c.prompting.Nodup :=
  List.Nodup.map (fun _ _ same => Who.job.inj same) (List.Nodup.filter _ List.nodup_range)

theorem mem_prompting {k : Who} (prompting : k ∈ c.prompting) :
    ∃ j h, k = .job j ∧ c.hand? (.job j) = some h ∧ h.prompts = true := by
  obtain ⟨j, inside, rfl⟩ := List.mem_map.mp prompting
  obtain ⟨h, found, prompts⟩ := (Option.any_eq_true _ _).mp (List.mem_filter.mp inside).2
  exact ⟨j, h, rfl, found, prompts⟩

end Crew

/-- Two reports fail both, or count the same. -/
def Alike : Except Fault EnrichmentCounts → Except Fault EnrichmentCounts → Prop
  | .ok counts, .ok counts' => counts.found = counts'.found ∧ counts.enriched = counts'.enriched ∧
      counts.placeholders = counts'.placeholders ∧ counts.failed = counts'.failed
  | .error _, .error _ => True
  | _, _ => False

namespace Plan

variable {o : Oracle} {m : Memory} {e : Enricher} {plan : Plan o m e} {limit : Nat}
  {report : Except Fault EnrichmentCounts → Except Fault Yield} {held : List Who} {a : Shift ω}

/-- The methods cannot be listed, or one of them makes the whole fail. -/
def Fails (plan : Plan o m e) : Prop :=
  (∃ fault, plan.found = .error fault) ∨ ∃ method ∈ plan.methods, ∃ fault, plan.outcome method = .error fault

def counts (plan : Plan o m e) (duration : Float) : EnrichmentCounts :=
  .ofOutcomes plan.methods.length (plan.methods.filterMap fun method => (plan.outcome method).toOption) duration

/-- What is to come of a description of methods has come of it: a report, and what was written. -/
def Comes (plan : Plan o m e) (c : Crew ω) (r : Except Fault EnrichmentCounts) : Prop :=
  (∃ fault, r = .error fault) ∧ plan.Fails ∨
    ¬plan.Fails ∧ (∃ duration, r = .ok (plan.counts duration)) ∧ c.entries.Perm (plan.methods.flatMap plan.entries)

section Goes

variable {w : World ω} {world : ω} {hasLoop : Bool} {jobs : List Job} {waited : Waited}

/-- The jobs are those that describe the methods, one after the other, and only they have written something. -/
structure Opened (plan : Plan o m e) (limit : Nat) (c : Crew ω) : Prop where
  pending : plan.methods ≠ []
  origins : c.jobs.map Hand.origin = plan.methods.map fun method => .job (.describe (e.within limit) method)
  authors : c.entries.Perm ((List.range plan.methods.length).flatMap fun j => c.entriesBy (.job j))

/-- What a job that is over has come to, and what it has written, is what was planned for its method. -/
theorem Opened.result (opened : plan.Opened limit a.crew) (goes : (plan.errand limit report).Goes held a) {j : Nat}
    {result : Except Fault Yield} (ended : a.crew.result? j = some result) : ∃ method, plan.methods[j]? = some method ∧
      result = (plan.outcome method).map .outcome ∧ a.crew.entriesBy (.job j) = plan.entries method := by
  obtain ⟨h, job, found, origin, _, method, rfl, came, written⟩ := goes.job_over ended
  have own : (plan.methods.map fun method => Origin.job (.describe (e.within limit) method))[j]? =
      some (.job (.describe (e.within limit) method)) := by
    rw [← opened.origins, List.getElem?_map, show a.crew.jobs[j]? = some h from found, Option.map_some, origin]
  rw [List.getElem?_map] at own
  obtain ⟨method', at_j, same⟩ := Option.map_eq_some_iff.mp own
  cases same
  exact ⟨method, at_j, came, (a.crew.entriesBy_eq _).trans written⟩

/-- Once all jobs are over, what they leave behind and what they wrote is what was planned. -/
theorem Opened.all (opened : plan.Opened limit a.crew) (goes : (plan.errand limit report).Goes held a) {yields : List Yield}
    (ended : (List.range plan.methods.length).map a.crew.result? = yields.map fun y => some (.ok y)) :
    (yields.map fun y => some (.ok y : Except Fault Yield)) =
        plan.methods.map (fun method => some ((plan.outcome method).map .outcome)) ∧
      a.crew.entries.Perm (plan.methods.flatMap plan.entries) := by
  have each : ∀ j (inside : j < plan.methods.length),
      a.crew.result? j = some ((plan.outcome plan.methods[j]).map .outcome) ∧
        a.crew.entriesBy (.job j) = plan.entries plan.methods[j] := by
    intro j inside
    have member : a.crew.result? j ∈ yields.map fun y => some (.ok y) :=
      ended ▸ List.mem_map_of_mem (List.mem_range.mpr inside)
    obtain ⟨y, _, same⟩ := List.mem_map.mp member
    obtain ⟨method, at_j, result, entries⟩ := opened.result goes same.symm
    obtain rfl : plan.methods[j] = method := Option.some.inj ((List.getElem?_eq_getElem inside).symm.trans at_j)
    exact ⟨same.symm.trans (congrArg _ result), entries⟩
  constructor
  · rw [← ended]
    exact List.ext_getElem (by simp) fun j inside _ => by simp [(each j (by simpa using inside)).1]
  · have parts : (List.range plan.methods.length).map (fun j => a.crew.entriesBy (.job j)) = plan.methods.map plan.entries :=
      List.ext_getElem (by simp) fun j inside _ => by simp [(each j (by simpa using inside)).2]
    rw [List.flatMap_def, ← parts, ← List.flatMap_def]
    exact opened.authors

/-- What the jobs leave behind is counted as planned, unless one of them makes the whole fail. -/
theorem Opened.left (opened : plan.Opened limit a.crew) (goes : (plan.errand limit report).Goes held a)
    (left : a.crew.Leaves (List.range plan.methods.length) waited) (duration : Float) :
    plan.Comes a.crew (waited.map fun yields => .ofOutcomes plan.methods.length (yields.filterMap Yield.outcome?) duration) := by
  rcases left with ⟨yields, ended, rfl⟩ | ⟨j, inside, fault, failed, rfl⟩
  · obtain ⟨results, written⟩ := opened.all goes ended
    have outcomes : yields.filterMap Yield.outcome? = plan.methods.filterMap fun method => (plan.outcome method).toOption := by
      have read := congrArg (List.filterMap fun result => result.bind fun r => r.toOption.bind Yield.outcome?) results
      simp only [List.filterMap_map] at read
      refine read.trans (List.filterMap_congr fun method _ => ?_)
      dsimp only [Function.comp]
      cases plan.outcome method <;> rfl
    refine .inr ⟨?_, ⟨duration, by rw [counts, ← outcomes]; rfl⟩, written⟩
    rintro (⟨fault, failed⟩ | ⟨method, inside, fault, failed⟩)
    · exact opened.pending (by rw [methods, failed]; rfl)
    · have member : Option.some ((plan.outcome method).map Yield.outcome) ∈ yields.map fun y => Option.some (.ok y) :=
        results ▸ List.mem_map_of_mem inside
      obtain ⟨y, _, same⟩ := List.mem_map.mp member
      rw [failed] at same
      cases same
  · obtain ⟨method, at_j, result, _⟩ := opened.result goes failed
    refine .inl ⟨⟨fault, rfl⟩, .inr ⟨method, List.mem_of_getElem? at_j, ?_⟩⟩
    cases outcome : plan.outcome method with
    | ok =>
      rw [outcome] at result
      cases result
    | error fault' => exact ⟨fault', rfl⟩

/-- When there is nothing to describe, nothing is written. -/
theorem Idle.comes {result : Except Fault Yield} (idle : plan.Idle report result) {c : Crew ω} (unwritten : c.entries = []) :
    ∃ r, result = report r ∧ plan.Comes c r := by
  obtain ⟨nothing, rfl⟩ := idle
  refine ⟨_, rfl, ?_⟩
  cases found : plan.found with
  | error fault => exact .inl ⟨⟨fault, rfl⟩, .inl ⟨fault, found⟩⟩
  | ok methods =>
    refine .inr ⟨?_, ⟨0.0, by rw [counts, nothing]; rfl⟩, by rw [unwritten, nothing]; exact .nil⟩
    rintro (⟨fault, failed⟩ | ⟨method, inside, _⟩)
    · cases found.symm.trans failed
    · rw [nothing] at inside
      cases inside

/-- Whatever the order, the description of methods goes as planned. -/
theorem goes (plan : Plan o m e) (steady : w.Steady o)
    (holding : Shift.Holding w (e.shift limit report m world hasLoop) held a) : (plan.errand limit report).Goes held a :=
  (plan.errand limit report).goes steady (.refl o m) (plan.prepares limit report) holding

/-- When the caller is done, what is to come of the description has come of it. -/
theorem reports (plan : Plan o m e) (steady : w.Steady o) (leads : Shift.Leads w (e.shift limit report m world hasLoop) a) {h : Hand}
    {result : Except Fault Yield} (found : a.crew.hand? (.caller 0) = some h) (isOver : h.station = .over result) :
    ∃ r, result = report r ∧ plan.Comes a.crew r := by
  obtain ⟨held, holding⟩ := leads.holding
  have goes := plan.goes steady holding
  rcases goes.caller_over found isOver with ⟨nobody, silent, idle⟩ | ⟨_, waited, opened, left, duration, rfl⟩
  · have written := Crew.entries_perm (leads.authors silent)
    rw [nobody] at written
    exact idle.comes written.eq_nil
  · obtain ⟨silent, rfl⟩ := opened.opens
    have origins := opened.origins
    have written := Crew.entries_perm (leads.authors silent)
    rw [List.map_map] at origins
    have jobs : a.crew.jobs.length = plan.methods.length := by simpa using congrArg List.length origins
    rw [jobs] at written
    rw [List.length_map] at left
    have all : plan.Opened limit a.crew := ⟨fun nothing => opened.some (List.map_eq_nil_iff.mpr nothing), origins, written⟩
    exact ⟨_, rfl, all.left goes left duration⟩

/-- Those for whom the language model is at work hold permits. -/
theorem prompting_held (goes : (plan.errand limit report).Goes held a) : ∀ k ∈ a.crew.prompting, k ∈ held := by
  intro k inside
  obtain ⟨j, h, rfl, found, prompts⟩ := Crew.mem_prompting inside
  unfold Hand.prompts at prompts
  split at prompts
  next asking => exact goes.job_asking found asking
  next asking => exact goes.job_asking found asking
  next => cases prompts

end Goes

/-- What comes of the same description of methods counts the same and has the same written. -/
theorem Comes.alike {c : Crew ω} {c' : Crew ω'} {r r' : Except Fault EnrichmentCounts} (comes : plan.Comes c r)
    (comes' : plan.Comes c' r') : Alike r r' ∧ ((∃ counts, r = .ok counts) → c.entries.Perm c'.entries) := by
  rcases comes with ⟨⟨fault, rfl⟩, fails⟩ | ⟨well, ⟨duration, rfl⟩, written⟩
  · rcases comes' with ⟨⟨fault', rfl⟩, _⟩ | ⟨well, _⟩
    · exact ⟨trivial, nofun⟩
    · exact absurd fails well
  · rcases comes' with ⟨_, fails⟩ | ⟨_, ⟨duration', rfl⟩, written'⟩
    · exact absurd fails well
    · exact ⟨⟨rfl, rfl, rfl, rfl⟩, fun _ => written.trans written'.symm⟩

end Plan

/-- However many methods are described at a time and however long everything takes, no more are under way than permits
were given, and what comes of it is the same as when one is described after the other: the same is counted, and the same
descriptions are written. -/
theorem Enricher.describes_alike {o : Oracle} {w : World ω} {w' : World ω'} (steady : w.Steady o) (steady' : w'.Steady o)
    {e : Enricher} {limit : Nat} {report : Except Fault EnrichmentCounts → Except Fault Yield} {m : Memory} {world : ω} {hasLoop : Bool}
    {held : List Who} {a : Shift ω} (holding : Shift.Holding w (e.shift limit report m world hasLoop) held a) :
    held.length ≤ limit ∧ a.crew.prompting.length ≤ limit ∧
      ∀ h result, a.crew.hand? (.caller 0) = some h → h.station = .over result →
        ∀ world' hasLoop' b, Shift.Leads w' (e.shift 1 report m world' hasLoop') b →
          ∀ h' result', b.crew.hand? (.caller 0) = some h' → h'.station = .over result' →
            ∃ r r', result = report r ∧ result' = report r' ∧ Alike r r' ∧
              ((∃ counts, r = .ok counts) → a.crew.entries.Perm b.crew.entries) := by
  obtain ⟨plan⟩ := Plan.nonempty o m e
  have goes := plan.goes steady holding
  have bounded := goes.bounded rfl
  refine ⟨bounded, ?_, ?_⟩
  · exact Nat.le_trans (List.subperm_of_subset a.crew.nodup_prompting (Plan.prompting_held goes)).length_le bounded
  · intro h result found isOver world' hasLoop' b leads h' result' found' isOver'
    obtain ⟨r, reported, comes⟩ := plan.reports steady holding.leads found isOver
    obtain ⟨r', reported', comes'⟩ := plan.reports steady' leads found' isOver'
    exact ⟨r, r', reported, reported', comes.alike comes'⟩

section Example

/-- Surroundings that answer as they are to. The language model takes a second. -/
def Oracle.world (o : Oracle) : World Unit where
  answer
    | .query .undescribedMethods _, _, _ => ⟨(), 0, o.listing⟩
    | .query .createDescription parameters, _, _ => ⟨(), 0, o.created (parameters.field "method_id")⟩
    | .contentAt path, _, _ => ⟨(), 0, o.file path⟩
    | .openSession timeout, _, _ => ⟨(), 0, o.session timeout⟩
    | .requestCompletion url body headers, _, _ => ⟨(), 1, o.model url body headers⟩
    | .complete prompt system, _, _ => ⟨(), 1, o.helper prompt system⟩
    | .drawId, _, _ => ⟨(), 0, .ok Nat.zero⟩
    | _, _, _ => ⟨(), 0, .error .cancelled⟩

theorem Oracle.world_steady (o : Oracle) : o.world.Steady o := by
  intro question clock world
  cases question with
  | query statement =>
    cases statement with
    | undescribedMethods | createDescription => rfl
    | _ => trivial
  | contentAt | openSession | requestCompletion | complete => rfl
  | drawId => exact ⟨Nat.zero, rfl⟩
  | _ => trivial

/-- Two methods are listed, and the language model has something to say about both. -/
def Oracle.talkative : Oracle where
  listing := .ok ⟨.list [.list [.int 1, .str "id"]], [.cells [.plain (.str "a")], .cells [.plain (.str "b")]]⟩
  file _ := .ok .missing
  session _ := .ok ()
  model _ _ _ := .error (.foreign .connection none)
  helper _ _ := .ok (.str "\x7b\"content\": \"A method.\"\x7d")
  created _ := .ok ⟨.list [.list [.int 1, .str "created"]], [.cells [.plain (.int 1)]]⟩

def Memory.linked : Memory := { (default : Memory) with graphs := [{ (default : GraphClient) with connected := true }] }

def Enricher.helped : Enricher := { (default : Enricher) with completion := .outside }

/-- Whether the caller who is alone is done. -/
def Crew.finished (c : Crew ω) : Bool :=
  match c.hand? (.caller 0) with
  | some h => match h.station with
    | .over (.ok _) => true
    | _ => false
  | none => false

theorem Crew.over_of_finished {c : Crew ω} (finished : c.finished = true) :
    ∃ h last, c.hand? (.caller 0) = some h ∧ h.station = .over (.ok last) := by
  unfold Crew.finished at finished
  split at finished
  next h found =>
    split at finished
    next last isOver => exact ⟨h, last, found, isOver⟩
    next => cases finished
  next => cases finished

/-- A caller has two methods described, so many at a time, and only tells that this is done. -/
def Enricher.talk (limit : Nat) : Shift Unit :=
  Enricher.helped.shift limit (Except.map fun _ => .nothing) .linked () true

/-- What comes of it when turns are taken in an order. -/
def Enricher.talked (limit : Nat) (turns : List (Who × Nat)) : Shift Unit := (talk limit).rota Oracle.talkative.world turns

/-- Two methods are described at a time, or one after the other, until the caller is done. -/
theorem Enricher.describes_alike_talkative : ∃ held a b h h' last last',
    Shift.Holding Oracle.talkative.world (talk 2) held a ∧ Shift.Leads Oracle.talkative.world (talk 1) b ∧
      a.crew.hand? (.caller 0) = some h ∧ h.station = .over (.ok last) ∧
      b.crew.hand? (.caller 0) = some h' ∧ h'.station = .over (.ok last') ∧
      held.length ≤ 2 ∧ a.crew.prompting.length ≤ 2 ∧ ∃ r r', .ok last = r.map (fun _ => Yield.nothing) ∧
        .ok last' = r'.map (fun _ => Yield.nothing) ∧ Alike r r' ∧
        ((∃ counts, r = .ok counts) → a.crew.entries.Perm b.crew.entries) := by
  let together := talked 2 [(.caller 0, 100), (.job 0, 100), (.job 1, 100), (.job 1, 100), (.job 0, 100), (.caller 0, 100)]
  let apart := talked 1 [(.caller 0, 100), (.job 0, 100), (.job 1, 100), (.job 0, 100), (.job 1, 100), (.job 1, 100), (.caller 0, 100)]
  have leads : Shift.Leads Oracle.talkative.world (talk 2) together := Shift.rota_leads _ _
  have leads' : Shift.Leads Oracle.talkative.world (talk 1) apart := Shift.rota_leads _ _
  obtain ⟨held, holding⟩ := leads.holding
  obtain ⟨h, last, found, isOver⟩ : ∃ h last, together.crew.hand? (.caller 0) = some h ∧ h.station = .over (.ok last) :=
    Crew.over_of_finished (by decide +kernel)
  obtain ⟨h', last', found', isOver'⟩ : ∃ h last, apart.crew.hand? (.caller 0) = some h ∧ h.station = .over (.ok last) :=
    Crew.over_of_finished (by decide +kernel)
  obtain ⟨bound, inFlight, alike⟩ := describes_alike Oracle.talkative.world_steady Oracle.talkative.world_steady holding
  exact ⟨held, together, apart, h, h', last, last', holding, leads', found, isOver, found', isOver', bound, inFlight,
    alike h _ found isOver () true apart leads' h' _ found' isOver'⟩

end Example

end CodeAtlas
