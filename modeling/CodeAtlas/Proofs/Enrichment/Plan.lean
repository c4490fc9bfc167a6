import Mathlib.Tactic.Choose
import CodeAtlas.Proofs.Crew.Errand
import CodeAtlas.Proofs.Enrichment.Authors
import CodeAtlas.Proofs.Turns.Charter

namespace CodeAtlas

/-- An enricher of which so many methods are described at a time. -/
def Enricher.within (e : Enricher) (limit : Nat) : Enricher := { e with permits := .limited limit }

/-- One caller has methods described, so many at a time, and reports what came of it. -/
def Enricher.shift {ω : Type} (e : Enricher) (limit : Nat) (report : Except Fault EnrichmentCounts → Except Fault Yield) (m : Memory)
    (world : ω) (hasLoop : Bool) : Shift ω :=
  Shift.solo ((enrichMethods (e.within limit)).andThen fun r => .done (report r)) m world hasLoop

/-- What the description of methods comes to: which are listed, and for each what becomes of it and what is written. -/
structure Plan (o : Oracle) (m : Memory) (e : Enricher) where
  records : Except Fault (List Value)
  lists : (GraphClient.run e.graph .undescribedMethods).SettlesOn o m records True True []
  outcome : PendingMethod → Except Fault Outcome
  entries : PendingMethod → List Written
  settles : ∀ method, (enrichOne e method).SettlesOn o m (outcome method) True True (entries method)

theorem Plan.nonempty (o : Oracle) (m : Memory) (e : Enricher) : Nonempty (Plan o m e) := by
  obtain ⟨records, lists⟩ := GraphClient.run_settles (o := o) (m := m) e.graph
  choose outcome entries settles using fun method => enrichOne_settled (o := o) (m := m) e method
  exact ⟨records, lists, outcome, entries, settles⟩

namespace Plan

variable {o : Oracle} {m : Memory} {e : Enricher}

/-- The methods that are found, unless they cannot be listed. -/
def found (plan : Plan o m e) : Except Fault (List PendingMethod) := plan.records >>= List.mapM PendingMethod.ofRecord

def methods (plan : Plan o m e) : List PendingMethod := plan.found.toOption.getD []

/-- What is reported when there is nothing to describe. -/
def Idle (plan : Plan o m e) (report : Except Fault EnrichmentCounts → Except Fault Yield) (result : Except Fault Yield) : Prop :=
  plan.methods = [] ∧ result = report (plan.found.map fun _ => ⟨0, 0, 0, 0, 0.0⟩)

/-- What is reported of what the jobs leave behind. -/
def Reports (plan : Plan o m e) (report : Except Fault EnrichmentCounts → Except Fault Yield) (waited : Waited)
    (result : Except Fault Yield) : Prop :=
  ∃ duration, result = report (waited.map fun yields =>
    .ofOutcomes plan.methods.length (yields.filterMap Yield.outcome?) duration)

end Plan

/-- No request is made of the loop. -/
def Charter.asking : Charter where
  keeps _ := True
  asks _ := True
  requests _ := False

/-- What is relied on where answers are always the same. -/
def Oracle.terms (o : Oracle) (m : Memory) : Terms := ⟨o.Bears m, o.Allows⟩

namespace Routine

variable {α β : Type}

/-- A routine that comes to one result has heard what it has written. -/
theorem SettlesOn.hears {o : Oracle} {m : Memory} {p : Routine α} {result : Except Fault α} {holds ends : Prop}
    {entries : List Written} (settles : p.SettlesOn o m result ends holds entries) :
    p.Hears (o.terms m) ends holds fun heard came => came = result ∧ heard.flatMap Exchange.entries = entries := by
  induction p generalizing holds entries with
  | done =>
    obtain ⟨rfl, same, rfl⟩ := settles
    exact ⟨same, rfl, rfl⟩
  | look next ih => exact fun m' bears => ih m' (settles m' bears)
  | store m' next ih => exact ⟨settles.1, ih settles.2⟩
  | ask question next ih =>
    refine ⟨settles.1, fun reply allowed => ?_⟩
    obtain ⟨later, rfl, settled⟩ := settles.2 reply allowed
    refine (ih reply settled).imp fun heard came ⟨same, written⟩ => ⟨same, ?_⟩
    rw [List.flatMap_cons, written]
    rfl
  | control request next ih =>
    cases request with
    | takePermit | givePermit => exact ⟨settles.1, ih _ settles.2⟩
    | _ => exact settles.elim

variable {errand : Errand} {heard : List Exchange} {holds ends : Prop}

/-- What somebody does first who makes no request of the loop, and then sets out on an errand. -/
theorem Hears.prepares {p : Routine α} {f : Except Fault α → Routine Yield} {post : List Exchange → Except Fault α → Prop}
    (hears : p.Hears errand.terms ends holds post) (abides : p.Abides Charter.asking)
    (rest : ∀ later result, post later result → errand.Prepares (heard ++ later) (f result)) :
    errand.Prepares heard (p.andThen f) := by
  induction p generalizing heard post with
  | done result => exact List.append_nil heard ▸ rest [] result hears.2
  | look next ih => exact fun m kept => ih m (hears m kept) (abides m trivial) rest
  | store m next ih => exact ⟨hears.1, ih hears.2 abides.2 rest⟩
  | ask question next ih =>
    intro reply answered
    refine ih reply (hears.2 reply answered) (abides.2 reply) fun later result came => ?_
    rw [List.append_assoc]
    exact rest _ result came
  | control request next => exact abides.1.elim

theorem Hears.prepares_bind {p : Routine α} {f : α → Routine β} {g : Except Fault β → Routine Yield}
    {post : List Exchange → Except Fault α → Prop} (hears : p.Hears errand.terms ends holds post) (abides : p.Abides Charter.asking)
    (value : ∀ later a, post later (.ok a) → errand.Prepares (heard ++ later) ((f a).andThen g))
    (fault : ∀ later fault, post later (.error fault) → errand.Prepares (heard ++ later) (g (.error fault))) :
    errand.Prepares heard ((p >>= f).andThen g) := by
  change errand.Prepares heard ((p.andThen _).andThen g)
  rw [andThen_assoc]
  refine hears.prepares abides fun later result came => ?_
  cases result with
  | ok a => exact value later a came
  | error e => exact fault later e came

end Routine

open Routine

theorem GraphClient.send_abides (n : Nat) (statement : Statement) (parameters : Value) :
    (send n statement parameters).Abides Charter.asking := by
  refine .view fun _ _ => .ite (fun _ => .fail _) fun _ => .bind (.query trivial) fun table => ?_
  exact .bind (.ofExcept _) fun records => .bind (.ofExcept _) fun _ => .pure _

theorem readCode_within (e : Enricher) (limit : Nat) (method : PendingMethod) : readCode (e.within limit) method = readCode e method := by
  unfold readCode
  split
  · rfl
  · split
    · refine congrArg (Routine.bind _) (funext fun content => ?_)
      cases content <;> rfl
    · rfl

/-- How many are described at a time does not matter for one of them. -/
theorem enrichOne_within (e : Enricher) (limit : Nat) (method : PendingMethod) :
    enrichOne (e.within limit) method = enrichOne e method := by
  unfold enrichOne
  rw [readCode_within]
  rfl

/-- A job has its method described while it holds a permit, which it hands back. -/
theorem Plan.job_settles {o : Oracle} {m : Memory} {e : Enricher} (plan : Plan o m e) (limit : Nat) (method : PendingMethod) :
    (Job.describe (e.within limit) method).routine.SettlesOn o m ((plan.outcome method).map .outcome) False False (plan.entries method) := by
  have settles := plan.settles method
  rw [← enrichOne_within e limit] at settles
  have ensured : ((enrichOne (e.within limit) method).ensuring (request .givePermit)).SettlesOn o m (plan.outcome method) False True
      (plan.entries method ++ []) := settles.andThen ⟨trivial, rfl, Iff.rfl, rfl⟩
  have yielded : ((enrichOne (e.within limit) method).ensuring (request .givePermit) >>=
      fun outcome => pure (Yield.outcome outcome)).SettlesOn o m ((plan.outcome method).map .outcome) False True
      (plan.entries method ++ [] ++ []) := by
    refine ensured.andThen ?_
    cases plan.outcome method with
    | ok | error => exact ⟨rfl, Iff.rfl, rfl⟩
  rw [List.append_nil, List.append_nil] at yielded
  exact ⟨id, yielded⟩

/-- The description of methods as an errand: nothing is written but by the jobs, which write what is planned. -/
def Plan.errand {o : Oracle} {m : Memory} {e : Enricher} (plan : Plan o m e) (limit : Nat)
    (report : Except Fault EnrichmentCounts → Except Fault Yield) : Errand where
  terms := o.terms m
  permits := .limited limit
  idle heard result := heard.flatMap Exchange.entries = [] ∧ plan.Idle report result
  opens heard jobs := heard.flatMap Exchange.entries = [] ∧ jobs = plan.methods.map (.describe (e.within limit))
  comes job heard result := ∃ method, job = .describe (e.within limit) method ∧ result = (plan.outcome method).map .outcome ∧
    heard.flatMap Exchange.entries = plan.entries method
  closes _ := plan.Reports report

/-- The description of methods lists them, has each of them described by a job, and reports what comes of it. -/
theorem Plan.prepares {o : Oracle} {m : Memory} {e : Enricher} (plan : Plan o m e) (limit : Nat)
    (report : Except Fault EnrichmentCounts → Except Fault Yield) :
    (plan.errand limit report).Prepares [] ((enrichMethods (e.within limit)).andThen fun r => .done (report r)) := by
  unfold enrichMethods
  have abides := GraphClient.send_abides e.graph .undescribedMethods .null
  intro (start : Float)
  have hears : (GraphClient.run e.graph .undescribedMethods).Hears (plan.errand limit report).terms True True fun heard came =>
      came = plan.records ∧ heard.flatMap Exchange.entries = [] := plan.lists.hears
  refine hears.prepares_bind abides (fun heard records came => ?_) fun heard fault came => ?_
  · obtain ⟨listed, silent⟩ := came
    have found : plan.found = records.mapM PendingMethod.ofRecord := by rw [Plan.found, ← listed]; rfl
    rw [← found]
    have methods : plan.methods = plan.found.toOption.getD [] := rfl
    cases same : plan.found with
    | error fault => exact ⟨silent, by rw [methods, same]; rfl, by rw [same]; rfl⟩
    | ok pending =>
      replace methods : plan.methods = pending := by rw [methods, same]; rfl
      cases pending with
      | nil => exact ⟨silent, methods, by rw [same]; rfl⟩
      | cons method rest =>
        refine ⟨rfl, nofun, ⟨silent, by rw [methods]⟩, fun job inside => ?_, fun waited => ?_⟩
        · obtain ⟨method', _, rfl⟩ := List.mem_map.mp inside
          refine ⟨rfl, (plan.job_settles limit method').hears.imp fun heard came settled => ?_⟩
          exact ⟨method', rfl, settled⟩
        · cases waited with
          | error fault => exact ⟨0, rfl⟩
          | ok yields =>
            intro (stop : Float)
            exact ⟨stop - start, by rw [methods]; rfl⟩
  · obtain ⟨failed, silent⟩ := came
    have found : plan.found = .error fault := by rw [Plan.found, ← failed]; rfl
    exact ⟨silent, by rw [Plan.methods, found]; rfl, by rw [found]; rfl⟩

end CodeAtlas
