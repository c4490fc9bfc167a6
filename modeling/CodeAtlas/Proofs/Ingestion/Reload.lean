import CodeAtlas.Proofs.Graph.Rebuild
import CodeAtlas.Proofs.Ingestion.Engaged
import CodeAtlas.Proofs.Ingestion.SingleFlight

namespace CodeAtlas

/-- What holds of the coordinator, of the links of the facade and of all ingestions at all times. -/
def Kept (l : Ledger) (n r g : Nat) (s : Scene) : Prop := Ordered l n s ∧ Accounted l n r g s

/-- It is the turn of task `k`, which runs an ingestion and has decided whether to read the population. -/
structure Settled (l : Ledger) (n r g : Nat) (k : Who) (s : Scene) : Prop where
  aside : Aside l n k s
  accounted : Accounted l n r g s
  performs : s.Performs k (.caller Facade.ingestion)
  concluded : Concluded l n k s.trace

/-- It has begun to read the population. -/
structure Reading (l : Ledger) (n r g : Nat) (k : Who) (s : Scene) : Prop extends Settled l n r g k s where
  reads : HasRead k s.trace

variable {l : Ledger} {n r g : Nat} {k : Who} {origin : Origin} {s : Scene}

theorem Settled.close (settled : Settled l n r g k s) (result : Except Fault Yield) : Kept l n r g (s.close k result) := by
  refine ⟨settled.aside.close result, settled.accounted.onTask (Task.closed_origin result) fun t found ingests => ?_⟩
  have ends : (t.closed result).stand = .ended := by
    cases result with
    | ok => simp [Task.closed, Task.moved, ingests.2, Origin.repeats]
    | error => rfl
  simp only [Account, ends]
  exact settled.concluded

namespace Reading

theorem note (reading : Reading l n r g k s) {deed : Deed} (silent : deed.event n = none) :
    Reading l n r g k (s.note k deed) := by
  have reads : HasRead k (s.trace ++ [(k, deed)]) := reads_append.mpr (.inl reading.reads)
  have concluded := reading.concluded.goesOn reading.reads silent
  exact ⟨⟨reading.aside.note silent, reading.accounted.note reading.performs fun _ => .inr ⟨reads, concluded⟩,
    reading.performs, concluded⟩, reads⟩

theorem store (reading : Reading l n r g k s) {m : Memory} (same : m.coordinators = s.memory.coordinators)
    (linked : m.Linked n r g) : Reading l n r g k (s.store k m) := by
  have noted := reading.note (Deed.event_beside n same)
  exact ⟨⟨reading.aside.store_beside same, noted.accounted.store linked, noted.performs, noted.concluded⟩, noted.reads⟩

theorem ask (reading : Reading l n r g k s) (statement : Statement) (parameters : Value)
    (rest : Except Fault Table → Routine Yield) :
    Kept l n r g (s.onTask k (Task.moved (.asking (.query statement parameters) rest))) := by
  obtain ⟨c, on, free⟩ := reading.aside
  refine ⟨⟨c, on.move fun t => ?_⟩, reading.accounted.onTask (fun _ => rfl) fun t _ _ => ?_⟩
  · simpa only [Course.FitsStand, Task.moved, Ask.stage?, Option.isSome_none, Bool.false_eq_true, if_false] using free
  · exact ⟨reading.reads, reading.concluded⟩

theorem hear {statement : Statement} {parameters : Value} {t t' : Task} {s' : Scene}
    {next : Except Fault Table → Routine Yield} (performs : s.Performs k (.caller Facade.ingestion))
    (caller : ∃ i, k = .caller i) (found : s.task? k = some t) (kept : Kept l n r g s') (single : Pool.Single ⟨s', none⟩)
    (carries : s'.Carries k t.origin) (found' : s'.task? k = some t')
    (asking : t'.stand = .asking (.query statement parameters) next) :
    Reading l n r g k (s'.onTask k (Task.moved .running)) := by
  obtain ⟨⟨c, orderly⟩, accounted⟩ := kept
  have free : c.owner ≠ some k := by
    have fits := orderly.fits k t' found'
    simpa only [Course.FitsStand, asking, Ask.stage?, Option.isSome_none, Bool.false_eq_true, if_false] using fits
  have same := performs.same found carries found'
  have account := accounted.accounts k t' found' ⟨caller, same⟩
  simp only [Account, asking] at account
  have resumed : (s'.onTask k (Task.moved .running)).Performs k t'.origin := .of_resumed found'
  refine ⟨⟨(orderly.resumed single found').aside free, accounted.onTask (fun _ => rfl) fun _ _ _ => .inr account,
    same ▸ resumed, account.2⟩, account.1⟩

end Reading

namespace Routine

variable {α : Type}

/-- A query of a reader: whatever the others do while it waits, it goes on reading. -/
theorem obeys_reading {statement : Statement} {parameters : Value} {post : Except Fault Table → Scene → Prop}
    (caller : ∃ i, k = .caller i) (reading : Reading l n r g k (s.note k (.asks (.query statement parameters))))
    (rest : ∀ reply s', Reading l n r g k s' → post reply s') :
    (query (.query statement parameters)).Obeys (Kept l n r g) k post s := by
  refine ⟨nofun, fun _ => ⟨fun next => reading.ask statement parameters next, ?_⟩⟩
  rintro t reply s' found kept single carries ⟨t', next, found', asking⟩ _
  have resumed := Reading.hear reading.performs caller found kept single carries found' asking
  have heard : Reading l n r g k (s'.hear k (.query statement parameters) reply) := resumed.note rfl
  exact ⟨⟨heard.aside.ordered, heard.accounted⟩, rest reply _ heard⟩

end Routine

namespace Registry

open Routine

variable {β : Type}

theorem run_obeys {statement : Statement} (caller : ∃ i, k = .caller i)
    (client : (s.memory.graph g).connected = true)
    (reading : Reading l n r g k (s.note k (.asks (.query statement (.dict []))))) :
    (GraphClient.run g statement).Obeys (Kept l n r g) k (fun _ s' => Reading l n r g k s') s := by
  rw [GraphClient.run, GraphClient.send_eq]
  change Routine.Obeys _ k (if (s.memory.graph g).connected then _ else _) _ s
  rw [client]
  exact (obeys_reading caller reading fun _ _ after => after).andThen fun reply _ after => after

/-- Whoever begins to read the population goes on with it, however far it comes. -/
theorem refresh_obeys (caller : ∃ i, k = .caller i) (linked : s.memory.Linked n r g)
    (begins : Reading l n r g k (s.note k (.asks (.query .allClasses (.dict []))))) :
    (refresh r).Obeys (Kept l n r g) k (fun _ s' => Settled l n r g k s') s := by
  unfold refresh
  rw [obeys_view_bind]
  simp only [linked.graph]
  refine (run_obeys caller linked.client begins).bind (fun classRecords s₁ reading₁ => ?_) fun _ _ after => after.toSettled
  have asked : Reading l n r g k (s₁.note k (.asks (.query .allMethods (.dict [])))) := reading₁.note rfl
  refine (run_obeys caller reading₁.accounted.linked.client asked).bind (fun methodRecords s₂ reading₂ => ?_)
    fun _ _ after => after.toSettled
  refine obeys_lift_bind (fun classes => obeys_lift_bind (fun methods => ?_) fun _ => reading₂.toSettled)
    fun _ => reading₂.toSettled
  rw [obeys_change_bind]
  have loaded := reading₂.store (m := s₂.memory.onRegistry r (load classes methods)) rfl
    (reading₂.accounted.linked.onRegistry fun _ => rfl)
  exact ⟨⟨loaded.aside.ordered, loaded.accounted⟩, loaded.toSettled⟩

end Registry

/-- The run of a call is over, or it was turned away: `good` tells whether it is to read the population. -/
structure Over (l : Ledger) (n r g : Nat) (k : Who) (good : Bool) (s : Scene) : Prop where
  aside : Aside l n k s
  engaged : Engaged l n r g k (.caller Facade.ingestion) s
  ends : ∃ upshot, Ends k (runEvents n s.trace) upshot ∧ (l.after (runEvents n s.trace)).due upshot = good

/-- A run has ended well where nothing was noted against it, and raises the fault that it does not keep. -/
theorem Ran.ends {result : Except Fault Unit} (ran : Ran l n k result s) :
    ∃ upshot, Ends k (runEvents n s.trace) upshot ∧
      (l.after (runEvents n s.trace)).due upshot = (result.isOk && (l.after (runEvents n s.trace)).fresh) := by
  obtain ⟨events, question, reply, along, last, trace, passes⟩ := ran.answered
  rw [trace]
  cases reply with
  | ok value =>
    obtain rfl : result = .ok () := by
      cases result with
      | ok => rfl
      | error fault => cases passes.1
    have unfailed : (l.after (events ++ [(k, .freed)])).failed = false := by
      rw [l.after_snoc]
      exact along.unfailed l trivial
    by_cases isLast : question.stage? = some .vectorize
    · refine ⟨.completed, .completed along isLast, ?_⟩
      obtain ⟨before, rfl⟩ := along.heard
      have completed : (l.after (before ++ [(k, .heard question (.ok value))] ++ [(k, .freed)])).completed = true := by
        rw [l.after_snoc, l.after_snoc, Ledger.enter_value, if_pos isLast]
        rfl
      simp only [Ledger.due, Ledger.fresh, completed, unfailed, Except.isOk, Except.toBool, Bool.not_false, Bool.and_self]
    · have stops : question.goesOn (.ok value) = false := Bool.eq_false_iff.mpr fun goesOn => isLast (last goesOn)
      cases question with
      | fetchSnapshot endpoint =>
        refine ⟨.empty, .empty along stops, ?_⟩
        simp only [Ledger.due, Ledger.fresh, unfailed, Except.isOk, Except.toBool, Bool.not_false, Bool.and_true, Bool.true_and]
      | perform => cases stops
      | _ => cases along.isStage rfl
  | error fault =>
    refine ⟨.failed, .failed along, ?_⟩
    cases result with
    | error => rfl
    | ok =>
      -- the record says that a run failed which has kept its fault
      obtain ⟨before, rfl⟩ := along.heard
      have failed : (l.after (before ++ [(k, .heard question (.error fault))] ++ [(k, .freed)])).failed = true := by
        rw [l.after_snoc, l.after_snoc, Ledger.enter_fault, if_pos (passes fault rfl)]
        rfl
      simp only [Ledger.due, Ledger.fresh, failed, Bool.not_true, Bool.and_false]

theorem Over.settled (isOver : Over l n r g k false s) (caller : ∃ i, k = .caller i) : Settled l n r g k s := by
  obtain ⟨upshot, ends, notDue⟩ := isOver.ends
  have spares := isOver.engaged.spares ⟨caller, rfl⟩
  refine ⟨isOver.aside, isOver.engaged.accounted, isOver.engaged.performs, s.trace, [], upshot, .now ends spares, ?_⟩
  rw [notDue]
  exact fun _ inside => absurd inside List.not_mem_nil

theorem Over.reading (isOver : Over l n r g k true s) (caller : ∃ i, k = .caller i) (parameters : Value) :
    Reading l n r g k (s.note k (.asks (.query .allClasses parameters))) := by
  obtain ⟨upshot, ends, isDue⟩ := isOver.ends
  have decided := Decided.now ends (isOver.engaged.spares ⟨caller, rfl⟩)
  have reads : HasRead k (s.trace ++ [(k, .asks (.query .allClasses parameters))]) := reads_own trivial
  have concluded : Concluded l n k (s.trace ++ [(k, .asks (.query .allClasses parameters))]) := by
    refine ⟨s.trace, _, upshot, decided.goesOn rfl, ?_⟩
    rw [if_pos isDue]
    exact reads_own trivial
  exact ⟨⟨isOver.aside.note rfl, isOver.engaged.accounted.note isOver.engaged.performs fun _ => .inr ⟨reads, concluded⟩,
    isOver.engaged.performs, concluded⟩, reads⟩

namespace Facade

open Routine

theorem required_obeys {β : Type} {inv : Scene → Prop} {f : Facade → Routine β} {post : Except Fault β → Scene → Prop}
    (linked : s.memory.Linked n r g) (rest : (f s.memory.facade).Obeys inv k post s) :
    (required >>= f).Obeys inv k post s := by
  change Routine.Obeys inv k (Routine.andThen (if s.memory.facade.connected then _ else _) _) post s
  rw [linked.connected]
  exact rest

theorem runPipeline_over (aside : Aside l n k s) (engaged : Engaged l n r g k (.caller ingestion) s)
    (apart : ∀ entry ∈ runEvents n s.trace, entry.1 ≠ k) :
    (Coordinator.runPipeline n).Obeys (Kept l n r g) k
      (fun result s' => Over l n r g k (result.isOk && (l.after (runEvents n s'.trace)).fresh) s') s := by
  refine Obeys.imp ((Coordinator.runPipeline_runs aside).frame (Engaged.frame l n r g k _)
    Coordinator.runPipeline_scoped engaged) ?_
  rintro result s' ⟨ran | ⟨rfl, rfl⟩, engaged'⟩
  · exact ⟨ran.aside, engaged', ran.ends⟩
  · exact ⟨aside, engaged', .turnedAway, .turnedAway apart, rfl⟩

theorem refresh_obeys {α : Type} {a : α} (caller : ∃ i, k = .caller i) (isOver : Over l n r g k true s) :
    (refresh >>= fun _ => pure a : Routine α).Obeys (Kept l n r g) k (fun _ s' => Settled l n r g k s') s := by
  have linked := isOver.engaged.accounted.linked
  have same : number s.memory.facade.registry = r := by rw [linked.registry]; rfl
  refine Obeys.bind (m := fun _ s' => Settled l n r g k s') ?_ (fun _ _ after => after) fun _ _ after => after
  unfold refresh
  refine required_obeys linked ?_
  rw [same]
  exact Registry.refresh_obeys caller linked (isOver.reading caller _)

/-- A call decides whether to read the population by what all runs have come to when its own is over. -/
theorem runIngestion_obeys (caller : ∃ i, k = .caller i) (aside : Aside l n k s)
    (engaged : Engaged l n r g k (.caller ingestion) s) (apart : ∀ entry ∈ runEvents n s.trace, entry.1 ≠ k) :
    runIngestion.Obeys (Kept l n r g) k (fun _ s' => Settled l n r g k s') s := by
  have linked := engaged.accounted.linked
  have same : number s.memory.facade.coordinator = n := by rw [linked.coordinator]; rfl
  unfold runIngestion
  refine required_obeys linked ?_
  rw [same]
  refine (runPipeline_over aside engaged apart).bind (fun _ s' isOver => ?_) fun _ s' isOver => isOver.settled caller
  -- nobody else takes a turn between the end of the run and the look at the status
  have kept : Kept l n r g s' := ⟨isOver.aside.ordered, isOver.engaged.accounted⟩
  have told : (s'.memory.coordinator n).run.ledger = l.after (runEvents n s'.trace) := by
    obtain ⟨c, on, free⟩ := isOver.aside
    exact on.told free
  refine (Coordinator.status_obeys kept).bind ?_ ?_
  · rintro _ s₁ ⟨⟨time, ⟨⟩⟩, rfl⟩
    dsimp only
    rw [isFresh_statusAt, told]
    cases fresh : (l.after (runEvents n s₁.trace)).fresh with
    | false =>
      rw [fresh] at isOver
      exact isOver.settled caller
    | true =>
      rw [fresh] at isOver
      exact refresh_obeys caller isOver
  · rintro _ _ ⟨⟨_, ⟨⟩⟩, _⟩

/-- An ingestion begins, without any part in the runs so far. -/
theorem ingestion_begins (kept : Kept l n r g s) (single : Pool.Single ⟨s, none⟩) {t : Task} (found : s.task? k = some t)
    (fresh : t.stand = .fresh) (ingests : t.origin = .caller ingestion) :
    Kept l n r g (s.begin k t.origin) ∧
      t.origin.routine.Obeys (Kept l n r g) k (fun result s' => Kept l n r g (s'.close k result)) (s.begin k t.origin) := by
  obtain ⟨⟨c, orderly⟩, accounted⟩ := kept
  have caller : ∃ i, k = .caller i := by
    have known := orderly.known k t found
    rw [ingests] at known
    cases known
    exact ⟨_, rfl⟩
  have engaged := Engaged.begin accounted found fresh
  have aside := orderly.begin single found fresh (by rw [ingests]; rfl)
  have account := accounted.accounts k t found ⟨caller, ingests⟩
  simp only [Account, fresh] at account
  have apart : ∀ entry ∈ runEvents n (s.begin k t.origin).trace, entry.1 ≠ k := by
    have noted : (s.begin k t.origin).trace = s.trace ++ [(k, .begins t.origin)] := rfl
    have silent : (Deed.begins t.origin).event n = none := by rw [ingests]; rfl
    rw [noted, runEvents_append, silent, Option.map_none, Option.toList_none, List.append_nil]
    exact runEvents_apart account.2
  refine ⟨⟨aside.ordered, engaged.accounted⟩, ?_⟩
  rw [ingests] at aside engaged apart ⊢
  exact (runIngestion_obeys caller aside engaged apart).andThen fun result _ settled => settled.close _

/-- Anything else begins that is done with a coordinator, and keeps the accounts that it has no part in. -/
theorem other_begins (kept : Kept l n r g s) (single : Pool.Single ⟨s, none⟩) {t : Task} (found : s.task? k = some t)
    (fresh : t.stand = .fresh) (going : t.stopped = false) (other : t.origin ≠ .caller ingestion)
    (calls : ∀ program, t.origin = .caller program → Facade.Caller n program) :
    Kept l n r g (s.begin k t.origin) ∧
      t.origin.routine.Obeys (Kept l n r g) k (fun result s' => Kept l n r g (s'.close k result)) (s.begin k t.origin) := by
  obtain ⟨⟨c, orderly⟩, accounted⟩ := kept
  have engaged := Engaged.begin accounted found fresh
  have coordinates : ∀ program, t.origin = .caller program → Coordinator.Caller n program := by
    intro program same
    cases calls program same with
    | coordinates caller => exact caller
    | ingests => exact absurd same other
  have within : Coordinator.Scoped n r g t.origin.routine := (orderly.known k t found).scoped coordinates
  obtain ⟨holds, obeys⟩ := (Coordinator.guarded l n).begin ⟨c, orderly⟩ single found fresh going coordinates
  refine ⟨⟨holds, engaged.accounted⟩, (obeys.frame (Engaged.frame l n r g k t.origin) within engaged).imp ?_⟩
  rintro result s' ⟨closed, engaged'⟩
  exact ⟨closed, engaged'.accounted.close engaged'.performs (fun ingests => other ingests.2) result⟩

/-- Whatever comes to be done with a facade and its coordinator keeps the accounts. -/
theorem guarded (l : Ledger) (n r g : Nat) : Guarded (Facade.Caller n) (Kept l n r g) where
  call kept _ := ⟨kept.1.call _, kept.2.joined (Scene.call_joined _ _)⟩
  drop := by
    rintro s k t ⟨ordered, accounted⟩ found fresh stopped
    refine ⟨ordered.drop found fresh stopped, accounted.onTask (fun _ => rfl) fun t' found' ingests => ?_⟩
    cases Option.some.inj (found.symm.trans found')
    have account := accounted.accounts k t found ingests
    simp only [Account, fresh, stopped] at account
    cases account.1
  begin := by
    intro s k t kept single found fresh going calls
    by_cases ingests : t.origin = .caller ingestion
    · exact ingestion_begins kept single found fresh ingests
    · exact other_begins kept single found fresh going ingests calls

end Facade

/-- A call that runs an ingestion on a connected facade reads the population after its own run if and
only if that is due, whatever was done before and whatever else is done meanwhile; otherwise it leaves the
population alone. -/
theorem Facade.runIngestion_reloads {m : Memory} {a : Pool} (atRest : m.AtRest n) (linked : m.Linked n r g)
    (reach : Pool.Reach (Facade.Caller n) m a) {i : Nat} {t : Task} (found : a.scene.task? (.caller i) = some t)
    (ingests : t.origin = .caller Facade.ingestion) (isOver : t.stand = .ended ∨ HasRead (.caller i) a.scene.trace) :
    Concluded (m.ledger n) n (.caller i) a.scene.trace := by
  -- with nothing under way there is nothing to account for
  have nobody (k : Who) (t : Task) : (⟨m, [], [], []⟩ : Scene).task? k ≠ some t := by cases k <;> simp [Scene.task?]
  have initially : Kept (m.ledger n) n r g ⟨m, [], [], []⟩ :=
    ⟨⟨.idle, atRest.orderly⟩, linked, fun _ inside => absurd inside List.not_mem_nil,
      fun k t found => absurd found (nobody k t)⟩
  obtain ⟨_, accounted⟩ := (reach.sound (Facade.guarded (m.ledger n) n r g) initially).holds
  have account := accounted.accounts _ t found ⟨⟨i, rfl⟩, ingests⟩
  rcases isOver with ended | reads
  · simpa only [Account, ended] using account
  · exact account.concluded reads

/-- A connected facade with a coordinator and a registry, and nothing else. -/
def Memory.assembled : Memory :=
  { Memory.coordinated with
    graphs := [{ (default : GraphClient) with connected := true }]
    registries := [{ (default : Registry) with graph := some 0 }]
    facade := { (default : Facade) with connected := true, coordinator := some 0, registry := some 0 } }

theorem Memory.assembled_linked : Memory.assembled.Linked 0 0 0 := ⟨by decide, rfl, rfl, rfl, rfl, rfl, rfl⟩

theorem Memory.assembled_atRest : Memory.assembled.AtRest 0 := ⟨by decide, rfl, rfl, rfl, rfl⟩

/-- After a run that completed, one that finds nothing reads the population all the same. -/
theorem Facade.empty_run_reloads : ∃ a, Pool.Reach (Facade.Caller 0) .assembled a ∧
    stageCalls a.scene.trace = [(.caller 0, .fetch), (.caller 0, .build), (.caller 0, .enrich), (.caller 0, .vectorize),
      (.caller 1, .fetch)] ∧
    HasRead (.caller 1) a.scene.trace ∧ Concluded (Memory.assembled.ledger 0) 0 (.caller 1) a.scene.trace := by
  let found : Snapshot := { (default : Snapshot) with classes := [default] }
  have runs : Caller 0 ((Coordinator.runPipeline 0).andThen fun _ => .done (.ok .nothing)) :=
    .coordinates (.runPipeline fun _ => .done)
  have r : Pool.Reach (Caller 0) .assembled _ := .next .start (.call runs)
  have r := r.next (.call .ingests)
  have r := r.next (.begin (k := .caller 0) (t := .new (.caller _)) rfl rfl rfl)
  have r := ((r.next .look).next .look).next .store
  have r := r.next (.exchange rfl ⟨(7 : Nat), rfl⟩)
  have r := r.next (.grant ⟨⟨(0 : Float), rfl⟩, rfl⟩)
  have r := (r.next .look).next .store
  have r := ((r.next .look).next .look).next .store
  have r := r.next (.ask rfl)
  have r := r.next (@Pool.Step.hear _ _ (.caller 0) _ (.fetchSnapshot _) _ (.ok (some found)) rfl rfl trivial)
  have r := ((r.next .look).next .store).next (.ask rfl)
  have r := r.next (@Pool.Step.hear _ _ (.caller 0) _ (.perform _) _ (.ok ()) rfl rfl trivial)
  have r := ((r.next .look).next .store).next (.ask rfl)
  have r := r.next (@Pool.Step.hear _ _ (.caller 0) _ (.perform _) _ (.ok ()) rfl rfl trivial)
  have r := ((r.next .look).next .store).next (.ask rfl)
  have r := r.next (@Pool.Step.hear _ _ (.caller 0) _ (.perform _) _ (.ok ()) rfl rfl trivial)
  have r := r.next (.grant ⟨⟨(0 : Float), rfl⟩, rfl⟩)
  have r := (r.next .look).next .store
  have r := (r.next .look).next .store
  have r := r.next .close
  have r := r.next (.begin (k := .caller 1) (t := .new (.caller _)) rfl rfl rfl)
  have r := (((r.next .look).next .look).next .look).next .store
  have r := r.next (.exchange rfl ⟨(8 : Nat), rfl⟩)
  have r := r.next (.grant ⟨⟨(0 : Float), rfl⟩, rfl⟩)
  have r := (r.next .look).next .store
  have r := ((r.next .look).next .look).next .store
  have r := r.next (.ask rfl)
  have r := r.next (@Pool.Step.hear _ _ (.caller 1) _ (.fetchSnapshot _) _ (.ok (none : Option Snapshot)) rfl rfl trivial)
  have r := (r.next .look).next .store
  have r := r.next .look
  have r := r.next (.grant ⟨⟨(0 : Float), rfl⟩, rfl⟩)
  have r := ((r.next .look).next .look).next .look
  have r := r.next (.ask rfl)
  have reads (before : List (Who × Deed)) :
      HasRead (.caller 1) (before ++ [(.caller 1, .asks (.query .allClasses (.dict [])))]) := reads_own trivial
  refine ⟨_, r, by decide, reads _, ?_⟩
  exact runIngestion_reloads Memory.assembled_atRest Memory.assembled_linked r rfl rfl (.inr (reads _))

end CodeAtlas
