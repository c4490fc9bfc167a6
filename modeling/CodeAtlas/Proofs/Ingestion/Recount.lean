import CodeAtlas.Proofs.Ingestion.Told

namespace CodeAtlas

open Crew Routine

variable {ω : Type} {w : World ω} {m : Memory} {n : Nat} {k : Who} {c c' d : Crew ω}

/-- What is kept of the runs while the last one has not come to its end: its name, no error, and when the last of
the others completed. -/
structure RunState.Shows (s : RunState) (id : String) (past : List Run) : Prop where
  lastId : s.lastId = some id
  lastError : s.lastError = none
  finishedAt : s.finishedAt = (Run.lastSpan? past).map Prod.snd
  duration : s.duration = (Run.lastSpan? past).map fun span => span.2 - span.1

theorem Run.lastSpan?_snoc (past : List Run) (r : Run) : lastSpan? (past ++ [r]) = r.span?.or (lastSpan? past) := by
  unfold lastSpan?
  rw [List.filterMap_append]
  cases same : r.span? <;> simp [same]

/-- A run that neither failed nor completed. -/
theorem RunState.Shows.tells {s : RunState} {past : List Run} {r : Run} (shows : s.Shows r.id past)
    (error : r.error? = none) (span : r.span? = none) : s.Tells (past ++ [r]) := by
  refine ⟨?_, ?_, ?_, ?_⟩
  · simpa using shows.lastId
  · simpa [error] using shows.lastError
  · rw [Run.lastSpan?_snoc, span, Option.none_or]
    exact shows.finishedAt
  · rw [Run.lastSpan?_snoc, span, Option.none_or]
    exact shows.duration

namespace Crew

/-- Somebody carries out a run, whose last stage is this one, and has been told what becomes of it. -/
structure Carries (m : Memory) (n : Nat) (k : Who) (past : List Run) (r : Run) (stage : Stage) (c : Crew ω) : Prop where
  owns : c.Owns m n k
  familiar : c.Familiar n
  runs : (c.chronicle n).runs = past ++ [r]
  others : ∀ r ∈ past, r.fate ≠ .underway
  stage : (c.memory.coordinator n).run.stage = some stage
  shows : (c.memory.coordinator n).run.Shows r.id past

/-- Somebody carries out a run and has nothing more to tell. -/
structure Concludes (m : Memory) (n : Nat) (k : Who) (c : Crew ω) : Prop where
  owns : c.Owns m n k
  told : c.Told n
  settled : c.Settled n

theorem Concludes.release (concludes : c.Concludes m n k) :
    (account ω m n).After (c.store k (c.onRun n RunState.release))
      ((c.store k (c.onRun n RunState.release)).Idles m n k ∧ (c.store k (c.onRun n RunState.release)).Told n) := by
  intro known
  have idles := (concludes.owns.release known.1).2
  have told : (c.store k (c.onRun n RunState.release)).Told n :=
    concludes.told.store concludes.owns.2.1 (fun _ => rfl) (fun _ _ tells => tells.of_same rfl rfl rfl rfl) fun _ =>
      concludes.settled
  exact ⟨told.accounted, idles, told⟩

/-- While the owner is on turn nothing needs to be told. -/
theorem Owns.accounted (owns : c.Owns m n k) (familiar : c.Familiar n) : c.Accounted n := by
  refine ⟨familiar, fun rests => ?_, fun unbegun => absurd unbegun owns.begun⟩
  obtain ⟨h, found, runs⟩ := owns.1.running
  exact absurd runs (rests k h owns.2.2 found)

/-- The owner changes what is kept of the run. -/
theorem Owns.keep {f : RunState → RunState} (owns : c.Owns m n k) (familiar : c.Familiar n)
    (locked : ∀ r, (f r).locked = r.locked) : (account ω m n).After (c.store k (c.onRun n f))
      ((c.store k (c.onRun n f)).Owns m n k ∧ (c.store k (c.onRun n f)).Familiar n ∧
        ((c.store k (c.onRun n f)).memory.coordinator n).run = f (c.memory.coordinator n).run ∧
        ((c.store k (c.onRun n f)).chronicle n).name = (c.chronicle n).name ∧
        ((c.store k (c.onRun n f)).chronicle n).runs = (c.chronicle n).runs) := by
  intro known
  have owns' := (owns.drive locked known.1).2
  have familiar' : (c.store k (c.onRun n f)).Familiar n := by
    refine ⟨?_, familiar.staff.store k _⟩
    show ((c.onRun n f).coordinator n).stages = .outside
    rw [onRun, Memory.coordinator_onCoordinator _ owns.2.1]
    exact familiar.outside
  exact ⟨owns'.accounted familiar', owns', familiar', run_onRun owns.2.1, name_unnamed (c := c) rfl fun _ => rfl,
    runs_untold (c := c) rfl fun _ _ _ => rfl⟩

/-- What the call of a stage leads to, be it answered at once or later. -/
theorem Owns.calls {question : Ask} {stage : Stage} {past : List Run} {r : Run} (owns : c.Owns m n k)
    (familiar : c.Familiar n) (isStage : question.stage? = some stage)
    (asked : Deed.tells c.clock (c.chronicle n).name (c.chronicle n).runs (.asks question) = past ++ [r])
    (underway : r.fate = .underway) (settled : ∀ r ∈ past, r.fate ≠ .underway)
    (stage_shown : (c.memory.coordinator n).run.stage = some stage)
    (shows : (c.memory.coordinator n).run.Shows r.id past) :
    (query question).Keeps w (account ω m n) k
      (fun reply c' => c'.Carries m n k past (r.turns (.after stage c'.clock question reply)) stage) c := by
  have hears : ∀ {c : Crew ω} {reply}, c.owner n = some k → (c.chronicle n).runs = past ++ [r] →
      ((c.chronicle n).enter n (c.clock, k, .hears question reply)).runs =
        past ++ [r.turns (.after stage c.clock question reply)] := by
    intro c reply own runs
    simp only [Chronicle.enter, chronicle_owner, own, if_true, Deed.tells, isStage, runs, Run.amend_snoc]
  have noted : ((c.chronicle n).enter n (c.clock, k, .asks question)).runs = past ++ [r] := by
    simp only [Chronicle.enter, chronicle_owner, owns.2.2, if_true, asked]
  refine ⟨trivial, fun soon known => ?_, fun slow rest known => ?_⟩
  · have owns' := ((Owns.frame w m n k).exchange owns trivial soon known.1).2
    have familiar' : (c.exchange k question (c.reaction w question)).Familiar n :=
      ⟨familiar.outside, familiar.staff.exchange k question _⟩
    refine ⟨owns'.accounted familiar', owns', familiar', ?_, settled, stage_shown, shows⟩
    have entered : (c.exchange k question (c.reaction w question)).chronicle n =
        ((c.note k (.asks question)).chronicle n).enter n (c.clock, k, .hears question (c.reaction w question).reply) :=
      chronicle_noted rfl
    rw [entered]
    refine hears (c := c.note k (.asks question)) ?_ ((congrArg _ (chronicle_noted rfl)).trans noted)
    exact (Recorded.owner_snoc ..).trans owns.2.2
  · have asks : ((c.ask k question (c.reaction w question) rest).chronicle n).runs = past ++ [r] :=
      (congrArg _ (chronicle_noted rfl)).trans noted
    have told : (c.ask k question (c.reaction w question) rest).Told n := by
      refine ⟨⟨familiar.outside, familiar.staff.ask k question _ rest⟩, ?_, ?_⟩
      · rw [asks]
        exact shows.tells (by simp [Run.error?, underway]) (by simp [Run.span?, underway])
      · exact fun unbegun => absurd unbegun.asked owns.begun
    refine ⟨told.accounted, fun c' h known' inv still since found asking known'' => ?_⟩
    have base := (Owns.frame w m n k).ask rest owns trivial slow known.1
    have owns' := (base.2 c' h known'.1 known'.2 still since found asking known''.1).2
    have own : (c.ask k question (c.reaction w question) rest).owner n = some k :=
      (Recorded.owner_snoc ..).trans owns.2.2
    have kept := Regular.kept known'.2 known'.1 since known.1 own
    have unchanged := chronicle_since known'.2 known'.1 since own
    have familiar' : (c'.hear k question (h.heard (c.reaction w question).reply)).Familiar n :=
      ⟨inv.familiar.outside, inv.familiar.staff.hear k question _⟩
    have same : ((c'.hear k question (h.heard (c.reaction w question).reply)).memory.coordinator n).run =
        (c.memory.coordinator n).run := kept.2
    refine ⟨owns'.accounted familiar', owns', familiar', ?_, settled, same ▸ stage_shown, same ▸ shows⟩
    have entered : (c'.hear k question (h.heard (c.reaction w question).reply)).chronicle n =
        (c'.chronicle n).enter n (c'.clock, k, .hears question (h.heard (c.reaction w question).reply)) :=
      chronicle_noted rfl
    rw [entered]
    exact hears kept.1 (unchanged.2.trans asks)

/-- How the stages of a run come to an end: all is told, or a fault is about to be. -/
def Stops (m : Memory) (n : Nat) (k : Who) : Except Fault Unit → Crew ω → Prop
  | .ok _, c => c.Concludes m n k
  | .error fault, c => ∃ past r stage, c.Carries m n k past r stage ∧
      r.fate = if fault.ordinary then .failed stage fault else .aborted

/-- A stage is entered and called, and the rest goes on with its answer. -/
theorem Owns.enters {q : Ask} {stage : Stage} {past : List Run} {r : Run} {f : q.Reply → Routine Unit}
    (owns : c.Owns m n k) (familiar : c.Familiar n) (isStage : q.stage? = some stage)
    (asked : Deed.tells c.clock (c.chronicle n).name (c.chronicle n).runs (.asks q) = past ++ [r])
    (underway : r.fate = .underway) (settled : ∀ r ∈ past, r.fate ≠ .underway)
    (shows : (c.memory.coordinator n).run.Shows r.id past)
    (rest : ∀ a c', c'.Carries m n k past (r.turns (.after stage c'.clock q (.ok a))) stage →
      (f a).Keeps w (account ω m n) k (Stops m n k) c') :
    (Coordinator.onRun n (RunState.enter stage) >>= fun _ => query q >>= f).Keeps w (account ω m n) k
      (Stops m n k) c := by
  rw [Coordinator.onRun, keeps_change_bind]
  intro known
  obtain ⟨inv, owns', familiar', run, name, runs⟩ := owns.keep familiar (f := RunState.enter stage) (fun _ => rfl) known
  have shown : (RunState.enter stage (c.memory.coordinator n).run).Shows r.id past :=
    ⟨shows.lastId, shows.lastError, shows.finishedAt, shows.duration⟩
  rw [← run] at shown
  have called := owns'.calls (w := w) familiar' isStage (name ▸ runs ▸ asked) underway settled (run ▸ rfl) shown
  exact ⟨inv, called.bind rest fun fault c' carries => ⟨past, _, stage, carries, rfl⟩⟩

theorem Carries.settled {past : List Run} {r : Run} {stage : Stage} (carries : c.Carries m n k past r stage)
    (ended : r.fate ≠ .underway) : c.Settled n := by
  intro r' inside
  rw [carries.runs, List.mem_append, List.mem_singleton] at inside
  rcases inside with before | rfl
  · exact carries.others r' before
  · exact ended

theorem Carries.concludes {past : List Run} {r : Run} {stage : Stage} (carries : c.Carries m n k past r stage)
    (ended : r.fate ≠ .underway) (error : r.error? = none) (span : r.span? = none) : c.Concludes m n k := by
  refine ⟨carries.owns, ⟨carries.familiar, ?_, fun unbegun => absurd unbegun carries.owns.begun⟩, carries.settled ended⟩
  rw [carries.runs]
  exact carries.shows.tells error span

/-- The next stage of a run that is under way. -/
theorem Carries.enters {stage stage' : Stage} {past : List Run} {r : Run} {f : Unit → Routine Unit}
    (carries : c.Carries m n k past r stage) (underway : r.fate = .underway)
    (rest : ∀ a c', c'.Carries m n k past (r.turns (.after stage' c'.clock (.perform stage') (.ok a))) stage' →
      (f a).Keeps w (account ω m n) k (Stops m n k) c') :
    (Coordinator.onRun n (RunState.enter stage') >>= fun _ => query (.perform stage') >>= f).Keeps w (account ω m n) k
      (Stops m n k) c :=
  carries.owns.enters carries.familiar rfl carries.runs underway carries.others carries.shows rest

theorem Carries.completes {past : List Run} {r : Run} {start : Float} (carries : c.Carries m n k past r .vectorize)
    (completed : r.fate = .completed c.clock) (began : r.start = start) :
    (now >>= fun stop => Coordinator.onRun n (RunState.complete start stop)).Keeps w (account ω m n) k (Stops m n k) c := by
  refine keeps_now_bind fun known => ⟨carries.owns.accounted carries.familiar, ?_⟩
  rw [Coordinator.onRun, keeps_change]
  intro known
  obtain ⟨inv, owns, familiar, run, name, runs⟩ :=
    carries.owns.keep carries.familiar (f := RunState.complete start c.clock) (fun _ => rfl) known
  have settled := (carries.settled (by simp [completed])).of_same runs
  refine ⟨inv, owns, ⟨familiar, ?_, fun _ => settled⟩, settled⟩
  have span : r.span? = some (start, c.clock) := by simp [Run.span?, completed, began]
  rw [run, runs, carries.runs]
  refine ⟨?_, ?_, ?_, ?_⟩
  · simpa [RunState.complete] using carries.shows.lastId
  · simpa [RunState.complete, Run.error?, completed] using carries.shows.lastError
  · simp [RunState.complete, Run.lastSpan?_snoc, span]
  · simp [RunState.complete, Run.lastSpan?_snoc, span]

/-- The stages are called in order, and what becomes of the run is told. -/
theorem Owns.stagesInOrder {id : String} {past : List Run} (endpoint : Value) (owns : c.Owns m n k)
    (familiar : c.Familiar n) (settled : ∀ r ∈ past, r.fate ≠ .underway) (named : (c.chronicle n).name = some id)
    (runs : (c.chronicle n).runs = past)
    (shows : (c.memory.coordinator n).run.Shows id past) :
    (Coordinator.stagesInOrder n .outside endpoint c.clock).Keeps w (account ω m n) k (Stops m n k) c := by
  have asked : Deed.tells c.clock (c.chronicle n).name (c.chronicle n).runs (.asks (.fetchSnapshot endpoint)) =
      past ++ [⟨id, c.clock, .underway⟩] := by
    simp only [Deed.tells, named, runs, Option.getD_some]
  refine owns.enters (q := .fetchSnapshot endpoint) familiar rfl asked rfl settled shows fun fetched c₁ carries => ?_
  cases fetched with
  | none => exact carries.concludes nofun rfl rfl
  | some snapshot =>
    dsimp only
    split
    next isEmpty =>
      have empty : Fate.after .fetch c₁.clock (.fetchSnapshot endpoint) (.ok (some snapshot)) = .empty := by
        simp [Fate.after, Ask.goesOn, isEmpty]
      rw [empty] at carries
      exact carries.concludes nofun rfl rfl
    next full =>
      have goesOn : Fate.after .fetch c₁.clock (.fetchSnapshot endpoint) (.ok (some snapshot)) = .underway := by
        simp [Fate.after, Ask.goesOn, full]
      rw [goesOn] at carries
      refine carries.enters rfl fun _ c₂ carries => ?_
      refine carries.enters rfl fun _ c₃ carries => ?_
      exact carries.enters rfl fun _ c₄ carries => carries.completes rfl rfl

/-- A run that is to begin under a name begins, and ends with all told of it. -/
theorem Owns.runStages {id : String} (owns : c.Owns m n k) (told : c.Told n) (settled : c.Settled n)
    (named : (c.chronicle n).name = some id) :
    (Coordinator.runStages n id).Keeps w (account ω m n) k (fun _ c' => c'.Idles m n k ∧ c'.Told n) c := by
  unfold Coordinator.runStages
  refine keeps_now_bind fun known => ⟨told.accounted, ?_⟩
  rw [Coordinator.onRun, keeps_change_bind]
  intro known
  obtain ⟨inv, owns', familiar, run, name, runs⟩ := owns.keep told.familiar (f := RunState.start id c.clock) (fun _ => rfl) known
  refine ⟨inv, ?_⟩
  rw [keeps_view_bind, familiar.outside]
  have shows : ((c.store k (c.onRun n (RunState.start id c.clock))).memory.coordinator n).run.Shows id (c.chronicle n).runs := by
    rw [run]
    exact ⟨rfl, rfl, told.tells.finishedAt, told.tells.duration⟩
  have stages endpoint := owns'.stagesInOrder (w := w) endpoint familiar settled (name.trans named) runs shows
  have releases : ∀ c', Concludes m n k c' →
      (Coordinator.release n).Keeps w (account ω m n) k (fun _ c'' => c''.Idles m n k ∧ c''.Told n) c' := by
    intro c' concludes
    rw [Coordinator.release, Coordinator.onRun, keeps_change]
    exact concludes.release
  refine Keeps.ensuring (Keeps.andThen (stages _) fun result c₁ after => ?_) releases
  · cases result with
    | ok => exact after
    | error fault =>
      obtain ⟨past, r, stage, carries, fate⟩ := after
      dsimp only
      by_cases ordinary : fault.ordinary = true
      · rw [if_pos ordinary] at fate ⊢
        rw [Coordinator.onRun, keeps_change]
        intro known
        obtain ⟨inv, owns, familiar, run, _, runs⟩ :=
          carries.owns.keep carries.familiar (f := RunState.fail fault) (fun _ => rfl) known
        have span : r.span? = none := by simp [Run.span?, fate]
        have settled := (carries.settled (by simp [fate])).of_same runs
        refine ⟨inv, owns, ⟨familiar, ?_, fun _ => settled⟩, settled⟩
        rw [run, runs, carries.runs]
        refine ⟨?_, ?_, ?_, ?_⟩
        · simpa [RunState.fail] using carries.shows.lastId
        · simp [RunState.fail, RunState.stageText, Run.error?, fate, carries.stage]
        · rw [Run.lastSpan?_snoc, span, Option.none_or]
          exact carries.shows.finishedAt
        · rw [Run.lastSpan?_snoc, span, Option.none_or]
          exact carries.shows.duration
      · rw [if_neg ordinary] at fate ⊢
        exact carries.concludes (by simp [fate]) (by simp [Run.error?, fate]) (by simp [Run.span?, fate])

end Crew

/-- Waiting and looking at the clock leaves what is told alone. -/
theorem Crew.Told.patient (w : World ω) (m : Memory) (n : Nat) (k : Who) (holds : Crew ω → Prop) :
    Besides w (account ω m n) k .patient holds (Told n) where
  may _ _ := False.elim
  store _ _ := False.elim
  exchange _ _ := False.elim
  ask _ _ _ := False.elim
  grant := by
    intro c request reply c' _ told patient granted _ _
    cases request with
    | now | hasLoop | ended | join | shield | joinWorker => obtain ⟨_, rfl⟩ := granted; exact ⟨told.accounted, told⟩
    | pause => exact granted.elim
    | _ => exact patient.elim
  wait := by
    intro c request await read c' rest _ told patient waits _
    have same : c' = c := by
      cases request with
      | pause | join | shield | joinWorker => obtain ⟨_, _, rfl⟩ := waits; rfl
      | now | hasLoop | ended => exact waits.elim
      | _ => exact patient.elim
    subst same
    refine ⟨(told.rest await rest).accounted, fun d h waited d' _ inv still _ _ _ wakes _ _ => ?_⟩
    have told' := ((inv.told still).woken wakes).goOn (k := k)
    exact ⟨told'.accounted, told'⟩

/-- Whoever has taken the lock makes a worker, under the name that is at hand. -/
theorem Crew.Told.starting (w : World ω) (m : Memory) (n : Nat) (k : Who) (id : String) :
    Besides w (account ω m n) k .starting (Took m n k) fun c =>
      c.Told n ∧ c.Settled n ∧ (c.chronicle n).name = some id where
  may _ _ _ := trivial
  store _ _ := False.elim
  exchange := by
    rintro c question _ ⟨told, settled, named⟩ starting _ _ _
    cases question with
    | newWorker name =>
      have told' : (c.exchange k (.newWorker name) (c.reaction w (.newWorker name))).Told n :=
        told.exchange (fun _ _ _ => rfl) fun _ _ _ => rfl
      have asks := runs_untold (n := n) (c := c) (d := c.note k (.asks (.newWorker name))) rfl fun _ _ _ => rfl
      have hears := runs_untold (n := n) (c := c.note k (.asks (.newWorker name)))
        (d := c.exchange k (.newWorker name) (c.reaction w (.newWorker name))) rfl fun _ _ _ => rfl
      refine ⟨told'.accounted, told', settled.of_same (hears.trans asks), ?_⟩
      have asked := name_unnamed (n := n) (c := c) (d := c.note k (.asks (.newWorker name))) rfl fun _ => rfl
      have heard := name_unnamed (n := n) (c := c.note k (.asks (.newWorker name)))
        (d := c.exchange k (.newWorker name) (c.reaction w (.newWorker name))) rfl fun _ => rfl
      exact heard.trans (asked.trans named)
    | _ => exact starting.elim
  ask := by
    rintro c question rest took ⟨told, settled, named⟩ starting _ known
    cases question with
    | newWorker name =>
      have told' : (c.ask k (.newWorker name) (c.reaction w (.newWorker name)) rest).Told n :=
        told.ask (fun _ _ _ => rfl) rest
      refine ⟨told'.accounted, fun c' h known' inv still since found _ _ _ => ?_⟩
      have told'' : (c'.hear k (.newWorker name) (h.heard (c.reaction w (.newWorker name)).reply)).Told n :=
        (inv.told still).hear fun _ _ _ => rfl
      have own : (c.ask k (.newWorker name) (c.reaction w (.newWorker name)) rest).owner n = some k :=
        (Recorded.owner_snoc ..).trans took.2.2.1
      have asked := name_unnamed (n := n) (c := c)
        (d := c.ask k (.newWorker name) (c.reaction w (.newWorker name)) rest) rfl fun _ => rfl
      have kept := chronicle_since known'.2 known'.1 since own
      have asks := runs_untold (n := n) (c := c)
        (d := c.ask k (.newWorker name) (c.reaction w (.newWorker name)) rest) rfl fun _ _ _ => rfl
      have hears := runs_untold (n := n) (c := c')
        (d := c'.hear k (.newWorker name) (h.heard (c.reaction w (.newWorker name)).reply)) rfl fun _ _ _ => rfl
      refine ⟨told''.accounted, told'', settled.of_same (hears.trans (kept.2.trans asks)), ?_⟩
      have heard := name_unnamed (n := n) (c := c')
        (d := c'.hear k (.newWorker name) (h.heard (c.reaction w (.newWorker name)).reply)) rfl fun _ => rfl
      exact heard.trans (kept.1.trans (asked.trans named))
    | _ => exact starting.elim
  grant := by
    rintro c request reply c' _ told starting granted _ _
    cases request with
    | now | hasLoop => obtain ⟨_, rfl⟩ := granted; exact ⟨told.1.accounted, told⟩
    | _ => exact starting.elim
  wait := by
    rintro c request await read c' rest _ _ starting waits
    cases request with
    | now | hasLoop => exact waits.elim
    | _ => exact starting.elim

namespace Crew

/-- Whoever has taken the lock draws the name of the run. -/
theorem Took.draws (took : c.Took m n k) (told : c.Told n) (settled : c.Settled n) :
    (query .drawId).Keeps w (account ω m n) k (Ends (fun drawn c' => c'.Took m n k ∧ c'.Told n ∧ c'.Settled n ∧
      (c'.chronicle n).name = some (drawnId drawn)) fun c' => c'.Idles m n k ∧ c'.Told n) c := by
  have drawn : ∀ {c : Crew ω} {time : Float} {reply : Except Fault Nat} {c' : Crew ω}, c.owner n = some k →
      c'.log = c.log ++ [(time, k, .hears .drawId reply)] → ∀ d, reply = .ok d →
      (c'.chronicle n).name = some (drawnId d) := by
    rintro c time _ c' own log d rfl
    rw [chronicle_noted log, Chronicle.enter]
    simp only [chronicle_owner, own, if_true, Deed.names]
  have untold : ∀ reply, (Deed.hears .drawId reply).Untold := fun _ _ _ _ => rfl
  refine ⟨trivial, fun soon known => ?_, fun slow rest known => ?_⟩
  · have took' := ((Took.frame w m n k).exchange took trivial soon known.1).2
    have told' : (c.exchange k .drawId (c.reaction w .drawId)).Told n := told.exchange (fun _ _ _ => rfl) (untold _)
    refine ⟨told'.accounted, ?_⟩
    cases reply : (c.reaction w .drawId).reply with
    | error => exact ⟨took'.owns.idles, told'⟩
    | ok d =>
      have asks := runs_untold (n := n) (c := c) (d := c.note k (.asks .drawId)) rfl fun _ _ _ => rfl
      have hears := runs_untold (n := n) (c := c.note k (.asks .drawId)) (d := c.exchange k .drawId (c.reaction w .drawId))
        rfl (untold _)
      refine ⟨took', told', settled.of_same (hears.trans asks), drawn (c := c.note k (.asks .drawId)) ?_ rfl d reply⟩
      exact (Recorded.owner_snoc ..).trans took.2.2.1
  · have told' : (c.ask k .drawId (c.reaction w .drawId) rest).Told n := told.ask (fun _ _ _ => rfl) rest
    refine ⟨told'.accounted, fun c' h known' inv still since found asking known'' => ?_⟩
    have base := ((Took.frame w m n k).ask rest took trivial slow known.1).2
    have took' := (base c' h known'.1 known'.2 still since found asking known''.1).2
    have told'' : (c'.hear k .drawId (h.heard (c.reaction w .drawId).reply)).Told n := (inv.told still).hear (untold _)
    refine ⟨told''.accounted, ?_⟩
    have own : (c.ask k .drawId (c.reaction w .drawId) rest).owner n = some k :=
      (Recorded.owner_snoc ..).trans took.2.2.1
    have kept := (Regular.kept known'.2 known'.1 since known.1 own).1
    have unchanged := (chronicle_since known'.2 known'.1 since own).2
    have asks := runs_untold (n := n) (c := c) (d := c.ask k .drawId (c.reaction w .drawId) rest) rfl fun _ _ _ => rfl
    cases reply : h.heard (c.reaction w .drawId).reply with
    | error =>
      rw [reply] at took' told''
      exact ⟨took'.owns.idles, told''⟩
    | ok d =>
      rw [reply] at took' told''
      have hears := runs_untold (n := n) (c := c') (d := c'.hear k .drawId (.ok d)) rfl (untold _)
      exact ⟨took', told'', settled.of_same (hears.trans (unchanged.trans asks)), drawn (c := c') kept rfl d rfl⟩

end Crew

/-- Whoever works with a coordinator leaves all told of its runs. -/
theorem Coordinator.account_conduct (w : World ω) (m : Memory) (n : Nat) (k : Who) :
    Conduct w (account ω m n) n k (fun c => c.Idles m n k ∧ c.Told n) (fun c => c.Took m n k ∧ c.Told n ∧ c.Settled n)
      (fun id c => c.Took m n k ∧ c.Told n ∧ c.Settled n ∧ (c.chronicle n).name = some id) where
  patient :=
    ((Idles.frame w m n k).mono (fun _ => False.elim) (fun _ _ => False.elim) Remit.beside_of_patient).besides id
      (Told.patient w m n k _)
  acquire := by
    rintro c ⟨idles, told⟩ unlocked known
    have settled : c.Settled n := told.settled (.inl (idles.1.recorded.free unlocked))
    have told' : (c.store k (c.onRun n RunState.acquire)).Told n :=
      told.store idles.2 (fun _ => rfl) (fun _ _ tells => tells.of_same rfl rfl rfl rfl) fun _ => settled
    have settled' := settled.of_same (runs_untold (n := n) (c := c) (d := c.store k (c.onRun n RunState.acquire)) rfl
      fun _ _ _ => rfl)
    exact ⟨told'.accounted, (idles.acquire unlocked known.1).2, told', settled'⟩
  draw := fun ⟨took, told, settled⟩ => took.draws told settled
  prepare id :=
    ((Took.frame w m n k).mono (fun _ _ => trivial) (fun _ _ => False.elim) Remit.beside_of_starting).besides
      (R := account ω m n) (fun known => known) (Told.starting w m n k id)
  lapse := fun ⟨took, told, _⟩ => ⟨took.owns.idles, told⟩
  give := by
    rintro id c ⟨took, told, settled, _⟩ known
    have told' : (c.spawn k (.ingest n id)).Told n := told.spawn .ingest fun _ => settled
    exact ⟨told'.accounted, (took.give id known.1).2, told'⟩
  giveBack := by
    rintro id c ⟨took, told, settled, _⟩
    exact Concludes.release ⟨took.owns, told, settled⟩
  run := fun ⟨took, told, settled, named⟩ => took.owns.runStages told settled named
  note := by
    rintro c f ⟨idles, told⟩ keeps known
    have told' : (c.store k (c.memory.onCoordinator n f)).Told n :=
      told.store_beside idles.2 (fun x => (keeps x).2.2) fun x => (keeps x).1
    have idles' := (idles.note (fun x => (keeps x).1) (fun t plans => .inl ((keeps _).2.1 ▸ plans)) known.1).2
    exact ⟨told'.accounted, idles', told'⟩
  launch := by
    rintro c ⟨idles, told⟩ known
    have told' : (c.spawn k (.schedule n)).Told n := told.spawn .schedule nofun
    exact ⟨told'.accounted, (idles.launch known.1).2, told'⟩
  plan := by
    rintro c scheduler ⟨idles, told⟩ there known
    have told' : (c.store k (c.memory.onCoordinator n fun x => { x with scheduler })).Told n :=
      told.store_beside idles.2 (fun _ => rfl) fun _ => rfl
    exact ⟨told'.accounted, (idles.note (f := fun x => { x with scheduler }) (fun _ => rfl) (fun t plans => .inr (there t plans)) known.1).2,
      told'⟩
  planned := fun ⟨idles, _⟩ plans => idles.1.regular.schedulers _ _ plans

/-- Stopping the schedule is no part of the history. -/
theorem Coordinator.account_stops (m : Memory) (n : Nat) (k : Who) :
    MayStop (account ω m n) fun c => c.Idles m n k ∧ c.Told n := by
  rintro c t numbers ⟨idles, told⟩ schedules halts known
  have told' := told.halt numbers
  exact ⟨told'.accounted, (idles.stop schedules halts known.1).2, told'⟩

/-- Whoever calls a coordinator, and whoever carries out its runs, leaves all told of them. -/
theorem Coordinator.account_guards (w : World ω) (present : n < m.coordinators.length) :
    (account ω m n).Guards w (Coordinator.Caller n) where
  call _ accounted _ _ := accounted.call _
  pass _ accounted := ⟨⟨accounted.familiar.outside, accounted.familiar.staff⟩, accounted.tells, accounted.settled⟩
  drop := by
    intro c k h _ accounted still found fresh _ _
    exact ⟨((accounted.told still).close _).accounted, trivial⟩
  begin := by
    intro c k h known accounted still found fresh _ calls known'
    have told := accounted.told still
    have on := known.2.begins found known'.1
    have own : ∀ k h, c.hand? k = some h → h.origin.Known n k := told.familiar.staff
    have closes : ∀ {c : Crew ω} {result}, c.Told n → (account ω m n).Closes k result c :=
      fun told _ => ⟨(told.close _).accounted, trivial⟩
    have staff := told.familiar.staff.begin k h.origin
    have idles : (c.begin k h.origin).Idles m n k := on.idles present
    cases origin : h.origin with
    | caller program =>
      rw [origin] at idles staff
      have untold : (c.begin k (.caller program)).Told n := told.begin _
      exact ⟨untold.accounted, (account_conduct w m n k).caller (account_stops m n k) (fun idle => closes idle.2)
        (calls program origin) ⟨idles, untold⟩⟩
    | job work =>
      have kind := own k h found
      rw [origin] at kind
      cases kind with
      | @ingest j id =>
        have owns := known.2.begins_run known.1 found fresh origin known'.1
        rw [origin] at owns staff
        have told' : (c.begin (.job j) (.job (.ingest n id))).Told n := told.begin _
        have had : c.owner n = some (.job j) := ((known.2.hands _ h found).ingest n id origin).2 fresh
        have named : ((c.begin (.job j) (.job (.ingest n id))).chronicle n).name = some id := by
          rw [chronicle_noted (c := c) rfl, Chronicle.enter]
          simp only [chronicle_owner, had, if_true, Deed.names]
        have settled : c.Settled n := told.settled (.inr ⟨.job j, h, id, had, found, origin, fresh⟩)
        have settled' := settled.of_same (runs_untold (n := n) (c := c) (d := c.begin (.job j) (.job (.ingest n id))) rfl
          fun _ _ _ => rfl)
        refine ⟨told'.accounted, (owns.runStages told' settled' named).bind (fun _ _ after => closes after.2) fun _ _ after => ?_⟩
        exact closes after.2
      | @schedule j =>
        rw [origin] at idles staff
        have told' : (c.begin (.job j) (.job (.schedule n))).Told n := told.begin _
        have round := (account_conduct w m n (.job j)).scheduleRound ⟨idles, told'⟩
        exact ⟨told'.accounted, round.bind (fun _ _ after => closes after.2) fun _ _ after => closes after.2⟩

/-- What is kept of the runs of a coordinator says at every moment what its history is: the name of the run that
began last, its fault if it failed with one and nothing while it is under way or otherwise, and when the last run
that went through all stages was done and how long it took. The one exception is the midst of a turn of whoever
carries out a run. Once the lock is free, no run of the history is under way any more. -/
theorem Coordinator.history_told {w : World ω} {world : ω} {hasLoop : Bool} {a : Shift ω} (resting : m.Resting)
    (present : n < m.coordinators.length) (outside : (m.coordinator n).stages = .outside)
    (untold : (m.coordinator n).run.Tells []) (reach : Shift.Reach w (Coordinator.Caller n) m world hasLoop a)
    (aside : ∀ k p, a.turn = some (k, p) → a.crew.owner n ≠ some k) :
    (a.crew.memory.coordinator n).run.Tells (a.crew.chronicle n).runs ∧
      ((a.crew.memory.coordinator n).run.locked = false → ∀ r ∈ (a.crew.chronicle n).runs, r.fate ≠ .underway) := by
  have known : ∀ {a}, Shift.Reach w (Coordinator.Caller n) m world hasLoop a → a.crew.Recorded m ∧ a.crew.Regular :=
    fun reach => ⟨reach.recorded resting.unlocked, reach.regular (fun calls on => calls.orderly present on) resting⟩
  have initially : (Crew.start m world hasLoop).Accounted n :=
    ⟨⟨outside, .start m world hasLoop⟩, fun _ => untold, fun _ => nofun⟩
  have accounted := (reach.sound (account_guards w present) known initially).holds
  refine ⟨accounted.tells fun k h own found runs => ?_, fun unlocked => ?_⟩
  · obtain ⟨p, turn⟩ := reach.proper.alone k h found runs
    exact aside k p turn own
  · exact accounted.settled (.inl ((known reach).1.free unlocked))

/-- Surroundings in which a snapshot takes a second, and the graph can be built from the first one alone. -/
def World.faltering : World Nat where
  answer
    | .drawId, _, drawn => ⟨drawn, 0, .ok drawn⟩
    | .fetchSnapshot _, _, fetched => ⟨fetched + 1, 1, .ok (some { (default : Snapshot) with methods := [default] })⟩
    | .perform .build, _, fetched =>
      ⟨fetched, 0, if fetched = 1 then .ok () else .error (.foreign .connection (some "refused"))⟩
    | .perform _, _, fetched => ⟨fetched, 0, .ok ()⟩
    | _, _, fetched => ⟨fetched, 0, .error .cancelled⟩

/-- A run that completes, and then one that fails and leaves the times of the first. -/
theorem Coordinator.history_told_faltering : ∃ a, Shift.Reach World.faltering (Caller 0) .coordinated 0 true a ∧
    a.turn = none ∧ (a.crew.chronicle 0).runs.map Run.start = [0, 1] ∧
    (a.crew.memory.coordinator 0).run.lastError = some "build_graph: refused" ∧
    (a.crew.memory.coordinator 0).run.finishedAt = some 1 ∧
    (a.crew.memory.coordinator 0).run.Tells (a.crew.chronicle 0).runs ∧
    ((a.crew.memory.coordinator 0).run.locked = false → ∀ r ∈ (a.crew.chronicle 0).runs, r.fate ≠ .underway) := by
  have caller : Caller 0 ((runPipeline 0).andThen fun _ => (runPipeline 0).andThen fun _ => .done (.ok .nothing)) :=
    .runPipeline fun _ => .runPipeline fun _ => .done
  have soon : ¬(0 : Float) < 0 := by decide
  have slow : (0 : Float) < 1 := by decide
  have first : (1 : Float) = 0 + 1 := by decide
  have second : (2 : Float) = 1 + 1 := by decide +kernel
  have r : Shift.Reach World.faltering (Caller 0) .coordinated 0 true _ := .next .start (.call caller)
  have r := r.next (.begin (k := .caller 0) (h := .new (.caller _) none) rfl rfl rfl)
  have r := ((r.next .look).next .look).next .store
  have r := r.next (.exchange soon)
  have r := r.next (.grant ⟨rfl, rfl⟩)
  have r := (r.next .look).next .store
  have r := ((r.next .look).next .look).next .store
  have r := r.next (.ask slow)
  have r := r.next (.pass 1)
  have r := r.next (.hear (k := .caller 0) rfl rfl fun _ => first)
  have r := (r.next .look).next .store
  have r := r.next (.exchange soon)
  have r := (r.next .look).next .store
  have r := r.next (.exchange soon)
  have r := (r.next .look).next .store
  have r := r.next (.exchange soon)
  have r := r.next (.grant ⟨rfl, rfl⟩)
  have r := (r.next .look).next .store
  have r := (r.next .look).next .store
  have r := ((r.next .look).next .look).next .store
  have r := r.next (.exchange soon)
  have r := r.next (.grant ⟨rfl, rfl⟩)
  have r := (r.next .look).next .store
  have r := ((r.next .look).next .look).next .store
  have r := r.next (.ask slow)
  have r := r.next (.pass 2)
  have r := r.next (.hear (k := .caller 0) rfl rfl fun _ => second)
  have r := (r.next .look).next .store
  have r := r.next (.exchange soon)
  have r := (r.next .look).next .store
  have r := (r.next .look).next .store
  have r := r.next .close
  refine ⟨_, r, rfl, by decide, by decide +kernel, by decide, ?_⟩
  have untold : (Memory.coordinated.coordinator 0).run.Tells [] := ⟨rfl, rfl, rfl, rfl⟩
  exact history_told Memory.coordinated_resting (by decide) rfl untold r nofun

end CodeAtlas
