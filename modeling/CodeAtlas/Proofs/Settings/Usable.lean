import CodeAtlas.Facade
import CodeAtlas.Proofs.Storage.Names
import CodeAtlas.Proofs.Keys
import CodeAtlas.Proofs.Turns.Regime

namespace CodeAtlas

theorem atLeastOne_eq_ok {field : String} {v : Value} : atLeastOne field v = .ok () ↔ Value.compare .below v (.int 1) = .ok false := by
  unfold atLeastOne
  cases Value.compare .below v (.int 1) with
  | error => simp [bind, Except.bind]
  | ok below => cases below <;> simp [bind, Except.bind]

namespace Section

variable {σ : Type} {c : Section σ} {env : Environment} {given : List (Value × Value)} {x y : σ}

theorem checked_of_build (built : c.build env given = .ok y) : c.check y = .ok () := by
  obtain ⟨_, _, built⟩ := exists_of_bind_ok built
  obtain ⟨filled, _, built⟩ := exists_of_bind_ok built
  obtain ⟨_, checked, built⟩ := exists_of_bind_ok built
  cases built
  exact checked

theorem checked_of_replace (replaced : c.replace x given = .ok y) : c.check y = .ok () := by
  obtain ⟨_, _, replaced⟩ := exists_of_bind_ok replaced
  obtain ⟨filled, _, replaced⟩ := exists_of_bind_ok replaced
  obtain ⟨_, checked, replaced⟩ := exists_of_bind_ok replaced
  cases replaced
  exact checked

end Section

namespace Settings

variable {env : Environment} {s t : Settings}

theorem ofEnvironment_checked (made : ofEnvironment env = .ok s) : s.ingestion.check = .ok () := by
  obtain ⟨_, _, made⟩ := exists_of_bind_ok made
  obtain ⟨_, _, made⟩ := exists_of_bind_ok made
  obtain ⟨_, _, made⟩ := exists_of_bind_ok made
  obtain ⟨ingestion, built, made⟩ := exists_of_bind_ok made
  obtain ⟨_, _, made⟩ := exists_of_bind_ok made
  obtain ⟨_, _, made⟩ := exists_of_bind_ok made
  cases made
  exact Section.checked_of_build built

theorem replace_checked {name : SectionName} {given : List (Value × Value)} (checked : s.ingestion.check = .ok ())
    (replaced : s.replace name given = .ok t) : t.ingestion.check = .ok () := by
  cases name with
  | ingestion =>
    obtain ⟨x, done, rfl⟩ := exists_of_map_ok replaced
    exact Section.checked_of_replace done
  | graph | vectors | funnel | completion | embedding =>
    obtain ⟨x, _, rfl⟩ := exists_of_map_ok replaced
    exact checked

theorem overlay_checked {sections : List (Value × Value)} (checked : s.ingestion.check = .ok ())
    (laid : s.overlay sections = .ok t) : t.ingestion.check = .ok () := by
  induction sections generalizing s with
  | nil => cases laid; exact checked
  | cons entry rest ih =>
    obtain ⟨k, v⟩ := entry
    rw [overlay] at laid
    split at laid
    · cases laid
    next =>
      split at laid
      · exact ih checked laid
      next =>
        split at laid
        next replaced => exact ih (replace_checked checked replaced) laid
        · cases laid
      · cases laid

/-- Whatever is laid over the settings, the ingestion passes its check. -/
theorem ofData_checked {data : Value} (made : ofData env data = .ok s) : s.ingestion.check = .ok () := by
  obtain ⟨base, plain, made⟩ := exists_of_bind_ok made
  split at made
  · exact overlay_checked (ofEnvironment_checked plain) made
  · cases made

end Settings

/-- The numbers of an ingestion that passes its check are not below one. -/
structure IngestionSettings.Counted (s : IngestionSettings) : Prop where
  concurrency : Value.compare .below s.concurrency (.int 1) = .ok false
  batchSize : Value.compare .below s.batchSize (.int 1) = .ok false
  graphBatchSize : Value.compare .below s.graphBatchSize (.int 1) = .ok false
  maxPolls : Value.compare .below s.maxPolls (.int 1) = .ok false

theorem IngestionSettings.counted {s : IngestionSettings} (checked : s.check = .ok ()) : s.Counted := by
  unfold check at checked
  cases given : s.endpoint.truthy with
  | false =>
    rw [given] at checked
    cases checked
  | true =>
    rw [given] at checked
    obtain ⟨never, _, checked⟩ := exists_of_bind_ok checked
    cases never with
    | true => cases checked
    | false =>
      obtain ⟨_, concurrency, checked⟩ := exists_of_bind_ok checked
      obtain ⟨_, batchSize, checked⟩ := exists_of_bind_ok checked
      obtain ⟨_, graphBatchSize, maxPolls⟩ := exists_of_bind_ok checked
      exact ⟨atLeastOne_eq_ok.mp concurrency, atLeastOne_eq_ok.mp batchSize, atLeastOne_eq_ok.mp graphBatchSize,
        atLeastOne_eq_ok.mp maxPolls⟩

/-- What the checks of the settings let through, and a part of the graph refuses: a time between polls below zero,
a source root that is no text, and a number of texts that cannot be read, unless there is a service already. -/
structure Settings.Usable (s : Settings) (shared : Bool) : Prop where
  pollInterval : Value.compare .below s.ingestion.pollInterval (.int 0) = .ok false
  sourceRoot : s.ingestion.sourceRoot.truthy = true → s.ingestion.sourceRoot.IsText
  batchSize : shared = false → ∃ n, readInt s.embedding.batchSize.display = .ok n

theorem PollingSettings.check_eq_ok {s : PollingSettings} (counted : Value.compare .below s.maxPolls (.int 1) = .ok false) :
    s.check = .ok () ↔ Value.compare .below s.pollInterval (.int 0) = .ok false := by
  have first : atLeastOne "max_poll_attempts" s.maxPolls = .ok () := atLeastOne_eq_ok.mpr counted
  simp only [check, first]
  cases Value.compare .below s.pollInterval (.int 0) with
  | error => simp [bind, Except.bind]
  | ok below => cases below <;> simp [bind, Except.bind, throw, throwThe, MonadExceptOf.throw, pure, Except.pure]

theorem sourceRootOf_ok_iff {v : Value} : (∃ root, sourceRootOf v = .ok root) ↔ (v.truthy = true → v.IsText) := by
  unfold sourceRootOf
  cases given : v.truthy with
  | false => simp
  | true => cases v <;> simp [Value.IsText]

theorem Permits.ofValue_ok {v : Value} (counted : Value.compare .below v (.int 1) = .ok false) : ∃ permits, ofValue v = .ok permits := by
  have first : atLeastOne "max_concurrent" v = .ok () := atLeastOne_eq_ok.mpr counted
  simp only [ofValue, first]
  cases v.magnitude? with
  | none => exact ⟨_, rfl⟩
  | some x => cases x <;> exact ⟨_, rfl⟩

namespace Facade

theorem newPipeline_ok_iff {s : IngestionSettings} (counted : s.Counted) (graph index embedding completion : Nat) :
    (∃ p, newPipeline s graph index embedding completion = .ok p) ↔
      Value.compare .below s.pollInterval (.int 0) = .ok false ∧ (s.sourceRoot.truthy = true → s.sourceRoot.IsText) := by
  let polling : PollingSettings := ⟨.float 30.0, s.pollInterval, s.maxPolls⟩
  have built : pollingSection.build ⟨[]⟩ [(.str "poll_interval_seconds", s.pollInterval), (.str "max_poll_attempts", s.maxPolls)] =
      polling.check.bind fun _ => .ok polling := rfl
  have sized : atLeastOne "batch_size" s.graphBatchSize = .ok () := atLeastOne_eq_ok.mpr counted.graphBatchSize
  obtain ⟨permits, given⟩ := Permits.ofValue_ok counted.concurrency
  rw [← sourceRootOf_ok_iff, ← PollingSettings.check_eq_ok (s := polling) counted.maxPolls]
  simp only [newPipeline, built, sized, given]
  cases polling.check with
  | error => simp [bind, Except.bind]
  | ok => cases sourceRootOf s.sourceRoot <;> simp [bind, Except.bind, pure, Except.pure]

end Facade

theorem EmbeddingService.configure_ok_iff {env : Environment} (unset : env.get? "EMBEDDING_BATCH_SIZE" = none)
    (accelerated : Bool) (o : EmbeddingOptions) :
    (∃ service, configure env accelerated o = .ok service) ↔ ∃ n, readInt o.batchSize.display = .ok n := by
  simp only [configure, unset, Option.getD_none]
  cases readInt o.batchSize.display <;> simp [bind, Except.bind, pure, Except.pure]

end CodeAtlas
