import CodeAtlas.Proofs.Retrieval.Sound

namespace CodeAtlas

/-- The query cannot be embedded, or one of the two searches for its vector fails. -/
inductive SearchFails (s : FunnelSettings) (sources : Sources) (query : Value) : List Event → Prop
  | embedding {log fault} : fault.ordinary → (sources.embed query).Runs log (.error fault) →
      SearchFails s sources query log
  | searching {log part vector kind fault} : fault.ordinary → (sources.embed query).Runs log (.ok vector) →
      (sources.search.find vector s.searchLimit s.threshold kind).Runs part (.error fault) →
      SearchFails s sources query (log ++
        [.granted (.gather .unlimited [searchFor s sources vector .classes, searchFor s sources vector .methods])
          (.error fault)])

/-- The question that the language model is asked about the entities of a population. -/
def promptFor (s : FunnelSettings) (query : Value) (classes : List ClassEntity) (methods : List MethodEntity) :
    Except Fault String := do
  let classText ← listClasses s classes
  let methodText ← listMethods s methods
  return selectionPrompt s query classText methodText

/-- What is selected in the end: nothing after an ordinary fault. -/
def recovered : Except Fault Selection → Except Fault Selection
  | .ok selection => .ok selection
  | .error fault => if fault.ordinary then .ok .empty else .error fault

/-- The language model is asked about a population, and its answer is read. -/
inductive Asks (s : FunnelSettings) (sources : Sources) (query : Value) (classes : List ClassEntity)
    (methods : List MethodEntity) : List Event → Except Fault Selection → Prop
  | unlisted {fault} : promptFor s query classes methods = .error fault →
      Asks s sources query classes methods [] (recovered (.error fault))
  | asked {prompt log reply} : promptFor s query classes methods = .ok prompt →
      (sources.complete prompt).Runs log reply →
      Asks s sources query classes methods log (recovered (reply.bind Selection.ofAnswer))

/-- The populations are read, the classes first. -/
inductive Reads (sources : Sources) : List Event → List ClassEntity → List MethodEntity → Prop
  | both {first second classes methods} : sources.classes.Runs first (.ok classes) →
      sources.methods.Runs second (.ok methods) → Reads sources (first ++ second) classes methods

/-- One of the populations cannot be read. -/
inductive ReadFails (sources : Sources) : List Event → Prop
  | classes {log fault} : fault.ordinary → sources.classes.Runs log (.error fault) → ReadFails sources log
  | methods {first second classes fault} : fault.ordinary → sources.classes.Runs first (.ok classes) →
      sources.methods.Runs second (.error fault) → ReadFails sources (first ++ second)

/-- The part of the populations that the language model is asked about. -/
inductive Keeps (s : FunnelSettings) (sources : Sources) (query : Value) (classes : List ClassEntity)
    (methods : List MethodEntity) : List Event → List ClassEntity → List MethodEntity → Prop
  | all : s.prefiltering.truthy = false → Keeps s sources query classes methods [] classes methods
  | close {log p} : s.prefiltering.truthy → (prefilter s sources query classes methods).Runs log (.ok p) →
      Keeps s sources query classes methods log p.classes p.methods

variable {s : FunnelSettings} {sources : Sources} {query : Value} {classes : List ClassEntity}
  {methods : List MethodEntity} {log rest : List Event} {fault : Fault}

theorem runs_searchBoth_error {vector : Value} {kind : Kind} {part : List Event}
    (fails : (sources.search.find vector s.searchLimit s.threshold kind).Runs part (.error fault)) :
    (searchBoth s sources vector).Runs
      [.granted (.gather .unlimited [searchFor s sources vector .classes, searchFor s sources vector .methods])
        (.error fault)] (.error fault) := by
  have raises : (searchFor s sources vector kind).routine.Runs part (.error fault) := fails.bind_error _
  have one : searchFor s sources vector kind ∈ [searchFor s sources vector .classes, searchFor s sources vector .methods] := by
    cases kind <;> simp
  exact .control (.raised one raises) .done

/-- When the search fails, pre-filtering ends with it and leaves everything as it is. -/
theorem SearchFails.runs_iff (fails : SearchFails s sources query log) {result : Except Fault Prefiltered} :
    (prefilter s sources query classes methods).Runs log result ↔ result = .ok (.everything classes methods) := by
  have ends : (prefilter s sources query classes methods).Runs (log ++ []) result ↔
      ([] : List Event) = [] ∧ result = .ok (.everything classes methods) := by
    cases fails with
    | embedding ordinary embeds => exact (embeds.rescue_bind_error_iff ordinary).trans Routine.runs_done
    | searching ordinary embeds fails =>
      rw [List.append_assoc]
      refine embeds.rescue_bind_iff.trans ?_
      exact ((runs_searchBoth_error fails).rescue_bind_error_iff ordinary).trans Routine.runs_done
  simpa only [List.append_nil, true_and] using ends

theorem rescue_done (result : Except Fault Selection) :
    ((Routine.done result).rescue fun _ => return .empty) = .done (recovered result) := by
  cases result with
  | ok => rfl
  | error fault =>
    simp only [Routine.rescue, Routine.andThen, recovered]
    split <;> rfl

/-- Selecting by the language model is to put one question and to read the answer. -/
theorem selectByModel_eq (s : FunnelSettings) (sources : Sources) (query : Value) (classes : List ClassEntity)
    (methods : List MethodEntity) :
    selectByModel s sources query classes methods =
      match promptFor s query classes methods with
      | .ok prompt => (sources.complete prompt).andThen fun reply => .done (reply.bind Selection.ofAnswer)
      | .error fault => .done (.error fault) := by
  unfold selectByModel promptFor
  cases listClasses s classes with
  | error => rfl
  | ok classText =>
    cases listMethods s methods with
    | error => rfl
    | ok methodText =>
      change (sources.complete _).andThen _ = _
      refine congrArg (Routine.andThen _) (funext fun reply => ?_)
      cases reply <;> rfl

theorem runs_selectByModel {result : Except Fault Selection} :
    ((selectByModel s sources query classes methods).rescue fun _ => return .empty).Runs log result ↔
      Asks s sources query classes methods log result := by
  rw [selectByModel_eq]
  cases listed : promptFor s query classes methods with
  | error fault =>
    rw [rescue_done, Routine.runs_done]
    constructor
    · rintro ⟨rfl, rfl⟩
      exact .unlisted listed
    · rintro (failed | listed')
      · cases listed.symm.trans failed
        exact ⟨rfl, rfl⟩
      · cases listed.symm.trans listed'
  | ok prompt =>
    rw [Routine.rescue, Routine.andThen_assoc, Routine.runs_andThen]
    constructor
    · rintro ⟨before, after, reply, rfl, first, second⟩
      rw [← Routine.rescue, rescue_done] at second
      obtain ⟨rfl, rfl⟩ := Routine.runs_done.mp second
      rw [List.append_nil]
      exact .asked listed first
    · rintro (failed | @⟨_, _, reply, listed', first⟩)
      · cases listed.symm.trans failed
      · cases listed.symm.trans listed'
        refine ⟨_, [], _, (List.append_nil _).symm, first, ?_⟩
        rw [← Routine.rescue, rescue_done]
        exact .done

theorem isBlankQuery_text (q : String) : isBlankQuery (.str q) = .ok (strip q).isEmpty := by
  by_cases empty : q = ""
  · subst empty
    rfl
  · simp [isBlankQuery, Value.truthy, Value.text, empty, bind, Except.bind, pure, Except.pure]

section

variable {q : String} {read filtering : List Event} {keptClasses : List ClassEntity} {keptMethods : List MethodEntity}

theorem analyzeEntities_eq (s : FunnelSettings) (sources : Sources) (given : (strip q).isEmpty = false) :
    analyzeEntities s sources (.str q) = Routine.rescue (do
      let classes ← sources.classes
      let methods ← sources.methods
      if s.prefiltering.truthy then
        let p ← prefilter s sources (.str q) classes methods
        selectByModel s sources (.str q) p.classes p.methods
      else selectByModel s sources (.str q) classes methods) fun _ => return .empty := by
  rw [analyzeEntities, isBlankQuery_text, given]
  rfl

/-- Once the populations are read and narrowed, the analysis is what the language model is asked. -/
theorem Keeps.runs_iff (given : (strip q).isEmpty = false) (reads : Reads sources read classes methods)
    (keeps : Keeps s sources (.str q) classes methods filtering keptClasses keptMethods)
    {result : Except Fault Selection} :
    (analyzeEntities s sources (.str q)).Runs (read ++ (filtering ++ rest)) result ↔
      Asks s sources (.str q) keptClasses keptMethods rest result := by
  obtain ⟨first, second⟩ := reads
  rw [analyzeEntities_eq s sources given, List.append_assoc, first.rescue_bind_iff, second.rescue_bind_iff]
  cases keeps with
  | all off =>
    simp only [off]
    exact runs_selectByModel
  | close on narrows =>
    simp only [on, if_true]
    exact narrows.rescue_bind_iff.trans runs_selectByModel

/-- A population that cannot be read ends the analysis with nothing selected. -/
theorem ReadFails.runs_iff (given : (strip q).isEmpty = false) (fails : ReadFails sources log)
    {result : Except Fault Selection} :
    (analyzeEntities s sources (.str q)).Runs (log ++ rest) result ↔ rest = [] ∧ result = .ok .empty := by
  rw [analyzeEntities_eq s sources given]
  cases fails with
  | classes ordinary first => exact (first.rescue_bind_error_iff ordinary).trans Routine.runs_done
  | methods ordinary first second =>
    rw [List.append_assoc, first.rescue_bind_iff]
    exact (second.rescue_bind_error_iff ordinary).trans Routine.runs_done

end

/-- What the analysis of a query comes to when something fails on its way. -/
structure Degrades (s : FunnelSettings) (sources : Sources) (q : String) : Prop where
  /-- A search that fails leaves the whole population. -/
  everything : ∀ {classes methods failing result}, SearchFails s sources (.str q) failing →
    ((prefilter s sources (.str q) classes methods).Runs failing result ↔
      result = .ok
        { classes, methods, givenClasses := classes.length, givenMethods := methods.length, reduction := 0.0,
          unmatched := 0, fallback := true })
  /-- After it the language model is asked what it is asked without a search, and the answer is read
  alike. -/
  same : ∀ {off read failing rest classes methods result}, (strip q).isEmpty = false → s.prefiltering.truthy →
    off.truthy = false → Reads sources read classes methods → SearchFails s sources (.str q) failing →
    ((analyzeEntities s sources (.str q)).Runs (read ++ (failing ++ rest)) result ↔
        Asks s sources (.str q) classes methods rest result) ∧
      ((analyzeEntities { s with prefiltering := off } sources (.str q)).Runs (read ++ rest) result ↔
        Asks s sources (.str q) classes methods rest result)
  /-- Whatever happens, the analysis comes to its end, and something is selected unless it is stopped from
  outside. -/
  ends : ∀ c : Conduct, ∃ log result, c.Follows [] log ∧ (analyzeEntities s sources (.str q)).Runs log result
  returns : ∀ {log result}, (analyzeEntities s sources (.str q)).Runs log result →
    (∃ selection, result = .ok selection) ∨ ∃ fault, result = .error fault ∧ fault.ordinary = false
  unread : ∀ {log rest result}, (strip q).isEmpty = false → ReadFails sources log →
    ((analyzeEntities s sources (.str q)).Runs (log ++ rest) result ↔ rest = [] ∧ result = .ok .empty)
  unanswered : ∀ {read filtering asking classes methods keptClasses keptMethods prompt fault result},
    (strip q).isEmpty = false → Reads sources read classes methods →
    Keeps s sources (.str q) classes methods filtering keptClasses keptMethods →
    promptFor s (.str q) keptClasses keptMethods = .ok prompt →
    (sources.complete prompt).Runs asking (.error fault) → fault.ordinary →
    ((analyzeEntities s sources (.str q)).Runs (read ++ (filtering ++ asking)) result ↔ result = .ok .empty)
  /-- A blank query is not looked into at all. -/
  blank : ∀ {log result}, (strip q).isEmpty →
    ((analyzeEntities s sources (.str q)).Runs log result ↔ log = [] ∧ result = .ok .empty)

theorem Asks.switched {off : Value} {result : Except Fault Selection} :
    Asks { s with prefiltering := off } sources query classes methods log result ↔
      Asks s sources query classes methods log result := by
  constructor
  · rintro (failed | ⟨listed, answers⟩)
    · exact .unlisted failed
    · exact .asked listed answers
  · rintro (failed | ⟨listed, answers⟩)
    · exact .unlisted failed
    · exact .asked listed answers

/-- Nothing is selected when the language model does not answer. -/
theorem Asks.raised_iff {prompt : String} {result : Except Fault Selection}
    (listed : promptFor s query classes methods = .ok prompt)
    (raises : (sources.complete prompt).Runs log (.error fault)) (ordinary : fault.ordinary) :
    Asks s sources query classes methods log result ↔ result = .ok .empty := by
  have empty : recovered ((Except.error fault : Except Fault Value).bind Selection.ofAnswer) = .ok .empty := by
    simp only [Except.bind, recovered, ordinary, if_true]
  constructor
  · rintro (failed | ⟨listed', answers⟩)
    · cases listed.symm.trans failed
    · cases listed.symm.trans listed'
      rw [← raises.same_result answers]
      exact empty
  · rintro rfl
    exact empty ▸ .asked listed raises

/-- Pre-filtering that fails is as good as none, nothing is raised, and nothing is selected where there is
nothing to go by. -/
theorem analyzeEntities_degrades (s : FunnelSettings) (sources : Sources) (q : String) : Degrades s sources q where
  everything fails := fails.runs_iff
  same given on off reads fails := by
    constructor
    · exact (Keeps.close on (fails.runs_iff.mpr rfl)).runs_iff given reads
    · exact Iff.trans (Keeps.runs_iff given reads (.all off)) Asks.switched
  ends c := Routine.runs_under c [] _
  returns runs := runs.rescued fun ends => ⟨_, (Routine.runs_done.mp ends).2⟩
  unread given fails := fails.runs_iff given
  unanswered given reads keeps listed raises ordinary := by
    rw [keeps.runs_iff given reads]
    exact Asks.raised_iff listed raises ordinary
  blank empty := by
    rw [analyzeEntities, isBlankQuery_text, empty]
    exact Routine.runs_done

end CodeAtlas
