import CodeAtlas.Proofs.Retrieval.Cap
import CodeAtlas.Proofs.Turns.Runs

namespace CodeAtlas

variable {s : FunnelSettings} {sources : Sources} {query : Value} {classes : List ClassEntity}
  {methods : List MethodEntity} {classMatches methodMatches : List Match} {log : List Event}

/-- The search for one kind. -/
def searchFor (s : FunnelSettings) (sources : Sources) (vector : Value) (kind : Kind) : Job :=
  .search sources.search vector s.searchLimit s.threshold kind

/-- The query is embedded, and the searches of both kinds, beside each other, find these matches. -/
inductive SearchFinds (s : FunnelSettings) (sources : Sources) (query : Value) :
    List Match → List Match → List Event → Prop
  | both {vector log classLog methodLog classMatches methodMatches} : (sources.embed query).Runs log (.ok vector) →
      (sources.search.find vector s.searchLimit s.threshold .classes).Runs classLog (.ok classMatches) →
      (sources.search.find vector s.searchLimit s.threshold .methods).Runs methodLog (.ok methodMatches) →
      SearchFinds s sources query classMatches methodMatches (log ++
        [.granted (.gather .unlimited [searchFor s sources vector .classes, searchFor s sources vector .methods])
          (.ok [.hits classMatches, .hits methodMatches])])

theorem runs_search {source : SearchSource} {vector limit threshold : Value} {kind : Kind} {yielded : Yield} :
    (Job.search source vector limit threshold kind).routine.Runs log (.ok yielded) ↔
      ∃ found, (source.find vector limit threshold kind).Runs log (.ok found) ∧ yielded = .hits found := by
  constructor
  · intro runs
    obtain ⟨before, after, found, rfl, first, second⟩ := Routine.runs_bind_ok.mp runs
    obtain ⟨rfl, same⟩ := Routine.runs_done.mp second
    cases same
    exact ⟨found, by rwa [List.append_nil], rfl⟩
  · rintro ⟨found, first, rfl⟩
    have runs := first.bind (f := fun found => pure (Yield.hits found)) .done
    rwa [List.append_nil] at runs

theorem SearchFinds.of_runs {vector : Value} {before after : List Event}
    (embeds : (sources.embed query).Runs before (.ok vector))
    (runs : (searchBoth s sources vector).Runs after (.ok (classMatches, methodMatches))) :
    SearchFinds s sources query classMatches methodMatches (before ++ after) := by
  cases runs with
  | @control _ _ _ reply rest _ answers runs =>
    cases answers with
    | alone other => exact absurd rfl (other _ _)
    | raised => cases runs
    | stopped => cases runs
    | @gathered _ _ left logs length each =>
      match left, length with
      | [first, second], _ =>
        obtain ⟨found, runsFound, rfl⟩ := runs_search.mp (each 0 _ _ rfl rfl)
        obtain ⟨found', runsFound', rfl⟩ := runs_search.mp (each 1 _ _ rfl rfl)
        obtain ⟨rfl, same⟩ := Routine.runs_done.mp runs
        cases same
        exact .both embeds runsFound runsFound'

/-- With what is found, pre-filtering is the selection, rescued where that fails. -/
theorem SearchFinds.rescues {result : Except Fault Prefiltered}
    (finds : SearchFinds s sources query classMatches methodMatches log)
    (rescued : ((Routine.ofExcept (selectEntities s classes methods classMatches methodMatches)).rescue fun _ =>
      return .everything classes methods).Runs [] result) :
    (prefilter s sources query classes methods).Runs log result := by
  cases finds with
  | @both vector before classLog methodLog _ _ embeds finds finds' =>
    let logs (i : Nat) : List Event := if i = 0 then classLog else methodLog
    refine embeds.rescue_bind_iff.mpr (.control (@Control.Answers.gathered _ _ _ logs rfl ?_) rescued)
    intro i job yielded at_i left_i
    match i with
    | 0 =>
      cases at_i
      cases left_i
      exact runs_search.mpr ⟨_, finds, rfl⟩
    | 1 =>
      cases at_i
      cases left_i
      exact runs_search.mpr ⟨_, finds', rfl⟩
    | i + 2 => cases at_i

/-- With what is found, pre-filtering does what the selection says. -/
theorem SearchFinds.runs {p : Prefiltered} (finds : SearchFinds s sources query classMatches methodMatches log)
    (selects : selectEntities s classes methods classMatches methodMatches = .ok p) :
    (prefilter s sources query classes methods).Runs log (.ok p) :=
  finds.rescues (by rw [selects]; exact .done)

/-- Where the selection fails, everything stays. -/
theorem SearchFinds.runs_everything {fault : Fault} (finds : SearchFinds s sources query classMatches methodMatches log)
    (fails : selectEntities s classes methods classMatches methodMatches = .error fault) (ordinary : fault.ordinary) :
    (prefilter s sources query classes methods).Runs log (.ok (.everything classes methods)) := by
  refine finds.rescues ?_
  rw [fails]
  simp only [Routine.rescue, Routine.ofExcept, Routine.andThen, ordinary, if_true]
  exact .done

theorem rankAndCap_within {hits top : List Match} {cap : Int} (positive : 0 ≤ cap)
    (best : rankAndCap hits (.int cap) = .ok top) : top.length ≤ cap ∧ ∀ m ∈ top, m ∈ hits := by
  cases ranks : rank hits with
  | error fault => simp [rankAndCap, ranks, bind, Except.bind] at best
  | ok ranked =>
    rw [rankAndCap_of_rank ranks positive] at best
    cases best
    refine ⟨?_, fun m inside => (rank_perm ranks).mem_iff.mp (List.mem_of_mem_take inside)⟩
    have shorter := List.length_take_le cap.toNat ranked
    omega

namespace Resolves

variable {ε : Type} {nameOf : ε → Value} {hits : List Match} {population found : List ε}

theorem length_le_hits (resolves : Resolves nameOf hits population found) : found.length ≤ hits.length :=
  (length_of_mapped resolves.nodup resolves.finds).1

theorem length_le_population (resolves : Resolves nameOf hits population found) : found.length ≤ population.length := by
  refine (List.subperm_of_subset resolves.nodup fun e inside => ?_).length_le
  exact List.mem_of_find?_eq_some (resolves.first inside)

/-- A member that is found has a match under its name. -/
theorem named (resolves : Resolves nameOf hits population found) {e : ε} (inside : e ∈ found) :
    ∃ m ∈ hits, (nameOf e).same m.name := by
  obtain ⟨m, hit, first⟩ := (resolves.finds e).mp inside
  exact ⟨m, hit, List.find?_some (p := fun e => (nameOf e).same m.name) first⟩

end Resolves

/-- What is selected is what all matches name, or what the best of them name when that is too much. -/
inductive Selects (cap : Int) (classes : List ClassEntity) (methods : List MethodEntity)
    (classMatches methodMatches : List Match) : Prefiltered → Prop
  | all {foundClasses foundMethods unmatched} :
      Resolves ClassEntity.name classMatches classes foundClasses →
      Resolves MethodEntity.name methodMatches methods foundMethods →
      (foundClasses.length + foundMethods.length : Nat) ≤ cap →
      Selects cap classes methods classMatches methodMatches (.ofFound classes methods foundClasses foundMethods unmatched)
  | best {foundClasses foundMethods top topClasses topMethods unmatched} :
      Resolves ClassEntity.name classMatches classes foundClasses →
      Resolves MethodEntity.name methodMatches methods foundMethods →
      cap < (foundClasses.length + foundMethods.length : Nat) →
      rankAndCap (classMatches ++ methodMatches) (.int cap) = .ok top →
      Resolves ClassEntity.name (partitionByKind top).1 classes topClasses →
      Resolves MethodEntity.name (partitionByKind top).2 methods topMethods →
      Selects cap classes methods classMatches methodMatches (.ofFound classes methods topClasses topMethods unmatched)

/-- What is looked up where a selection succeeds, and what is made of it. -/
theorem selectEntities_looked {cap : Int} {p : Prefiltered} (limit : s.maxEntities = .int cap)
    (selects : selectEntities s classes methods classMatches methodMatches = .ok p) :
    ∃ foundClasses foundMethods, resolve (fun c => .ok c.name) classMatches classes = .ok foundClasses ∧
      resolve (fun m => .ok m.name) methodMatches methods = .ok foundMethods ∧
      (((foundClasses.1.length + foundMethods.1.length : Nat) ≤ cap ∧
          p = .ofFound classes methods foundClasses.1 foundMethods.1 (foundClasses.2 + foundMethods.2)) ∨
        (cap < (foundClasses.1.length + foundMethods.1.length : Nat) ∧ ∃ top topClasses topMethods,
          rankAndCap (classMatches ++ methodMatches) (.int cap) = .ok top ∧
          resolve (fun c => .ok c.name) (partitionByKind top).1 classes = .ok topClasses ∧
          resolve (fun m => .ok m.name) (partitionByKind top).2 methods = .ok topMethods ∧
          p = .ofFound classes methods topClasses.1 topMethods.1 (topClasses.2 + topMethods.2))) := by
  cases doneClasses : resolve (fun c => .ok c.name) classMatches classes with
  | error fault => simp [selectEntities, doneClasses, bind, Except.bind] at selects
  | ok foundClasses =>
  cases doneMethods : resolve (fun m => .ok m.name) methodMatches methods with
  | error fault => simp [selectEntities, doneClasses, doneMethods, bind, Except.bind] at selects
  | ok foundMethods =>
  refine ⟨foundClasses, foundMethods, rfl, rfl, ?_⟩
  simp only [selectEntities, doneClasses, doneMethods, limit, Value.compare_above_int, bind, Except.bind] at selects
  by_cases exceeds : cap < (foundClasses.1.length + foundMethods.1.length : Nat)
  · simp only [decide_eq_true exceeds, if_true] at selects
    cases best : rankAndCap (classMatches ++ methodMatches) (.int cap) with
    | error fault => simp [best] at selects
    | ok top =>
    cases doneTop : resolve (fun c => .ok c.name) (partitionByKind top).1 classes with
    | error fault => simp [best, doneTop] at selects
    | ok topClasses =>
    cases doneTop' : resolve (fun m => .ok m.name) (partitionByKind top).2 methods with
    | error fault => simp [best, doneTop, doneTop'] at selects
    | ok topMethods =>
    simp only [best, doneTop, doneTop'] at selects
    cases selects
    exact .inr ⟨exceeds, top, topClasses, topMethods, rfl, doneTop, doneTop', rfl⟩
  · simp only [decide_eq_false exceeds] at selects
    cases selects
    exact .inl ⟨Int.not_lt.mp exceeds, rfl⟩

theorem Selects.of_select {cap : Int} {p : Prefiltered} (limit : s.maxEntities = .int cap)
    (selects : selectEntities s classes methods classMatches methodMatches = .ok p) :
    Selects cap classes methods classMatches methodMatches p := by
  obtain ⟨foundClasses, foundMethods, doneClasses, doneMethods, ⟨within, rfl⟩ |
    ⟨exceeds, top, topClasses, topMethods, best, doneTop, doneTop', rfl⟩⟩ := selectEntities_looked limit selects
  · exact .all (resolves_of_resolve doneClasses) (resolves_of_resolve doneMethods) within
  · exact .best (resolves_of_resolve doneClasses) (resolves_of_resolve doneMethods) exceeds best
      (resolves_of_resolve doneTop) (resolves_of_resolve doneTop')

/-- The members of a population that matches name, each of them the first one under that name. -/
def namedIn {ε : Type} (nameOf : ε → Value) (hits : List Match) (population : List ε) : Set ε :=
  { e | ∃ m ∈ hits, (population.find? fun e => (nameOf e).same m.name) = some e }

/-- What holds of a narrowed population: it is within the cap and no larger than what was given, each
name occurs once and is that of the first member under it, some match of that kind has it, and nothing
is lost as long as all matches together name no more than the cap. -/
structure Prefiltered.Sound (cap : Int) (classes : List ClassEntity) (methods : List MethodEntity)
    (classMatches methodMatches : List Match) (p : Prefiltered) : Prop where
  within : (p.classes.length + p.methods.length : Nat) ≤ cap
  given : p.givenClasses = classes.length ∧ p.givenMethods = methods.length
  shrinks : p.classes.length + p.methods.length ≤ p.givenClasses + p.givenMethods
  classesApart : p.classes.Pairwise fun c other => c.name.same other.name = false
  methodsApart : p.methods.Pairwise fun m other => m.name.same other.name = false
  classesFirst : ∀ c ∈ p.classes, classes.find? (·.name.same c.name) = some c
  methodsFirst : ∀ m ∈ p.methods, methods.find? (·.name.same m.name) = some m
  classesNamed : ∀ c ∈ p.classes, ∃ m, (m ∈ classMatches ∨ m ∈ methodMatches ∧ m.kind = .classes) ∧ c.name.same m.name
  methodsNamed : ∀ e ∈ p.methods, ∃ m, (m ∈ methodMatches ∨ m ∈ classMatches ∧ m.kind = .methods) ∧ e.name.same m.name
  everything : ((namedIn ClassEntity.name classMatches classes).ncard +
      (namedIn MethodEntity.name methodMatches methods).ncard : Nat) ≤ cap →
    (∀ c, c ∈ p.classes ↔ c ∈ namedIn ClassEntity.name classMatches classes) ∧
      ∀ m, m ∈ p.methods ↔ m ∈ namedIn MethodEntity.name methodMatches methods

theorem Selects.sound {cap : Int} {p : Prefiltered} (least : 1 ≤ cap)
    (selects : Selects cap classes methods classMatches methodMatches p) :
    p.Sound cap classes methods classMatches methodMatches := by
  cases selects with
  | @all foundClasses foundMethods _ resolvesClasses resolvesMethods within =>
    refine
      { within
        given := ⟨rfl, rfl⟩
        shrinks := Nat.add_le_add resolvesClasses.length_le_population resolvesMethods.length_le_population
        classesApart := resolvesClasses.apart
        methodsApart := resolvesMethods.apart
        classesFirst := fun c => resolvesClasses.first
        methodsFirst := fun m => resolvesMethods.first
        classesNamed := fun c inside => ?_
        methodsNamed := fun m inside => ?_
        everything := fun _ => ⟨resolvesClasses.finds, resolvesMethods.finds⟩ }
    · obtain ⟨m, hit, same⟩ := resolvesClasses.named inside
      exact ⟨m, .inl hit, same⟩
    · obtain ⟨m, hit, same⟩ := resolvesMethods.named inside
      exact ⟨m, .inl hit, same⟩
  | @best foundClasses foundMethods top topClasses topMethods _ resolvesClasses resolvesMethods exceeds ranked topped topped' =>
    obtain ⟨cut, some⟩ := rankAndCap_within (by omega) ranked
    have parts := length_partitionByKind top
    have within := topped.length_le_hits
    have within' := topped'.length_le_hits
    refine
      { within := by simp only [Prefiltered.ofFound]; omega
        given := ⟨rfl, rfl⟩
        shrinks := Nat.add_le_add topped.length_le_population topped'.length_le_population
        classesApart := topped.apart
        methodsApart := topped'.apart
        classesFirst := fun c => topped.first
        methodsFirst := fun m => topped'.first
        classesNamed := fun c inside => ?_
        methodsNamed := fun m inside => ?_
        everything := fun few => ?_ }
    · obtain ⟨m, hit, same⟩ := topped.named inside
      have kind : m.kind = .classes := eq_of_beq (List.mem_filter.mp hit).2
      have known := List.mem_append.mp (some m (List.mem_filter.mp hit).1)
      exact ⟨m, known.imp_right fun other => ⟨other, kind⟩, same⟩
    · obtain ⟨m, hit, same⟩ := topped'.named inside
      have kind : m.kind = .methods := eq_of_beq (List.mem_filter.mp hit).2
      have known := List.mem_append.mp (some m (List.mem_filter.mp hit).1)
      exact ⟨m, known.symm.imp_right fun other => ⟨other, kind⟩, same⟩
    · -- all matches name too much here
      have count := length_eq_ncard (s := namedIn _ _ _) resolvesClasses.nodup resolvesClasses.finds
      have count' := length_eq_ncard (s := namedIn _ _ _) resolvesMethods.nodup resolvesMethods.finds
      omega

/-- A narrowed population comes from what the two searches found, and is sound for that. -/
theorem prefilter_sound (s : FunnelSettings) (sources : Sources) (query : Value) (classes : List ClassEntity)
    (methods : List MethodEntity) {cap : Int} (limit : s.maxEntities = .int cap) (least : 1 ≤ cap) {log : List Event}
    {p : Prefiltered} (runs : (prefilter s sources query classes methods).Runs log (.ok p))
    (narrowed : p.fallback = false) :
    ∃ classMatches methodMatches, SearchFinds s sources query classMatches methodMatches log ∧
      p.Sound cap classes methods classMatches methodMatches := by
  obtain ⟨before, after, middle, rfl, first, second⟩ := Routine.runs_andThen.mp runs
  cases middle with
  | error fault =>
    -- after an ordinary fault everything stays, and any other one ends the run
    by_cases ordinary : fault.ordinary = true
    · simp only [ordinary, if_true] at second
      obtain ⟨_, same⟩ := Routine.runs_done.mp second
      cases same
      cases narrowed
    · simp only [ordinary] at second
      cases second
  | ok p' =>
    obtain ⟨rfl, same⟩ := Routine.runs_done.mp second
    cases same
    obtain ⟨embedding, later, vector, rfl, embeds, first⟩ := Routine.runs_bind_ok.mp first
    obtain ⟨searching, later, ⟨classMatches, methodMatches⟩, rfl, searches, first⟩ := Routine.runs_bind_ok.mp first
    obtain ⟨rfl, selects⟩ := Routine.runs_done.mp first
    rw [List.append_nil, List.append_nil]
    exact ⟨classMatches, methodMatches, .of_runs embeds searches, (Selects.of_select limit selects.symm).sound least⟩

/-- What happens when the query is its own vector, and the index still holds a class that is gone. -/
def staleLog : List Event :=
  [.granted (.gather .unlimited [searchFor twoAtMost promptSources (.str "orders") .classes,
    searchFor twoAtMost promptSources (.str "orders") .methods]) (.ok [.hits staleMatches, .hits []])]

theorem staleLog_finds : SearchFinds twoAtMost promptSources (.str "orders") staleMatches [] staleLog :=
  @SearchFinds.both _ _ _ _ [] _ _ _ _ .done (.ask .done) (.ask .done)

theorem prefilter_sound_stale :
    ∃ p, (prefilter twoAtMost promptSources (.str "orders") liveClasses []).Runs staleLog (.ok p) ∧
      p.fallback = false ∧ ∃ classMatches methodMatches,
        SearchFinds twoAtMost promptSources (.str "orders") classMatches methodMatches staleLog ∧
          p.Sound 2 liveClasses [] classMatches methodMatches := by
  obtain ⟨p, selects, capped⟩ := selectEntities_capped (s := twoAtMost) rfl (by decide) staleMatches_searched
  have runs := staleLog_finds.runs selects
  exact ⟨p, runs, capped.narrowed, prefilter_sound twoAtMost promptSources (.str "orders") liveClasses [] rfl
    (by decide) runs capped.narrowed⟩

end CodeAtlas
