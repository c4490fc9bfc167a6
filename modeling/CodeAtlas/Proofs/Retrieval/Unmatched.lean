import CodeAtlas.Proofs.Retrieval.Sound

namespace CodeAtlas

variable {s : FunnelSettings} {sources : Sources} {query : Value} {classes : List ClassEntity}
  {methods : List MethodEntity} {classMatches methodMatches : List Match} {log : List Event} {cap : Int} {p : Prefiltered}

/-- A narrowed population is what is selected from what the searches find. -/
theorem SearchFinds.selects (finds : SearchFinds s sources query classMatches methodMatches log)
    (runs : (prefilter s sources query classes methods).Runs log (.ok p)) (narrowed : p.fallback = false) :
    selectEntities s classes methods classMatches methodMatches = .ok p := by
  cases selected : selectEntities s classes methods classMatches methodMatches with
  | ok p' => exact (finds.runs selected).same_result runs
  | error fault =>
    cases ordinary : fault.ordinary with
    | true =>
      cases (finds.runs_everything selected ordinary).same_result runs
      cases narrowed
    | false =>
      have failing : (prefilter s sources query classes methods).Runs log (.error fault) := by
        refine finds.rescues ?_
        rw [selected]
        simp only [Routine.rescue, Routine.ofExcept, Routine.andThen, ordinary]
        exact .done
      cases failing.same_result runs

/-- How many matches name no member of a population. -/
def strangersTo {ε : Type} (nameOf : ε → Value) (population : List ε) (hits : List Match) : Nat :=
  hits.countP fun m => !population.any fun e => (nameOf e).same m.name

/-- How many matches name no member of their own kind. -/
def strangers (classes : List ClassEntity) (methods : List MethodEntity) (hits : List Match) : Nat :=
  strangersTo ClassEntity.name classes (partitionByKind hits).1 + strangersTo MethodEntity.name methods (partitionByKind hits).2

theorem strangers_append (hits others : List Match) :
    strangers classes methods (hits ++ others) = strangers classes methods hits + strangers classes methods others := by
  simp only [strangers, strangersTo, partitionByKind, List.filter_append, List.countP_append]
  omega

theorem strangers_perm {hits others : List Match} (perm : hits.Perm others) :
    strangers classes methods hits = strangers classes methods others := by
  simp only [strangers, strangersTo, partitionByKind, (perm.filter _).countP_eq]

/-- Matches of the kinds that were searched for are strangers where they were searched for. -/
theorem strangers_searched (ofClasses : ∀ m ∈ classMatches, m.kind = .classes)
    (ofMethods : ∀ m ∈ methodMatches, m.kind = .methods) : strangers classes methods (classMatches ++ methodMatches) =
    strangersTo ClassEntity.name classes classMatches + strangersTo MethodEntity.name methods methodMatches := by
  have parts : partitionByKind (classMatches ++ methodMatches) = (classMatches, methodMatches) := by
    simp only [partitionByKind, List.filter_append]
    rw [List.filter_eq_self.mpr, List.filter_eq_nil_iff.mpr, List.filter_eq_nil_iff.mpr, List.filter_eq_self.mpr] <;>
      simp_all
  rw [strangers, parts]

/-- The best matches come first, and the others after them. -/
theorem rankAndCap_split {hits top : List Match} (positive : 0 ≤ cap) (best : rankAndCap hits (.int cap) = .ok top) :
    ∃ cut, (top ++ cut).Perm hits := by
  cases ranks : rank hits with
  | error fault => simp [rankAndCap, ranks, bind, Except.bind] at best
  | ok ranked =>
    rw [rankAndCap_of_rank ranks positive] at best
    cases best
    exact ⟨ranked.drop cap.toNat, by rw [List.take_append_drop]; exact rank_perm ranks⟩

/-- What is counted as unmatched: every match that names no member as long as no more than the cap are named, and
otherwise only those among the best matches. Those among the matches that are cut off are not counted. -/
structure Prefiltered.Counts (cap : Int) (classes : List ClassEntity) (methods : List MethodEntity)
    (classMatches methodMatches : List Match) (p : Prefiltered) : Prop where
  everything : ((namedIn ClassEntity.name classMatches classes).ncard +
      (namedIn MethodEntity.name methodMatches methods).ncard : Nat) ≤ cap →
    p.unmatched = strangersTo ClassEntity.name classes classMatches + strangersTo MethodEntity.name methods methodMatches
  best : cap < ((namedIn ClassEntity.name classMatches classes).ncard +
      (namedIn MethodEntity.name methodMatches methods).ncard : Nat) →
    ∃ top cut, rankAndCap (classMatches ++ methodMatches) (.int cap) = .ok top ∧
      (top ++ cut).Perm (classMatches ++ methodMatches) ∧ p.unmatched = strangers classes methods top ∧
      ((∀ m ∈ classMatches, m.kind = .classes) → (∀ m ∈ methodMatches, m.kind = .methods) →
        p.unmatched + strangers classes methods cut =
          strangersTo ClassEntity.name classes classMatches + strangersTo MethodEntity.name methods methodMatches)

theorem selectEntities_counts (limit : s.maxEntities = .int cap) (positive : 0 ≤ cap)
    (selects : selectEntities s classes methods classMatches methodMatches = .ok p) :
    p.Counts cap classes methods classMatches methodMatches := by
  obtain ⟨foundClasses, foundMethods, doneClasses, doneMethods, looked⟩ := selectEntities_looked limit selects
  have resolvesClasses := resolves_of_resolve doneClasses
  have resolvesMethods := resolves_of_resolve doneMethods
  have count := length_eq_ncard (s := namedIn _ _ _) resolvesClasses.nodup resolvesClasses.finds
  have count' := length_eq_ncard (s := namedIn _ _ _) resolvesMethods.nodup resolvesMethods.finds
  rcases looked with ⟨within, rfl⟩ | ⟨exceeds, top, topClasses, topMethods, best, doneTop, doneTop', rfl⟩
  · refine ⟨fun _ => ?_, fun exceeds => absurd exceeds (by omega)⟩
    exact congrArg₂ (· + ·) (resolve_counts doneClasses) (resolve_counts doneMethods)
  · refine ⟨fun few => absurd few (by omega), fun _ => ?_⟩
    obtain ⟨cut, split⟩ := rankAndCap_split positive best
    have counted : topClasses.2 + topMethods.2 = strangers classes methods top :=
      congrArg₂ (· + ·) (resolve_counts doneTop) (resolve_counts doneTop')
    refine ⟨top, cut, best, split, counted, fun ofClasses ofMethods => ?_⟩
    calc topClasses.2 + topMethods.2 + strangers classes methods cut
        = strangers classes methods (top ++ cut) := by rw [counted, strangers_append]
      _ = strangers classes methods (classMatches ++ methodMatches) := strangers_perm split
      _ = _ := strangers_searched ofClasses ofMethods

/-- What pre-filtering counts as unmatched are the matches without a member among those that it looks up at last:
all that the searches found, or the best of them when all together name too much. -/
theorem prefilter_counts (limit : s.maxEntities = .int cap) (least : 1 ≤ cap)
    (finds : SearchFinds s sources query classMatches methodMatches log)
    (runs : (prefilter s sources query classes methods).Runs log (.ok p)) (narrowed : p.fallback = false) :
    p.Counts cap classes methods classMatches methodMatches :=
  selectEntities_counts limit (Int.le_trans (by decide) least) (finds.selects runs narrowed)

/-- What a search finds whose index still holds a class that is gone, and that is further from the query than the others. -/
def fadedMatches : List Match :=
  [.bare (.str "A") (.int 4) .classes, .bare (.str "B") (.int 3) .classes, .bare (.str "C") (.int 2) .classes,
    .bare (.str "Ghost") (.int 1) .classes]

def fadedLog : List Event :=
  [.granted (.gather .unlimited [searchFor twoAtMost promptSources (.str "orders") .classes,
    searchFor twoAtMost promptSources (.str "orders") .methods]) (.ok [.hits fadedMatches, .hits []])]

theorem fadedLog_finds : SearchFinds twoAtMost promptSources (.str "orders") fadedMatches [] fadedLog :=
  @SearchFinds.both _ _ _ _ [] _ _ _ _ .done (.ask .done) (.ask .done)

/-- The class that is gone is not among the two best matches, and is not counted. -/
theorem prefilter_counts_faded :
    ∃ p, (prefilter twoAtMost promptSources (.str "orders") liveClasses []).Runs fadedLog (.ok p) ∧
      p.Counts 2 liveClasses [] fadedMatches [] ∧ p.unmatched = 0 ∧
      strangersTo ClassEntity.name liveClasses fadedMatches + strangersTo MethodEntity.name [] [] = 1 := by
  have scored : ∀ m ∈ fadedMatches, m.Scored := by simp [fadedMatches, Match.bare, Match.Scored, Value.magnitude?]
  have top : rankAndCap (fadedMatches ++ []) (.int 2) = .ok ((fadedMatches ++ []).take 2) :=
    rankAndCap_of_rank (rank_sorted (by simpa using scored) (by decide)) (by decide)
  have found : resolve (fun c : ClassEntity => .ok c.name) fadedMatches liveClasses = .ok (liveClasses, 1) := rfl
  have selects : selectEntities twoAtMost liveClasses [] fadedMatches [] =
      .ok (.ofFound liveClasses [] [.bare "A", .bare "B"] [] 0) := by
    have limit : twoAtMost.maxEntities = .int 2 := rfl
    rw [selectEntities, found]
    simp only [resolve, nameIndex, resolveFrom, bind, Except.bind, limit, Value.compare_above_int, top]
    rfl
  have runs := fadedLog_finds.runs selects
  exact ⟨_, runs, prefilter_counts rfl (by decide) fadedLog_finds runs rfl, rfl, by decide⟩

end CodeAtlas
