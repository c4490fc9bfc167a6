import CodeAtlas.Proofs.Ingestion.Civil
import CodeAtlas.Proofs.Retrieval.Sound

namespace CodeAtlas

section Resolving

variable {ε : Type} {nameOf : ε → Except Fault Value} {index : List (Value × ε)} {population : List ε}

/-- The first of the matches find the first of what all of them find. -/
theorem resolveFrom_prefix {first rest : List Match} {seen : List Nat} {found : List ε} {missing : Nat}
    (done : resolveFrom index seen (first ++ rest) = .ok (found, missing)) :
    ∃ found' missing', resolveFrom index seen first = .ok (found', missing') ∧ found' <+: found := by
  induction first generalizing seen found missing with
  | nil => exact ⟨[], 0, rfl, List.nil_prefix⟩
  | cons candidate others ih =>
    simp only [List.cons_append, resolveFrom, bind, Except.bind] at done ⊢
    cases key : candidate.name.asKey with
    | error fault => simp [key] at done
    | ok name =>
      simp only [key] at done ⊢
      split at done
      next absent =>
        cases later : resolveFrom index seen (others ++ rest) with
        | error fault => simp [later] at done
        | ok result =>
          obtain ⟨found', missing', done', begins⟩ := ih later
          simp only [later] at done
          cases done
          exact ⟨found', missing' + 1, by simp only [done']; rfl, begins⟩
      next member place present =>
        split at done
        next again =>
          obtain ⟨found', missing', done', begins⟩ := ih done
          exact ⟨found', missing', by rw [if_pos again, done'], begins⟩
        next new =>
          cases later : resolveFrom index (place :: seen) (others ++ rest) with
          | error fault => simp [later] at done
          | ok result =>
            obtain ⟨found', missing', done', begins⟩ := ih later
            simp only [later] at done
            cases done
            refine ⟨member :: found', missing', by rw [if_neg new]; simp only [done']; rfl, ?_⟩
            exact List.cons_prefix_cons.mpr ⟨rfl, begins⟩

theorem resolve_prefix {hits hits' : List Match} {found : List ε} {missing : Nat} (begins : hits' <+: hits)
    (done : resolve nameOf hits population = .ok (found, missing)) :
    ∃ found' missing', resolve nameOf hits' population = .ok (found', missing') ∧ found' <+: found := by
  obtain ⟨rest, rfl⟩ := begins
  cases made : nameIndex nameOf population [] with
  | error fault => simp [resolve, made, bind, Except.bind] at done
  | ok index =>
    simp only [resolve, made, bind, Except.bind] at done ⊢
    exact resolveFrom_prefix done

theorem resolve_civil (nameOf : ε → Value) (hits : List Match) (population : List ε) :
    Civil (resolve (fun e => .ok (nameOf e)) hits population) := by
  refine Civil.bind ?_ fun index => ?_
  · generalize [] = index
    induction population generalizing index with
    | nil => exact .ok _
    | cons member rest ih => exact (nameOf member).asKey_civil.bind fun _ => .ite (ih _) (ih _)
  · generalize [] = seen
    induction hits generalizing seen with
    | nil => exact .ok _
    | cons candidate rest ih =>
      refine candidate.name.asKey_civil.bind fun name => ?_
      cases index.zipIdx.find? (·.1.1.same name) with
      | none => exact (ih _).bind fun _ => .ok _
      | some entry => exact .ite (ih _) ((ih _).bind fun _ => .ok _)

end Resolving

/-- What a search for one kind returns: matches of that kind, the highest scores first. -/
structure Descending (kind : Kind) (hits : List Match) : Prop where
  kinds : ∀ m ∈ hits, m.kind = kind
  scores : ∀ m ∈ hits, m.Scored
  sorted : hits.Pairwise (·.notBelow ·)

namespace Descending

variable {kind : Kind} {hits : List Match}

theorem filter_own (descending : Descending kind hits) : hits.filter (·.kind == kind) = hits :=
  List.filter_eq_self.mpr fun m inside => beq_iff_eq.mpr (descending.kinds m inside)

theorem filter_other (descending : Descending kind hits) (other : Kind) (apart : kind ≠ other) :
    hits.filter (·.kind == other) = [] :=
  List.filter_eq_nil_iff.mpr fun m inside same => apart ((descending.kinds m inside).symm.trans (beq_iff_eq.mp same))

end Descending

section Raising

variable {s : FunnelSettings} {sources : Sources} {query : Value} {classes : List ClassEntity} {methods : List MethodEntity}
  {classMatches methodMatches : List Match}

/-- What two searches find, one for each kind. -/
structure Returned (classMatches methodMatches : List Match) : Prop where
  ofClasses : Descending .classes classMatches
  ofMethods : Descending .methods methodMatches

namespace Returned

theorem scored (returned : Returned classMatches methodMatches) : ∀ m ∈ classMatches ++ methodMatches, m.Scored :=
  List.forall_mem_append.mpr ⟨returned.ofClasses.scores, returned.ofMethods.scores⟩

/-- The matches of each kind stay in their order when all of them are ranked. -/
theorem ranked (returned : Returned classMatches methodMatches) :
    partitionByKind ((classMatches ++ methodMatches).mergeSort Match.notBelow) = (classMatches, methodMatches) := by
  have ofClasses : (classMatches ++ methodMatches).filter (·.kind == .classes) = classMatches := by
    rw [List.filter_append, returned.ofClasses.filter_own, returned.ofMethods.filter_other .classes nofun, List.append_nil]
  have ofMethods : (classMatches ++ methodMatches).filter (·.kind == .methods) = methodMatches := by
    rw [List.filter_append, returned.ofClasses.filter_other .methods nofun, returned.ofMethods.filter_own, List.nil_append]
  have ordered := TotallyOrdered.of_scored returned.scored
  have sorted := filter_mergeSort ordered.notBelow_trans ordered.notBelow_total (ofClasses.symm ▸ returned.ofClasses.sorted)
  have sorted' := filter_mergeSort ordered.notBelow_trans ordered.notBelow_total (ofMethods.symm ▸ returned.ofMethods.sorted)
  rw [partitionByKind, sorted, sorted', ofClasses, ofMethods]

end Returned

theorem partitionByKind_prefix {hits hits' : List Match} (begins : hits <+: hits') :
    (partitionByKind hits).1 <+: (partitionByKind hits').1 ∧ (partitionByKind hits).2 <+: (partitionByKind hits').2 :=
  ⟨begins.filter _, begins.filter _⟩

/-- The matches that are looked up under a cap when all of them find this many members: all of them or the best. -/
def considered (hits : List Match) (found : Nat) (cap : Int) : List Match :=
  if cap < found then (hits.mergeSort Match.notBelow).take cap.toNat else hits.mergeSort Match.notBelow

/-- Under a higher cap the same matches are looked up first. -/
theorem considered_grows (hits : List Match) (found : Nat) {cap cap' : Int} (raised : cap ≤ cap') :
    considered hits found cap <+: considered hits found cap' := by
  unfold considered
  split
  · split
    · exact List.take_prefix_take_left (Int.toNat_le_toNat raised)
    · exact List.take_prefix ..
  next within =>
    rw [if_neg (by omega)]

/-- Under a cap the matches that are looked up decide what is selected. -/
theorem selectEntities_considered (returned : Returned classMatches methodMatches) {cap : Int} (limit : s.maxEntities = .int cap)
    (positive : 0 ≤ cap) {foundClasses : List ClassEntity} {foundMethods : List MethodEntity} {missingClasses missingMethods : Nat}
    (doneClasses : resolve (fun c => .ok c.name) classMatches classes = .ok (foundClasses, missingClasses))
    (doneMethods : resolve (fun m => .ok m.name) methodMatches methods = .ok (foundMethods, missingMethods))
    {hits : List Match} (looked : considered (classMatches ++ methodMatches) (foundClasses.length + foundMethods.length) cap = hits) :
    ∃ p, selectEntities s classes methods classMatches methodMatches = .ok p ∧
      (∃ missing, resolve (fun c => .ok c.name) (partitionByKind hits).1 classes = .ok (p.classes, missing)) ∧
      ∃ missing, resolve (fun m => .ok m.name) (partitionByKind hits).2 methods = .ok (p.methods, missing) := by
  unfold considered at looked
  split at looked
  next exceeds =>
    have best := rankAndCap_of_rank (rank_ordered (.of_scored returned.scored)) positive
    rw [looked] at best
    have begins := partitionByKind_prefix (looked ▸ List.take_prefix _ _)
    rw [returned.ranked] at begins
    obtain ⟨topClasses, missing, doneTop, _⟩ := resolve_prefix begins.1 doneClasses
    obtain ⟨topMethods, missing', doneTop', _⟩ := resolve_prefix begins.2 doneMethods
    refine ⟨.ofFound classes methods topClasses topMethods (missing + missing'), ?_, ⟨missing, doneTop⟩, missing', doneTop'⟩
    simp only [selectEntities, doneClasses, doneMethods, limit, Value.compare_above_int, decide_eq_true exceeds, if_true,
      best, doneTop, doneTop', bind, Except.bind]
    rfl
  next within =>
    subst looked
    rw [returned.ranked]
    refine ⟨.ofFound classes methods foundClasses foundMethods (missingClasses + missingMethods), ?_, ⟨_, doneClasses⟩, _, doneMethods⟩
    simp only [selectEntities, doneClasses, doneMethods, limit, Value.compare_above_int, decide_eq_false within,
      Bool.false_eq_true, if_false, bind, Except.bind]
    rfl

/-- The same settings with another cap. -/
def FunnelSettings.capped (s : FunnelSettings) (cap : Int) : FunnelSettings := { s with maxEntities := .int cap }

/-- All matches can be looked up, or none of it depends on the cap. -/
theorem selectEntities_cases (s : FunnelSettings) (classes : List ClassEntity) (methods : List MethodEntity)
    (classMatches methodMatches : List Match) :
    (∃ fault, fault.ordinary ∧ ∀ cap, selectEntities (s.capped cap) classes methods classMatches methodMatches = .error fault) ∨
      ∃ foundClasses foundMethods, resolve (fun c => .ok c.name) classMatches classes = .ok foundClasses ∧
        resolve (fun m => .ok m.name) methodMatches methods = .ok foundMethods := by
  cases doneClasses : resolve (fun c => .ok c.name) classMatches classes with
  | error fault =>
    refine .inl ⟨fault, resolve_civil ClassEntity.name _ _ fault doneClasses, fun cap => ?_⟩
    simp only [selectEntities, doneClasses, bind, Except.bind]
  | ok foundClasses =>
    cases doneMethods : resolve (fun m => .ok m.name) methodMatches methods with
    | error fault =>
      refine .inl ⟨fault, resolve_civil MethodEntity.name _ _ fault doneMethods, fun cap => ?_⟩
      simp only [selectEntities, doneClasses, doneMethods, bind, Except.bind]
    | ok foundMethods => exact .inr ⟨_, _, rfl, rfl⟩

/-- Raising the cap only adds to what pre-filtering keeps, after all that it kept before. -/
theorem prefilter_raised (s : FunnelSettings) (sources : Sources) (query : Value) (classes : List ClassEntity)
    (methods : List MethodEntity) {cap cap' : Int} (least : 1 ≤ cap) (raised : cap ≤ cap')
    (returned : Returned classMatches methodMatches) {log log' : List Event}
    (finds : SearchFinds (s.capped cap) sources query classMatches methodMatches log)
    (finds' : SearchFinds (s.capped cap') sources query classMatches methodMatches log') :
    ∃ p p', (prefilter (s.capped cap) sources query classes methods).Runs log (.ok p) ∧
      (prefilter (s.capped cap') sources query classes methods).Runs log' (.ok p') ∧
      p.classes <+: p'.classes ∧ p.methods <+: p'.methods := by
  rcases selectEntities_cases s classes methods classMatches methodMatches with
    ⟨fault, ordinary, fails⟩ | ⟨foundClasses, foundMethods, doneClasses, doneMethods⟩
  · exact ⟨_, _, finds.runs_everything (fails cap) ordinary, finds'.runs_everything (fails cap') ordinary, List.prefix_rfl,
      List.prefix_rfl⟩
  -- under each cap what is looked up decides, and under the higher one it begins as under the lower
  obtain ⟨p, selects, ⟨_, ofClasses⟩, _, ofMethods⟩ :=
    selectEntities_considered returned (s := s.capped cap) rfl (by omega) doneClasses doneMethods rfl
  obtain ⟨p', selects', ⟨_, ofClasses'⟩, _, ofMethods'⟩ :=
    selectEntities_considered returned (s := s.capped cap') rfl (by omega) doneClasses doneMethods rfl
  have begins := partitionByKind_prefix (considered_grows (classMatches ++ methodMatches)
    (foundClasses.1.length + foundMethods.1.length) raised)
  obtain ⟨_, _, again, keptClasses⟩ := resolve_prefix begins.1 ofClasses'
  obtain ⟨_, _, again', keptMethods⟩ := resolve_prefix begins.2 ofMethods'
  cases ofClasses.symm.trans again
  cases ofMethods.symm.trans again'
  exact ⟨p, p', finds.runs selects, finds'.runs selects', keptClasses, keptMethods⟩

end Raising

/-- What a search for methods finds beside the classes of an index that is out of date. -/
def placeMatches : List Match := [.bare (.str "place") (.int 3) .methods]

theorem staleMatches_returned : Returned staleMatches placeMatches where
  ofClasses := ⟨by decide, by simp [staleMatches, Match.bare, Match.Scored, Value.magnitude?], by decide⟩
  ofMethods := ⟨by decide, by simp [placeMatches, Match.bare, Match.Scored, Value.magnitude?], by decide⟩

/-- What happens when the query is its own vector and both searches answer. -/
def mixedLog : List Event :=
  [.granted (.gather .unlimited [searchFor twoAtMost promptSources (.str "orders") .classes,
    searchFor twoAtMost promptSources (.str "orders") .methods]) (.ok [.hits staleMatches, .hits placeMatches])]

theorem mixedLog_finds (cap : Int) :
    SearchFinds (twoAtMost.capped cap) promptSources (.str "orders") staleMatches placeMatches mixedLog :=
  @SearchFinds.both (twoAtMost.capped cap) _ _ _ [] _ _ _ _ .done (.ask .done) (.ask .done)

/-- A method of which only the name is known. -/
def livePlace : MethodEntity := { (default : MethodEntity) with name := .str "place" }

/-- Two of the matches are looked up under a cap of two, and all of them under one of four. -/
theorem prefilter_raised_mixed :
    ∃ p p', (prefilter (twoAtMost.capped 2) promptSources (.str "orders") liveClasses [livePlace]).Runs mixedLog (.ok p) ∧
      (prefilter (twoAtMost.capped 4) promptSources (.str "orders") liveClasses [livePlace]).Runs mixedLog (.ok p') ∧
      p.classes <+: p'.classes ∧ p.methods <+: p'.methods :=
  prefilter_raised twoAtMost promptSources (.str "orders") liveClasses [livePlace] (by decide) (by decide)
    staleMatches_returned (mixedLog_finds 2) (mixedLog_finds 4)

end CodeAtlas
