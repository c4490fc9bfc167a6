import CodeAtlas.Analyzer
import CodeAtlas.Proofs.Retrieval.Ranking
import CodeAtlas.Proofs.Retrieval.Resolve
import Mathlib.Data.Set.Card

namespace CodeAtlas

/-- A class or a method of the populations. -/
abbrev Member := ClassEntity ⊕ MethodEntity

/-- The member that a match names: the first one of its kind under that name. -/
def Match.member? (classes : List ClassEntity) (methods : List MethodEntity) (m : Match) : Option Member :=
  match m.kind with
  | .classes => (classes.find? (·.name.same m.name)).map .inl
  | .methods => (methods.find? (·.name.same m.name)).map .inr

/-- The members that some of the matches name. -/
def namedBy (classes : List ClassEntity) (methods : List MethodEntity) (hits : List Match) : Set Member :=
  { e | ∃ m ∈ hits, m.member? classes methods = some e }

/-- Some match of the first member has a higher score than every match of the second one. -/
def Outranks (classes : List ClassEntity) (methods : List MethodEntity) (hits : List Match) (e other : Member) : Prop :=
  ∃ m ∈ hits, m.member? classes methods = some e ∧ ∀ m' ∈ hits, m'.member? classes methods = some other →
    Value.compare .below m'.score m.score = .ok true

def Prefiltered.kept (p : Prefiltered) : List Member := p.classes.map .inl ++ p.methods.map .inr

/-- Populations with texts as names, and what the searches of both kinds found: matches of the kind
that was searched for, with texts as names and numbers as scores. -/
structure Searched (classes : List ClassEntity) (methods : List MethodEntity)
    (classMatches methodMatches : List Match) : Prop where
  classNames : ∀ c ∈ classes, c.name.IsText
  methodNames : ∀ m ∈ methods, m.name.IsText
  ofClasses : ∀ m ∈ classMatches, m.kind = .classes
  ofMethods : ∀ m ∈ methodMatches, m.kind = .methods
  names : ∀ m ∈ classMatches ++ methodMatches, m.name.IsText
  scores : ∀ m ∈ classMatches ++ methodMatches, m.Scored

theorem mem_partitionByKind {hits : List Match} {m : Match} :
    m ∈ (partitionByKind hits).1 ++ (partitionByKind hits).2 ↔ m ∈ hits := by
  rw [partitionByKind, List.mem_append, List.mem_filter, List.mem_filter]
  cases kind : m.kind <;> simp

variable {classes : List ClassEntity} {methods : List MethodEntity} {classMatches methodMatches : List Match}

theorem Searched.inl_mem_namedBy (searched : Searched classes methods classMatches methodMatches) (c : ClassEntity) :
    .inl c ∈ namedBy classes methods (classMatches ++ methodMatches) ↔
      ∃ m ∈ classMatches, classes.find? (·.name.same m.name) = some c := by
  constructor
  · rintro ⟨m, inside, names⟩
    rcases List.mem_append.mp inside with left | right
    · simp only [Match.member?, searched.ofClasses m left, Option.map_eq_some_iff] at names
      obtain ⟨_, found, ⟨⟩⟩ := names
      exact ⟨m, left, found⟩
    · simp [Match.member?, searched.ofMethods m right] at names
  · rintro ⟨m, inside, found⟩
    exact ⟨m, List.mem_append_left _ inside, by simp [Match.member?, searched.ofClasses m inside, found]⟩

theorem Searched.inr_mem_namedBy (searched : Searched classes methods classMatches methodMatches) (e : MethodEntity) :
    .inr e ∈ namedBy classes methods (classMatches ++ methodMatches) ↔
      ∃ m ∈ methodMatches, methods.find? (·.name.same m.name) = some e := by
  constructor
  · rintro ⟨m, inside, names⟩
    rcases List.mem_append.mp inside with left | right
    · simp [Match.member?, searched.ofClasses m left] at names
    · simp only [Match.member?, searched.ofMethods m right, Option.map_eq_some_iff] at names
      obtain ⟨_, found, ⟨⟩⟩ := names
      exact ⟨m, right, found⟩
  · rintro ⟨m, inside, found⟩
    exact ⟨m, List.mem_append_right _ inside, by simp [Match.member?, searched.ofMethods m inside, found]⟩

/-- Some of the matches, told apart by their kinds, are as good as matches searched for by kind. -/
theorem Searched.partition (searched : Searched classes methods classMatches methodMatches) {top : List Match}
    (some : ∀ m ∈ top, m ∈ classMatches ++ methodMatches) :
    Searched classes methods (partitionByKind top).1 (partitionByKind top).2 where
  classNames := searched.classNames
  methodNames := searched.methodNames
  ofClasses _ inside := eq_of_beq (List.mem_filter.mp inside).2
  ofMethods _ inside := eq_of_beq (List.mem_filter.mp inside).2
  names m inside := searched.names m (some m (mem_partitionByKind.mp inside))
  scores m inside := searched.scores m (some m (mem_partitionByKind.mp inside))

/-- What is found for the matches of each kind, taken together: every member they name, each once. -/
theorem Searched.resolved (searched : Searched classes methods classMatches methodMatches) :
    ∃ foundClasses missingClasses foundMethods missingMethods,
      resolve (fun c => .ok c.name) classMatches classes = .ok (foundClasses, missingClasses) ∧
      resolve (fun m => .ok m.name) methodMatches methods = .ok (foundMethods, missingMethods) ∧
      (foundClasses.map Sum.inl ++ foundMethods.map Sum.inr : List Member).Nodup ∧
      ∀ e : Member, e ∈ (foundClasses.map Sum.inl ++ foundMethods.map Sum.inr : List Member) ↔
        e ∈ namedBy classes methods (classMatches ++ methodMatches) := by
  obtain ⟨foundClasses, missingClasses, doneClasses, resolvedClasses⟩ := resolve_finds
    (fun c inside => (searched.classNames c inside).isKey)
    fun m inside => (searched.names m (List.mem_append_left _ inside)).isKey
  obtain ⟨foundMethods, missingMethods, doneMethods, resolvedMethods⟩ := resolve_finds
    (fun m inside => (searched.methodNames m inside).isKey)
    fun m inside => (searched.names m (List.mem_append_right _ inside)).isKey
  refine ⟨foundClasses, missingClasses, foundMethods, missingMethods, doneClasses, doneMethods, ?_, fun e => ?_⟩
  · refine List.nodup_append.mpr
      ⟨resolvedClasses.nodup.map Sum.inl_injective, resolvedMethods.nodup.map Sum.inr_injective, ?_⟩
    intro e left other right
    obtain ⟨_, _, rfl⟩ := List.mem_map.mp left
    obtain ⟨_, _, rfl⟩ := List.mem_map.mp right
    exact Sum.inl_ne_inr
  · cases e with
    | inl c => simp [searched.inl_mem_namedBy, resolvedClasses.finds]
    | inr m => simp [searched.inr_mem_namedBy, resolvedMethods.finds]

theorem length_eq_ncard {α : Type} {l : List α} {s : Set α} (once : l.Nodup) (members : ∀ a, a ∈ l ↔ a ∈ s) :
    l.length = s.ncard := by
  classical
  obtain rfl : s = (l.toFinset : Set α) := Set.ext fun a => by simp [members]
  rw [Set.ncard_coe_finset, List.toFinset_card_of_nodup once]

/-- A list without repetition that holds what another one maps to is no longer than that one. It is as
long when everything there maps to something, and no two to the same. -/
theorem length_of_mapped {α β : Type} {f : α → Option β} {l : List β} {source : List α} (once : l.Nodup)
    (members : ∀ b, b ∈ l ↔ ∃ a ∈ source, f a = some b) :
    l.length ≤ source.length ∧ (l.length = source.length ↔ (∀ a ∈ source, (f a).isSome) ∧ (source.map f).Nodup) := by
  have same : ∀ b, b ∈ l ↔ b ∈ source.filterMap f := fun b => (members b).trans List.mem_filterMap.symm
  have covered : l.Subperm (source.filterMap f) := List.subperm_of_subset once fun b => (same b).mp
  have shorter := List.length_filterMap_le f source
  have mapped : (∀ a ∈ source, (f a).isSome) → ((source.map f).Nodup ↔ (source.filterMap f).Nodup) := by
    intro all
    have whole : (source.map f).filter (·.isSome) = source.map f := List.filter_eq_self.mpr (by simpa using all)
    rw [← whole, ← List.map_filterMap_some_eq_filter_map_isSome, List.nodup_map_iff (Option.some_injective β)]
  refine ⟨covered.length_le.trans shorter, fun full => ?_, fun ⟨all, distinct⟩ => ?_⟩
  · have longer := covered.length_le
    have all := List.filterMap_length_eq_length.mp (show (source.filterMap f).length = source.length by omega)
    have perm := covered.perm_of_length_le (by omega)
    exact ⟨all, (mapped all).mpr (perm.nodup_iff.mp once)⟩
  · have perm := (List.perm_ext_iff_of_nodup once ((mapped all).mp distinct)).mpr same
    rw [perm.length_eq, List.filterMap_length_eq_length]
    exact all

/-- The part of the population that pre-filtering keeps under a cap. -/
structure Capped (cap : Int) (classes : List ClassEntity) (methods : List MethodEntity) (hits : List Match)
    (p : Prefiltered) : Prop where
  narrowed : p.fallback = false
  once : p.kept.Nodup
  within : p.kept.length ≤ cap
  /-- Nothing is lost as long as no more than the cap are named. -/
  everything : (namedBy classes methods hits).ncard ≤ cap → ∀ e, e ∈ p.kept ↔ e ∈ namedBy classes methods hits
  /-- Otherwise the best matches decide, be it that they name nothing or the same. -/
  best : cap < (namedBy classes methods hits).ncard → ∃ top, rankAndCap hits (.int cap) = .ok top ∧
    (∀ e, e ∈ p.kept ↔ e ∈ namedBy classes methods top) ∧
    (p.kept.length = cap ↔ (∀ m ∈ top, (m.member? classes methods).isSome) ∧
      (top.map (·.member? classes methods)).Nodup)
  fair : ∀ e ∈ namedBy classes methods hits, e ∉ p.kept → ∀ other ∈ p.kept, ¬ Outranks classes methods hits e other

theorem Match.not_below_of_pairwise {top rest : List Match} (sorted : (top ++ rest).Pairwise (·.notBelow ·))
    {m m' : Match} (first : m ∈ top) (later : m' ∈ rest) : Value.compare .below m.score m'.score ≠ .ok true := by
  have holds := (List.pairwise_append.mp sorted).2.2 m first m' later
  intro below
  simp [Match.notBelow, below] at holds

theorem ncard_namedBy_le (classes : List ClassEntity) (methods : List MethodEntity) (hits : List Match) :
    (namedBy classes methods hits).ncard ≤ hits.length := by
  classical
  let members := hits.filterMap (·.member? classes methods)
  have covered : namedBy classes methods hits ⊆ (members.toFinset : Set Member) := fun _ named =>
    Finset.mem_coe.mpr (List.mem_toFinset.mpr (List.mem_filterMap.mpr named))
  calc (namedBy classes methods hits).ncard ≤ (members.toFinset : Set Member).ncard :=
        Set.ncard_le_ncard covered (Finset.finite_toSet _)
    _ ≤ members.length := by rw [Set.ncard_coe_finset]; exact members.toFinset_card_le
    _ ≤ hits.length := List.length_filterMap_le _ _

/-- What pre-filtering makes of the members found. -/
def Prefiltered.ofFound (classes : List ClassEntity) (methods : List MethodEntity) (foundClasses : List ClassEntity)
    (foundMethods : List MethodEntity) (unmatched : Nat) : Prefiltered where
  classes := foundClasses
  methods := foundMethods
  givenClasses := classes.length
  givenMethods := methods.length
  reduction := CodeAtlas.reduction (classes.length + methods.length) (foundClasses.length + foundMethods.length)
  unmatched
  fallback := false

/-- Everything is kept when that is within the cap. -/
theorem Capped.of_within {cap : Int} {hits : List Match} {p : Prefiltered} (narrowed : p.fallback = false)
    (once : p.kept.Nodup) (finds : ∀ e, e ∈ p.kept ↔ e ∈ namedBy classes methods hits) (within : p.kept.length ≤ cap) :
    Capped cap classes methods hits p where
  narrowed
  once
  within
  everything _ := finds
  best exceeds := by
    rw [← length_eq_ncard once finds] at exceeds
    omega
  fair e named out := absurd ((finds e).mpr named) out

/-- What the best matches name is kept when all matches name too much. -/
theorem Capped.of_best {cap : Int} {hits ranked : List Match} {p : Prefiltered} (narrowed : p.fallback = false)
    (perm : ranked.Perm hits) (sorted : ranked.Pairwise (·.notBelow ·))
    (best : rankAndCap hits (.int cap) = .ok (ranked.take cap.toNat)) (positive : 0 ≤ cap)
    (exceeds : cap < (namedBy classes methods hits).ncard) (once : p.kept.Nodup)
    (finds : ∀ e, e ∈ p.kept ↔ e ∈ namedBy classes methods (ranked.take cap.toNat)) :
    Capped cap classes methods hits p := by
  have size := length_of_mapped once finds
  have enough : (ranked.take cap.toNat).length = cap.toNat := by
    have all := ncard_namedBy_le classes methods hits
    rw [List.length_take, perm.length_eq]
    omega
  refine ⟨narrowed, once, ?_, ?_, ?_, ?_⟩
  · omega
  · exact fun few => absurd few (by omega)
  · refine fun _ => ⟨_, best, finds, ?_⟩
    rw [← size.2]
    omega
  · rintro e - out other keeps ⟨m, inside, names, above⟩
    obtain ⟨m', top, names'⟩ := (finds other).mp keeps
    rw [← List.take_append_drop cap.toNat ranked] at sorted
    -- a match of a member that is left out is not among the best
    have rest : m ∈ ranked.drop cap.toNat := by
      rw [← perm.mem_iff, ← List.take_append_drop cap.toNat ranked, List.mem_append] at inside
      exact inside.resolve_left fun first => out ((finds e).mpr ⟨m, first, names⟩)
    exact Match.not_below_of_pairwise sorted top rest (above m' (perm.mem_iff.mp (List.mem_of_mem_take top)) names')

/-- What is looked up at last: all matches, or the best ones when all of them name too much. -/
theorem selectEntities_capped {s : FunnelSettings} {cap : Int} (limit : s.maxEntities = .int cap) (least : 1 ≤ cap)
    (searched : Searched classes methods classMatches methodMatches) :
    ∃ p, selectEntities s classes methods classMatches methodMatches = .ok p ∧
      Capped cap classes methods (classMatches ++ methodMatches) p := by
  obtain ⟨foundClasses, missingClasses, foundMethods, missingMethods, doneClasses, doneMethods, once, finds⟩ :=
    searched.resolved
  have count := length_eq_ncard once finds
  simp only [List.length_append, List.length_map] at count
  by_cases exceeds : cap < (foundClasses.length + foundMethods.length : Nat)
  · obtain ⟨ranked, perm, sorted, best⟩ := rankAndCap_scored searched.scores (show 0 ≤ cap by omega)
    have inside : ∀ m ∈ ranked.take cap.toNat, m ∈ classMatches ++ methodMatches :=
      fun m top => perm.mem_iff.mp (List.mem_of_mem_take top)
    obtain ⟨cs, missingCs, ms, missingMs, doneCs, doneMs, onceTop, findsTop⟩ := (searched.partition inside).resolved
    refine ⟨.ofFound classes methods cs ms (missingCs + missingMs), ?_, ?_⟩
    · simp only [selectEntities, doneClasses, doneMethods, limit, Value.compare_above_int, decide_eq_true exceeds,
        if_true, best, doneCs, doneMs, bind, Except.bind]
      rfl
    · refine .of_best rfl perm sorted best (by omega) (by omega) onceTop fun e => ?_
      rw [Prefiltered.kept, Prefiltered.ofFound, findsTop e]
      simp only [namedBy, mem_partitionByKind]
  · refine ⟨.ofFound classes methods foundClasses foundMethods (missingClasses + missingMethods), ?_, ?_⟩
    · simp only [selectEntities, doneClasses, doneMethods, limit, Value.compare_above_int, decide_eq_false exceeds,
        Bool.false_eq_true, if_false, bind, Except.bind]
      rfl
    · refine .of_within rfl once finds ?_
      simp only [Prefiltered.kept, Prefiltered.ofFound, List.length_append, List.length_map]
      omega

/-- Pre-filtering is done with the result once the query is embedded and both kinds are searched for,
beside each other, with these matches. -/
def Narrows (s : FunnelSettings) (sources : Sources) (query : Value) (classes : List ClassEntity)
    (methods : List MethodEntity) (classMatches methodMatches : List Match) (p : Prefiltered) : Prop :=
  ∃ embedded : Except Fault Value → Routine Prefiltered,
    prefilter s sources query classes methods = (sources.embed query).andThen embedded ∧
    ∀ vector, ∃ found : Except Fault (List Yield) → Routine Prefiltered,
      embedded (.ok vector) = .control (.gather .unlimited
        [.search sources.search vector s.searchLimit s.threshold .classes,
          .search sources.search vector s.searchLimit s.threshold .methods]) found ∧
      found (.ok [.hits classMatches, .hits methodMatches]) = .done (.ok p)

theorem Narrows.of_select {s : FunnelSettings} {p : Prefiltered} (sources : Sources) (query : Value)
    (selects : selectEntities s classes methods classMatches methodMatches = .ok p) :
    Narrows s sources query classes methods classMatches methodMatches p := by
  refine ⟨_, Routine.andThen_assoc _ _ _, fun vector => ⟨_, rfl, ?_⟩⟩
  simp only [Yield.hits?, List.filterMap_cons, List.filterMap_nil, Routine.andThen, selects, pure]
  rfl

/-- Pre-filtering keeps everything that the matches name while that is within the cap, and otherwise
what the best matches name, one member for several of them and none for some. What it leaves out is
never better than what it keeps. -/
theorem prefilter_capped (s : FunnelSettings) (sources : Sources) (query : Value) {cap : Int}
    (limit : s.maxEntities = .int cap) (least : 1 ≤ cap)
    (searched : Searched classes methods classMatches methodMatches) :
    ∃ p, Narrows s sources query classes methods classMatches methodMatches p ∧
      Capped cap classes methods (classMatches ++ methodMatches) p := by
  obtain ⟨p, selects, capped⟩ := selectEntities_capped limit least searched
  exact ⟨p, .of_select sources query selects, capped⟩

/-- A class of which only the name is known. -/
def ClassEntity.bare (name : String) : ClassEntity := { (default : ClassEntity) with name := .str name }

/-- Classes of a population, and what a search finds whose index still holds a class that is gone. -/
def liveClasses : List ClassEntity := [.bare "A", .bare "B", .bare "C"]

def staleMatches : List Match :=
  [.bare (.str "Ghost") (.int 4) .classes, .bare (.str "A") (.int 3) .classes, .bare (.str "B") (.int 2) .classes,
    .bare (.str "C") (.int 1) .classes]

def twoAtMost : FunnelSettings := { (default : FunnelSettings) with maxEntities := .int 2 }

/-- Helpers outside that answer at once. -/
def promptSources : Sources :=
  ⟨.done (.ok liveClasses), .done (.ok []), fun text => .done (.ok text), .outside, fun _ => .done (.ok .null)⟩

theorem staleMatches_searched : Searched liveClasses [] staleMatches [] where
  classNames c inside := by
    obtain ⟨_, _, rfl⟩ := List.mem_map.mp (show c ∈ ["A", "B", "C"].map ClassEntity.bare from inside)
    exact ⟨_, rfl⟩
  methodNames := by simp
  ofClasses := by decide
  ofMethods := by simp
  names := by simp [staleMatches, Match.bare, Value.IsText]
  scores := by simp [staleMatches, Match.bare, Match.Scored, Value.magnitude?]

theorem prefilter_capped_stale :
    ∃ p, Narrows twoAtMost promptSources (.str "orders") liveClasses [] staleMatches [] p ∧
      Capped 2 liveClasses [] (staleMatches ++ []) p :=
  prefilter_capped twoAtMost promptSources (.str "orders") rfl (by decide) staleMatches_searched

/-- The cap counts members and cuts matches: a match that names nothing takes the place of one that
does. Here three classes are named, two may stay, and one does. -/
theorem prefilter_not_filled :
    ¬ ∀ (s : FunnelSettings) (sources : Sources) (query : Value) (cap : Int) (classes : List ClassEntity)
      (methods : List MethodEntity) (classMatches methodMatches : List Match) (p : Prefiltered),
      s.maxEntities = .int cap → 1 ≤ cap → Searched classes methods classMatches methodMatches →
      classMatches.Pairwise (·.notBelow ·) → methodMatches.Pairwise (·.notBelow ·) →
      Narrows s sources query classes methods classMatches methodMatches p → p.fallback = false →
      cap ≤ (namedBy classes methods (classMatches ++ methodMatches)).ncard → p.kept.length = cap := by
  intro filled
  have sorted : staleMatches.Pairwise (·.notBelow ·) := by decide
  have top : rankAndCap (staleMatches ++ []) (.int 2) = .ok ((staleMatches ++ []).take 2) :=
    rankAndCap_of_rank (rank_sorted staleMatches_searched.scores (by simpa using sorted)) (by decide)
  have found : resolve (fun c : ClassEntity => .ok c.name) staleMatches liveClasses = .ok (liveClasses, 1) := rfl
  have selects : selectEntities twoAtMost liveClasses [] staleMatches [] =
      .ok (.ofFound liveClasses [] [.bare "A"] [] 1) := by
    have limit : twoAtMost.maxEntities = .int 2 := rfl
    rw [selectEntities, found]
    simp only [resolve, nameIndex, resolveFrom, bind, Except.bind, limit, Value.compare_above_int, top]
    rfl
  have named : (namedBy liveClasses [] (staleMatches ++ [])).ncard = 3 := by
    obtain ⟨classes, _, methods, _, doneClasses, doneMethods, once, finds⟩ := staleMatches_searched.resolved
    cases found.symm.trans doneClasses
    cases doneMethods
    exact (length_eq_ncard once finds).symm
  have one := filled twoAtMost promptSources (.str "orders") 2 liveClasses [] staleMatches [] _ rfl (by decide)
    staleMatches_searched sorted List.Pairwise.nil (.of_select promptSources (.str "orders") selects) rfl (by rw [named]; decide)
  exact absurd one (by decide)

end CodeAtlas
