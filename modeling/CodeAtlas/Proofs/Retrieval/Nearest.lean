import CodeAtlas.Proofs.Graph.Sending
import CodeAtlas.Proofs.Retrieval.Ranking
import CodeAtlas.Proofs.Turns.Runs
import CodeAtlas.Similarity
import Mathlib.Data.List.Forall2

namespace CodeAtlas

namespace ScoredPoint

/-- A server gives a double for a score, and beside a point a dictionary or nothing. -/
structure Proper (p : ScoredPoint) : Prop where
  score : ∃ x, p.score = .float x
  payload : p.payload = .null ∨ ∃ fields, p.payload = .dict fields

/-- What is made of a point and of what is stored beside it. -/
def entity (kind : Kind) (p : ScoredPoint) : Match where
  name := (p.payload.field? "name").getD (.str "")
  score := p.score
  kind
  fullName := p.payload.field "full_name"
  packageName := p.payload.field "package_name"
  signature := p.payload.field "signature"
  className := p.payload.field "class_name"

def reaches (threshold : Value) (p : ScoredPoint) : Bool := (Value.compare .atLeast p.score threshold).toOption == some true

/-- One point has a lower score than another. -/
def Below (p q : ScoredPoint) : Prop := Value.compare .below p.score q.score = .ok true

theorem Proper.ofPoint {p : ScoredPoint} (proper : p.Proper) (kind : Kind) : Match.ofPoint kind p = .ok (p.entity kind) := by
  obtain ⟨score, payload⟩ := p
  obtain ⟨⟨x, rfl⟩, rfl | ⟨fields, rfl⟩⟩ := proper
  · rfl
  · cases fields <;> rfl

theorem Proper.scored {p : ScoredPoint} {threshold : Value} {t : Magnitude} (proper : p.Proper)
    (number : threshold.magnitude? = some t) (reaches : p.reaches threshold) (kind : Kind) : (p.entity kind).Scored := by
  obtain ⟨x, score⟩ := proper.score
  have magnitude : p.score.magnitude? = some (.ofFloat x) := by rw [score]; rfl
  refine ⟨.ofFloat x, magnitude, fun nan => ?_⟩
  rw [ScoredPoint.reaches, Value.compare_of_magnitudes magnitude number, nan] at reaches
  cases t <;> cases reaches

end ScoredPoint

theorem matchesAbove_proper {threshold : Value} {t : Magnitude} (number : threshold.magnitude? = some t) (kind : Kind)
    {points : List ScoredPoint} (proper : ∀ p ∈ points, p.Proper) :
    matchesAbove threshold kind points = .ok ((points.filter (·.reaches threshold)).map (·.entity kind)) := by
  induction points with
  | nil => rfl
  | cons p rest ih =>
    have ih := ih fun q inside => proper q (List.mem_cons_of_mem _ inside)
    have proper := proper p (List.mem_cons_self ..)
    obtain ⟨x, score⟩ := proper.score
    have magnitude : p.score.magnitude? = some (.ofFloat x) := by rw [score]; rfl
    have compared := Value.compare_of_magnitudes (c := .atLeast) magnitude number
    rw [matchesAbove, compared, List.filter_cons, ScoredPoint.reaches, compared]
    cases Comparison.atLeast.magnitudes (.ofFloat x) t with
    | true => simp [bind, Except.bind, proper.ofPoint, ih, Except.toOption, pure, Except.pure]
    | false => simp [bind, Except.bind, ih, Except.toOption]

/-- The places of the points that are kept, the best ones of those that reach the threshold. -/
structure Nearest (points : List ScoredPoint) (threshold : Value) (limit : Nat) (kept : List Nat) : Prop where
  reaches : ∀ i ∈ kept, ∃ p, points[i]? = some p ∧ p.reaches threshold
  /-- The scores go down, and where they do not, the places go up. -/
  ranked : kept.Pairwise fun i j => ∀ p ∈ points[i]?, ∀ q ∈ points[j]?, ¬p.Below q ∧ (q.Below p ∨ i < j)
  best : ∀ i ∉ kept, ∀ j ∈ kept, ∀ p ∈ points[i]?, ∀ q ∈ points[j]?, p.reaches threshold → ¬q.Below p
  count : kept.length = min limit (points.countP (·.reaches threshold))

/-- A point that may be kept, and its place. -/
structure Candidate (points : List ScoredPoint) (threshold : Value) (kind : Kind) where
  place : Nat
  point : ScoredPoint
  there : points[place]? = some point
  reaches : point.reaches threshold
  scored : (point.entity kind).Scored

namespace Candidate

variable {points : List ScoredPoint} {threshold : Value} {kind : Kind}

/-- A candidate may stand before another: its score is not below the other one's. -/
def notBelow (a b : Candidate points threshold kind) : Bool := (a.point.entity kind).notBelow (b.point.entity kind)

theorem notBelow_trans (a b c : Candidate points threshold kind) : a.notBelow b → b.notBelow c → a.notBelow c :=
  Match.notBelow_trans a.scored b.scored c.scored

theorem notBelow_total (a b : Candidate points threshold kind) : (a.notBelow b || b.notBelow a) = true :=
  Bool.or_eq_true _ _ ▸ Match.notBelow_total a.scored b.scored

theorem notBelow_iff (a b : Candidate points threshold kind) : a.notBelow b ↔ ¬a.point.Below b.point := by
  obtain ⟨x, left, -⟩ := a.scored
  obtain ⟨y, right, -⟩ := b.scored
  have compared := Value.compare_of_magnitudes (c := .below) left right
  rw [notBelow, Match.notBelow_eq left right, ScoredPoint.Below]
  change _ ↔ ¬Value.compare .below (a.point.entity kind).score (b.point.entity kind).score = .ok true
  rw [compared, Comparison.magnitudes]
  cases x.lt y <;> simp

/-- All candidates, in the order of the points. -/
def all {t : Magnitude} (number : threshold.magnitude? = some t) (kind : Kind) (proper : ∀ p ∈ points, p.Proper) :
    List (Candidate points threshold kind) :=
  (points.zipIdx.filter (·.1.reaches threshold)).pmap
    (fun a inside => {
      place := a.2
      point := a.1
      there := List.mem_zipIdx_iff_getElem?.mp (List.mem_filter.mp inside).1
      reaches := (List.mem_filter.mp inside).2
      scored := (proper a.1 (List.fst_mem_of_mem_zipIdx (List.mem_filter.mp inside).1)).scored number
        (List.mem_filter.mp inside).2 kind })
    fun _ inside => inside

section All

variable {t : Magnitude} (number : threshold.magnitude? = some t) (kind : Kind) (proper : ∀ p ∈ points, p.Proper)

theorem all_point : (all number kind proper).map (·.point) = points.filter (·.reaches threshold) := by
  rw [all, List.map_pmap, List.pmap_eq_map]
  have fst : (points.zipIdx.map Prod.fst).filter (·.reaches threshold) = points.filter (·.reaches threshold) := by
    rw [List.zipIdx_map_fst]
  rw [← fst, List.filter_map]
  rfl

theorem all_place : (all number kind proper).Pairwise (·.place < ·.place) := by
  refine (List.pairwise_pmap _).mpr (((zipIdx_pairwise points).sublist List.filter_sublist).imp ?_)
  intro a b earlier _ _
  exact earlier

theorem exists_of_reaches {i : Nat} {p : ScoredPoint} (there : points[i]? = some p) (reaches : p.reaches threshold) :
    ∃ c ∈ all number kind proper, c.place = i ∧ c.point = p := by
  have inside : (p, i) ∈ points.zipIdx.filter (·.1.reaches threshold) :=
    List.mem_filter.mpr ⟨List.mem_zipIdx_iff_getElem?.mpr there, reaches⟩
  exact ⟨_, List.mem_pmap.mpr ⟨_, inside, rfl⟩, rfl, rfl⟩

/-- The candidates with the highest scores first. -/
def ranked : List (Candidate points threshold kind) := (all number kind proper).mergeSort notBelow

theorem ranked_pairwise : (ranked number kind proper).Pairwise fun a b =>
    ¬a.point.Below b.point ∧ (b.point.Below a.point ∨ a.place < b.place) := by
  refine (mergeSort_stable (fun a _ b _ c _ => notBelow_trans a b c) (fun a _ b _ => notBelow_total a b)
    (all_place number kind proper)).imp fun {a b} ⟨first, tie⟩ => ?_
  refine ⟨(notBelow_iff a b).mp first, ?_⟩
  by_cases lower : b.point.Below a.point
  · exact .inl lower
  · exact .inr (tie ((notBelow_iff b a).mpr lower))

/-- The first of the ranked candidates are the best of the points. -/
theorem ranked_nearest (limit : Nat) :
    Nearest points threshold limit (((ranked number kind proper).take limit).map (·.place)) where
  reaches := by
    intro i inside
    obtain ⟨c, -, rfl⟩ := List.mem_map.mp inside
    exact ⟨c.point, c.there, c.reaches⟩
  ranked := by
    refine List.pairwise_map.mpr (((ranked_pairwise number kind proper).sublist (List.take_sublist ..)).imp fun {a b} order => ?_)
    rintro p found q found'
    cases a.there.symm.trans found
    cases b.there.symm.trans found'
    exact order
  best := by
    intro i left j inside p found q found' reaches
    obtain ⟨d, taken, rfl⟩ := List.mem_map.mp inside
    obtain ⟨c, among, rfl, rfl⟩ := exists_of_reaches number kind proper found reaches
    have somewhere : c ∈ ranked number kind proper := (List.mergeSort_perm ..).mem_iff.mpr among
    have passed : c ∉ (ranked number kind proper).take limit := fun kept => left (List.mem_map_of_mem kept)
    cases d.there.symm.trans found'
    exact (taken_before (ranked_pairwise number kind proper) taken somewhere passed).1
  count := by
    have size : (ranked number kind proper).length = points.countP (·.reaches threshold) := by
      rw [ranked, List.length_mergeSort, List.countP_eq_length_filter, ← all_point number kind proper, List.length_map]
    rw [List.length_map, List.length_take, size]

/-- What is made of the points that reach the threshold is ranked as they are. -/
theorem rank_entities : rank ((points.filter (·.reaches threshold)).map (·.entity kind)) =
    .ok ((ranked number kind proper).map fun c => c.point.entity kind) := by
  have hits : (points.filter (·.reaches threshold)).map (·.entity kind) =
      (all number kind proper).map fun c => c.point.entity kind := by
    rw [← all_point number kind proper, List.map_map]
    rfl
  have sorted := List.map_mergeSort (r := notBelow) (s := Match.notBelow) (f := fun c => c.point.entity kind)
    (l := all number kind proper) fun _ _ _ _ => rfl
  have scored : ∀ m ∈ (all number kind proper).map fun c => c.point.entity kind, m.Scored := by
    intro m inside
    obtain ⟨c, -, rfl⟩ := List.mem_map.mp inside
    exact c.scored
  rw [hits, rank_ordered (.of_scored scored), ranked, sorted]

end All

end Candidate

open Routine

section Searching

variable (settings : VectorSettings) (addressed : Bool) (vector threshold : Value) (kind : Kind)

/-- The client for a search is opened, ... -/
def Event.opensVectors (reply : Except Fault Unit) : Event :=
  .hears (.openVectors (if addressed then settings.host else .null) (if addressed then settings.port else .null)) reply

/-- ... asked for the points, ... -/
def Event.searches (limit : Nat) (reply : Except Fault (List ScoredPoint)) : Event :=
  .hears (.searchPoints (settings.collectionFor kind) vector (.int limit) threshold) reply

/-- ... and closed. -/
def Event.closesVectors (reply : Except Fault Unit) : Event := .hears .closeVectors reply

/-- What becomes of the points that a server has found. -/
def bestMatches (limit : Value) (points : List ScoredPoint) : Except Fault (List Match) := do
  let found ← matchesAbove threshold kind points
  cutTo limit (← rank found)

theorem bestMatches_proper {points : List ScoredPoint} {t : Magnitude} (number : threshold.magnitude? = some t)
    (proper : ∀ p ∈ points, p.Proper) (limit : Nat) : ∃ kept hits, Nearest points threshold limit kept ∧
      List.Forall₂ (fun i hit => ∃ p, points[i]? = some p ∧ hit = p.entity kind) kept hits ∧
      bestMatches threshold kind (.int limit) points = .ok hits := by
  let chosen := (Candidate.ranked number kind proper).take limit
  have entities : List.Forall₂ (fun i hit => ∃ p, points[i]? = some p ∧ hit = p.entity kind) (chosen.map (·.place))
      (chosen.map fun c => c.point.entity kind) := by
    rw [List.forall₂_map_left_iff, List.forall₂_map_right_iff, List.forall₂_same]
    exact fun c _ => ⟨c.point, c.there, rfl⟩
  refine ⟨_, _, Candidate.ranked_nearest number kind proper limit, entities, ?_⟩
  have cut {hits : List Match} : cutTo (.int limit) hits = .ok (hits.take limit) := by
    simp [cutTo, takeBound]
  rw [bestMatches, matchesAbove_proper number kind proper]
  change rank _ >>= _ = _
  rw [Candidate.rank_entities number kind proper]
  exact cut.trans (congrArg Except.ok (List.map_take ..).symm)

theorem searchServer_eq (limit : Value) : searchServer settings addressed vector limit threshold kind =
    (query (.openVectors (if addressed then settings.host else .null) (if addressed then settings.port else .null)) >>= fun _ =>
      (query (.searchPoints (settings.collectionFor kind) vector limit threshold)).ensuring (query .closeVectors)) >>=
        fun points => Routine.ofExcept (bestMatches threshold kind limit points) := by
  simp only [searchServer, bestMatches, bind_assoc, Routine.ofExcept_bind]
  rfl

/-- A search asks for the points in between, and makes its matches of them when its client is closed. -/
theorem searchServer_runs {limit : Nat} {log : List Event} {result : Except Fault (List Match)}
    (runs : (searchServer settings addressed vector (.int limit) threshold kind).Runs log result) :
    (∃ fault, log = [.opensVectors settings addressed (.error fault)] ∧ result = .error fault) ∨
    ∃ found shut, log = [.opensVectors settings addressed (.ok ()), .searches settings vector threshold kind limit found,
      .closesVectors shut] ∧ result = shut >>= fun _ => found >>= bestMatches threshold kind (.int limit) := by
  rw [searchServer_eq] at runs
  rcases runs_session_read runs with failed | ⟨_, inner, closing, found, shut, rfl, asks, closes, rfl⟩
  · exact .inl failed
  · obtain rfl := runs_query.mp asks
    obtain rfl := runs_query.mp closes
    exact .inr ⟨found, shut, rfl, rfl⟩

/-- A search for at most so many points opens a client of its own and closes it in any case. Of the points that the server
has found it keeps the best. -/
structure Searches (limit : Nat) (p : Routine (List Match)) : Prop where
  ends : ∀ c : Conduct, ∃ log result, c.Follows [] log ∧ p.Runs log result
  closes : ∀ {log result}, p.Runs log result →
    (∃ fault, log = [.opensVectors settings addressed (.error fault)] ∧ result = .error fault) ∨
    ∃ found shut, log = [.opensVectors settings addressed (.ok ()), .searches settings vector threshold kind limit found,
      .closesVectors shut]
  fails : ∀ {fault result}, p.Runs [.opensVectors settings addressed (.ok ()),
    .searches settings vector threshold kind limit (.error fault), .closesVectors (.ok ())] result → result = .error fault
  finds : ∀ {points result}, (∀ p ∈ points, p.Proper) → p.Runs [.opensVectors settings addressed (.ok ()),
    .searches settings vector threshold kind limit (.ok points), .closesVectors (.ok ())] result →
    ∃ kept hits, Nearest points threshold limit kept ∧
      List.Forall₂ (fun i hit => ∃ p, points[i]? = some p ∧ hit = p.entity kind) kept hits ∧ result = .ok hits

theorem searchServer_nearest {t : Magnitude} (number : threshold.magnitude? = some t) (limit : Nat) :
    Searches settings addressed vector threshold kind limit
      (searchServer settings addressed vector (.int limit) threshold kind) where
  ends c := runs_under c [] _
  closes runs := by
    rcases searchServer_runs _ _ _ _ _ runs with failed | ⟨found, shut, rfl, -⟩
    · exact .inl failed
    · exact .inr ⟨found, shut, rfl⟩
  fails runs := by
    rcases searchServer_runs _ _ _ _ _ runs with ⟨_, ⟨⟩, _⟩ | ⟨found, shut, ⟨⟩, rfl⟩
    rfl
  finds proper runs := by
    rcases searchServer_runs _ _ _ _ _ runs with ⟨_, ⟨⟩, _⟩ | ⟨found, shut, ⟨⟩, rfl⟩
    exact bestMatches_proper threshold kind number proper limit

/-- Points as a server may find them: one is below the threshold, one has no score, one has nothing stored beside it. -/
def somePoints : List ScoredPoint := [
  { score := .float 0.25, payload := .record [("name", .str "Order")] },
  { score := .float (0 / 0), payload := .record [("name", .str "Cart")] },
  { score := .float 0.75, payload := .null },
  { score := .float 0.75, payload := .record [("name", .str "Item")] }]

theorem somePoints_proper : ∀ p ∈ somePoints, p.Proper := by
  simp only [somePoints, List.mem_cons, List.not_mem_nil, or_false]
  rintro p (rfl | rfl | rfl | rfl)
  · exact ⟨⟨_, rfl⟩, .inr ⟨_, rfl⟩⟩
  · exact ⟨⟨_, rfl⟩, .inr ⟨_, rfl⟩⟩
  · exact ⟨⟨_, rfl⟩, .inl rfl⟩
  · exact ⟨⟨_, rfl⟩, .inr ⟨_, rfl⟩⟩

theorem searchServer_nearest_half : (Value.float 0.5).magnitude? = some (.ofFloat 0.5) ∧
    Searches default true (.list []) (.float 0.5) .classes 2
      (searchServer default true (.list []) (.int (2 : Nat)) (.float 0.5) .classes) ∧
    ∃ kept hits, Nearest somePoints (.float 0.5) 2 kept ∧
      (searchServer default true (.list []) (.int (2 : Nat)) (.float 0.5) .classes).Runs [
        .opensVectors default true (.ok ()), .searches default (.list []) (.float 0.5) .classes 2 (.ok somePoints),
        .closesVectors (.ok ())] (.ok hits) := by
  have searches := searchServer_nearest default true (.list []) (.float 0.5) .classes rfl 2
  obtain ⟨result, runs⟩ : ∃ result, (searchServer default true (.list []) (.int (2 : Nat)) (.float 0.5) .classes).Runs [
      .opensVectors default true (.ok ()), .searches default (.list []) (.float 0.5) .classes 2 (.ok somePoints),
      .closesVectors (.ok ())] result := ⟨_, .ask (.ask (.ask .done))⟩
  obtain ⟨kept, hits, nearest, -, rfl⟩ := searches.finds somePoints_proper runs
  exact ⟨rfl, searches, kept, hits, nearest, runs⟩

end Searching

end CodeAtlas
