import CodeAtlas.Ranking

namespace CodeAtlas

section Sorting

variable {α : Type} {le : α → α → Bool} {l : List α}

theorem mergeSort_attach : (l.attach.mergeSort fun a b => le a.1 b.1).map Subtype.val = l.mergeSort le := by
  rw [List.map_mergeSort (s := le) fun _ _ _ _ => rfl, List.attach_map_subtype_val]

/-- The places of a list go up. -/
theorem zipIdx_pairwise (l : List α) : l.zipIdx.Pairwise (·.2 < ·.2) := by
  rw [← List.pairwise_map (f := Prod.snd) (R := (· < ·)), List.zipIdx_map_snd]
  exact List.pairwise_lt_range'

/-- In a list that is in order, what is taken from its front goes before what is left. -/
theorem taken_before {r : α → α → Prop} {n : Nat} {a b : α} (ordered : l.Pairwise r) (taken : a ∈ l.take n) (there : b ∈ l)
    (left : b ∉ l.take n) : r a b := by
  rw [← List.take_append_drop n l] at ordered there
  have dropped : b ∈ l.drop n := (List.mem_append.mp there).resolve_left left
  exact (List.pairwise_append.mp ordered).2.2 a taken b dropped

-- the comparison may be an order on the members of the list only, so these are sorted among their like
variable (trans : ∀ a ∈ l, ∀ b ∈ l, ∀ c ∈ l, le a b → le b c → le a c) (total : ∀ a ∈ l, ∀ b ∈ l, (le a b || le b a) = true)

include trans in
theorem trans_attach (a b c : { x // x ∈ l }) : le a b → le b c → le a c := trans a a.2 b b.2 c c.2

include total in
theorem total_attach (a b : { x // x ∈ l }) : (le a b || le b a) = true := total a a.2 b b.2

include trans total

theorem mergeSort_pairwise : (l.mergeSort le).Pairwise fun a b => le a b := by
  rw [← mergeSort_attach, List.pairwise_map]
  exact List.pairwise_mergeSort (trans_attach trans) (total_attach total) _

/-- Sorting keeps the order of a part that is sorted already. -/
theorem filter_mergeSort {part : α → Bool} (sorted : (l.filter part).Pairwise fun a b => le a b) :
    (l.mergeSort le).filter part = l.filter part := by
  have chosen : (l.filter part).Sublist (l.attach.map Subtype.val) := by
    rw [List.attach_map_subtype_val]
    exact List.filter_sublist
  obtain ⟨members, within, values⟩ := List.sublist_map_iff.mp chosen
  have stays : (l.filter part).Sublist (l.mergeSort le) := by
    rw [values, List.pairwise_map] at sorted
    rw [values, ← mergeSort_attach]
    exact (List.sublist_mergeSort (trans_attach trans) (total_attach total) sorted within).map _
  have kept := stays.filter part
  simp only [List.filter_filter, Bool.and_self] at kept
  exact (kept.eq_of_length ((List.mergeSort_perm ..).filter part).length_eq.symm).symm

/-- Sorting brings nothing before a thing of its own rank that stood before it. -/
theorem pair_of_mergeSort {a b : α} (pair : [a, b].Sublist (l.mergeSort le)) (tie : le b a) : [a, b].Sublist l := by
  have forth : le a b := List.pairwise_iff_forall_sublist.mp (mergeSort_pairwise trans total) pair
  have inside : a ∈ l ∧ b ∈ l := by simpa using pair.subset
  let alike x := le a x && le x a
  have level : (l.filter alike).Pairwise fun x y => le x y := by
    refine List.pairwise_of_forall_mem_list fun x first y second => ?_
    obtain ⟨there, also⟩ := List.mem_filter.mp first
    obtain ⟨there', also'⟩ := List.mem_filter.mp second
    exact trans x there a inside.1 y there' (Bool.and_eq_true_iff.mp also).2 (Bool.and_eq_true_iff.mp also').1
  have self : le a a := trans a inside.1 b inside.2 a inside.1 forth tie
  -- whatever has the rank of the first is in order as it stands, so sorting leaves it as it is
  have kept := pair.filter alike
  rw [filter_mergeSort trans total level, List.filter_eq_self.mpr] at kept
  · exact kept.trans List.filter_sublist
  · simp only [List.mem_cons, List.not_mem_nil, or_false]
    rintro x (rfl | rfl)
    · exact Bool.and_eq_true_iff.mpr ⟨self, self⟩
    · exact Bool.and_eq_true_iff.mpr ⟨forth, tie⟩

/-- A sorted list is in the order of its ranks, and where those are the same in the order in which it was. -/
theorem mergeSort_stable {r : α → α → Prop} (ordered : l.Pairwise r) :
    (l.mergeSort le).Pairwise fun a b => le a b ∧ (le b a → r a b) := by
  refine List.pairwise_iff_forall_sublist.mpr fun pair => ⟨?_, fun tie => ?_⟩
  · exact List.pairwise_iff_forall_sublist.mp (mergeSort_pairwise trans total) pair
  · exact List.pairwise_iff_forall_sublist.mp ordered (pair_of_mergeSort trans total pair tie)

end Sorting

namespace Magnitude

variable {a b c : Magnitude}

theorem not_lt_trans (number : b ≠ .nan) (first : a.lt b = false) (second : b.lt c = false) : a.lt c = false := by
  cases a <;> cases b <;> cases c <;> simp_all only [lt, ne_eq, not_true_eq_false, reduceCtorEq]
  next p q r =>
    have first : q ≤ p := Rat.not_lt.mp (of_decide_eq_false first)
    have second : r ≤ q := Rat.not_lt.mp (of_decide_eq_false second)
    exact decide_eq_false (Rat.not_lt.mpr (Rat.le_trans second first))

theorem lt_trans (number : c ≠ .nan) (first : a.lt b) (second : b.lt c) : a.lt c := by
  cases beyond : a.lt c with
  | true => rfl
  | false => exact absurd first (Bool.eq_false_iff.mp (not_lt_trans number beyond (not_lt_of_lt second)))

theorem same_iff (number : a ≠ .nan) : a.same b ↔ a = b := by
  cases a <;> cases b <;> simp_all [same]

theorem lt_trichotomy (number : a ≠ .nan) (number' : b ≠ .nan) : a.lt b ∨ a = b ∨ b.lt a := by
  cases a <;> cases b <;> simp_all [lt]
  next p q => grind

theorem finite_lt_finite (a b : Int) : (Magnitude.finite a).lt (.finite b) = decide (a < b) := by
  simp only [lt, Rat.intCast_lt_intCast]

end Magnitude

namespace Value

theorem compare_above_int (a b : Int) : Value.compare .above (.int a) (.int b) = .ok (decide (b < a)) := by
  rw [Value.compare_of_magnitudes rfl rfl, Comparison.magnitudes, Magnitude.finite_lt_finite]

/-- The first of two values is below the other. -/
def Below (v w : Value) : Prop := Value.compare .below v w = .ok true

variable {v w : Value} {a b : Magnitude}

theorem below_iff (left : v.magnitude? = some a) (right : w.magnitude? = some b) : v.Below w ↔ a.lt b := by
  rw [Below, compare_of_magnitudes left right, Except.ok.injEq]
  rfl

theorem same_of_magnitudes (left : v.magnitude? = some a) (right : w.magnitude? = some b) : v.same w = a.same b := by
  cases v <;> cases w <;> simp_all [same, magnitude?]

end Value

/-- Values that are totally ordered: any two compare, one is below the other or both are the same, nothing is below itself, what is
below passes on, and what is the same compares alike. -/
structure TotallyOrdered (values : List Value) : Prop where
  compares : ∀ v ∈ values, ∀ w ∈ values, ∃ below, Value.compare .below v w = .ok below
  trichotomy : ∀ v ∈ values, ∀ w ∈ values, v.Below w ∨ v.same w ∨ w.Below v
  irrefl : ∀ v ∈ values, ¬v.Below v
  trans : ∀ u ∈ values, ∀ v ∈ values, ∀ w ∈ values, u.Below v → v.Below w → u.Below w
  alike : ∀ u ∈ values, ∀ v ∈ values, ∀ w ∈ values, v.same w → (u.Below v ↔ u.Below w) ∧ (v.Below u ↔ w.Below u)

namespace TotallyOrdered

variable {values : List Value} {u v w : Value} (ordered : TotallyOrdered values)

include ordered

theorem mono {some : List Value} (among : ∀ v ∈ some, v ∈ values) : TotallyOrdered some where
  compares v hv w hw := ordered.compares v (among v hv) w (among w hw)
  trichotomy v hv w hw := ordered.trichotomy v (among v hv) w (among w hw)
  irrefl v hv := ordered.irrefl v (among v hv)
  trans u hu v hv w hw := ordered.trans u (among u hu) v (among v hv) w (among w hw)
  alike u hu v hv w hw := ordered.alike u (among u hu) v (among v hv) w (among w hw)

theorem asymm (hv : v ∈ values) (hw : w ∈ values) (below : v.Below w) : ¬w.Below v :=
  fun back => ordered.irrefl v hv (ordered.trans v hv w hw v hv below back)

theorem same_iff (hv : v ∈ values) (hw : w ∈ values) : v.same w ↔ ¬v.Below w ∧ ¬w.Below v := by
  constructor
  · intro same
    have alike := ordered.alike v hv v hv w hw same
    exact ⟨mt alike.1.mpr (ordered.irrefl v hv), mt alike.2.mpr (ordered.irrefl v hv)⟩
  · rintro ⟨notBelow, notAbove⟩
    rcases ordered.trichotomy v hv w hw with below | same | above
    · exact absurd below notBelow
    · exact same
    · exact absurd above notAbove

theorem not_below_trans (hu : u ∈ values) (hv : v ∈ values) (hw : w ∈ values) (first : ¬u.Below v) (second : ¬v.Below w) :
    ¬u.Below w := by
  intro below
  rcases ordered.trichotomy u hu v hv with before | same | after
  · exact first before
  · exact second ((ordered.alike w hw u hu v hv same).2.mp below)
  · exact second (ordered.trans v hv u hu w hw after below)

end TotallyOrdered

/-- The score of a match is a number. -/
def Match.Scored (m : Match) : Prop := ∃ a, m.score.magnitude? = some a ∧ a ≠ .nan

theorem Match.notBelow_eq {m other : Match} {a b : Magnitude} (left : m.score.magnitude? = some a)
    (right : other.score.magnitude? = some b) : m.notBelow other = !a.lt b := by
  rw [Match.notBelow, Value.compare_of_magnitudes left right]
  rfl

theorem Match.notBelow_total {m other : Match} (scored : m.Scored) (scored' : other.Scored) :
    m.notBelow other ∨ other.notBelow m := by
  obtain ⟨a, left, _⟩ := scored
  obtain ⟨b, right, _⟩ := scored'
  rw [notBelow_eq left right, notBelow_eq right left]
  cases less : a.lt b with
  | false => exact Or.inl rfl
  | true => exact Or.inr (by rw [Magnitude.not_lt_of_lt less]; rfl)

theorem Match.notBelow_trans {m other third : Match} (scored : m.Scored) (scored' : other.Scored)
    (scored'' : third.Scored) (first : m.notBelow other) (second : other.notBelow third) : m.notBelow third := by
  obtain ⟨a, left, _⟩ := scored
  obtain ⟨b, middle, number⟩ := scored'
  obtain ⟨c, right, _⟩ := scored''
  rw [notBelow_eq left middle, Bool.not_eq_true'] at first
  rw [notBelow_eq middle right, Bool.not_eq_true'] at second
  rw [notBelow_eq left right, Magnitude.not_lt_trans number first second]
  rfl

/-- Numbers are totally ordered. -/
theorem TotallyOrdered.of_scored {hits : List Match} (scored : ∀ m ∈ hits, m.Scored) : TotallyOrdered (hits.map (·.score)) := by
  constructor <;> simp only [List.forall_mem_map]
  case compares =>
    intro m inside n inside'
    obtain ⟨a, left, -⟩ := scored m inside
    obtain ⟨b, right, -⟩ := scored n inside'
    exact ⟨_, Value.compare_of_magnitudes left right⟩
  case trichotomy =>
    intro m inside n inside'
    obtain ⟨a, left, number⟩ := scored m inside
    obtain ⟨b, right, number'⟩ := scored n inside'
    rw [Value.below_iff left right, Value.below_iff right left, Value.same_of_magnitudes left right, Magnitude.same_iff number]
    exact Magnitude.lt_trichotomy number number'
  case irrefl =>
    intro m inside
    obtain ⟨a, left, -⟩ := scored m inside
    rw [Value.below_iff left left, Magnitude.lt_irrefl]
    exact Bool.false_ne_true
  case trans =>
    intro m inside n inside' o inside'' first second
    obtain ⟨a, left, -⟩ := scored m inside
    obtain ⟨b, middle, -⟩ := scored n inside'
    obtain ⟨c, right, number⟩ := scored o inside''
    rw [Value.below_iff left middle] at first
    rw [Value.below_iff middle right] at second
    exact (Value.below_iff left right).mpr (Magnitude.lt_trans number first second)
  case alike =>
    intro m inside n inside' o inside'' same
    obtain ⟨a, left, -⟩ := scored m inside
    obtain ⟨b, middle, number⟩ := scored n inside'
    obtain ⟨c, right, -⟩ := scored o inside''
    rw [Value.same_of_magnitudes middle right, Magnitude.same_iff number] at same
    subst same
    rw [Value.below_iff left middle, Value.below_iff left right, Value.below_iff middle left, Value.below_iff right left]
    exact ⟨Iff.rfl, Iff.rfl⟩

section Ranking

variable {hits : List Match} (ordered : TotallyOrdered (hits.map (·.score)))

include ordered

theorem Match.notBelow_iff {m other : Match} (inside : m ∈ hits) (inside' : other ∈ hits) :
    m.notBelow other ↔ ¬m.score.Below other.score := by
  obtain ⟨below, compared⟩ := ordered.compares _ (List.mem_map_of_mem inside) _ (List.mem_map_of_mem inside')
  rw [Match.notBelow, Value.Below, compared]
  cases below <;> simp

theorem TotallyOrdered.notBelow_trans : ∀ a ∈ hits, ∀ b ∈ hits, ∀ c ∈ hits, a.notBelow b → b.notBelow c → a.notBelow c := by
  intro a first b second c third
  rw [Match.notBelow_iff ordered first second, Match.notBelow_iff ordered second third, Match.notBelow_iff ordered first third]
  exact ordered.not_below_trans (List.mem_map_of_mem first) (List.mem_map_of_mem second) (List.mem_map_of_mem third)

theorem TotallyOrdered.notBelow_total : ∀ a ∈ hits, ∀ b ∈ hits, (a.notBelow b || b.notBelow a) = true := by
  intro a first b second
  rw [Bool.or_eq_true, Match.notBelow_iff ordered first second, Match.notBelow_iff ordered second first]
  by_cases below : a.score.Below b.score
  · exact .inr (ordered.asymm (List.mem_map_of_mem first) (List.mem_map_of_mem second) below)
  · exact .inl below

theorem checkScores_ordered : checkScores hits = .ok () := by
  fun_induction checkScores hits with
  | case1 a b rest ih =>
    obtain ⟨below, compared⟩ := ordered.compares b.score (by simp) a.score (by simp)
    rw [compared]
    exact ih (ordered.mono fun v inside => List.mem_cons_of_mem _ inside)
  | case2 => rfl

/-- Matches whose scores are totally ordered can be ranked. -/
theorem rank_ordered : rank hits = .ok (hits.mergeSort Match.notBelow) := by
  rw [rank, checkScores_ordered ordered]
  rfl

end Ranking

theorem rank_sorted {hits : List Match} (scored : ∀ m ∈ hits, m.Scored) (sorted : hits.Pairwise (·.notBelow ·)) :
    rank hits = .ok hits := by
  rw [rank_ordered (.of_scored scored), List.mergeSort_of_pairwise sorted]

/-- A cap that is not negative keeps that many of the first. -/
theorem rankAndCap_of_rank {hits ranked : List Match} {cap : Int} (ranks : rank hits = .ok ranked)
    (positive : 0 ≤ cap) : rankAndCap hits (.int cap) = .ok (ranked.take cap.toNat) := by
  have bounded : ¬ cap < 0 := by omega
  simp [rankAndCap, ranks, Value.compare_above_int, bounded, cutTo, takeBound, positive, bind, Except.bind]

/-- A negative cap keeps none. -/
theorem rankAndCap_negative {hits ranked : List Match} {cap : Int} (ranks : rank hits = .ok ranked)
    (negative : cap < 0) : rankAndCap hits (.int cap) = .ok [] := by
  simp [rankAndCap, ranks, Value.compare_above_int, negative, cutTo, takeBound, bind, Except.bind]

/-- Scored matches are ranked by their scores, and the cap keeps that many of the first ones. -/
theorem rankAndCap_scored {hits : List Match} {cap : Int} (scored : ∀ m ∈ hits, m.Scored) (positive : 0 ≤ cap) :
    ∃ ranked : List Match, ranked.Perm hits ∧ ranked.Pairwise (·.notBelow ·) ∧
      rankAndCap hits (.int cap) = .ok (ranked.take cap.toNat) := by
  have ordered := TotallyOrdered.of_scored scored
  have ranks := rank_ordered ordered
  exact ⟨_, rank_perm ranks, mergeSort_pairwise ordered.notBelow_trans ordered.notBelow_total, rankAndCap_of_rank ranks positive⟩

theorem length_partitionByKind (hits : List Match) :
    (partitionByKind hits).1.length + (partitionByKind hits).2.length = hits.length := by
  have other : ∀ m : Match, (m.kind == .methods) = decide ¬(m.kind == .classes) := fun m => by cases m.kind <;> rfl
  simp only [partitionByKind, other, ← List.countP_eq_length_filter]
  exact (List.length_eq_countP_add_countP ..).symm

end CodeAtlas
