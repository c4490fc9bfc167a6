import CodeAtlas.Proofs.Retrieval.Ranking
import Mathlib.Data.List.Perm.Subperm

namespace CodeAtlas

/-- Of two matches with their places the first is the better one: its score is not below the other's, and where both are the
same it stands earlier. -/
def Precedes (a b : Match × Nat) : Prop := ¬a.1.score.Below b.1.score ∧ (a.1.score.same b.1.score → a.2 < b.2)

/-- The best of some matches with their places, as many as the cap says; a negative cap keeps none. -/
structure Best (hits : List Match) (cap : Int) (kept : List (Match × Nat)) : Prop where
  among : kept.Subperm hits.zipIdx
  count : (kept.length : Int) = min (max cap 0) hits.length
  ranked : kept.Pairwise Precedes
  better : ∀ a ∈ kept, ∀ b ∈ hits.zipIdx, b ∉ kept → Precedes a b

/-- Matches told apart by their kinds: both parts keep their order, nothing is lost and nothing is in the wrong part. -/
structure ToldApart (hits : List Match) (parts : List Match × List Match) : Prop where
  classes : parts.1.Sublist hits
  methods : parts.2.Sublist hits
  length : parts.1.length + parts.2.length = hits.length
  ofClasses : ∀ m, m ∈ parts.1 ↔ m ∈ hits ∧ m.kind = .classes
  ofMethods : ∀ m, m ∈ parts.2 ↔ m ∈ hits ∧ m.kind = .methods

theorem partitionByKind_toldApart (hits : List Match) : ToldApart hits (partitionByKind hits) where
  classes := List.filter_sublist
  methods := List.filter_sublist
  length := length_partitionByKind hits
  ofClasses m := by rw [partitionByKind, List.mem_filter, beq_iff_eq]
  ofMethods m := by rw [partitionByKind, List.mem_filter, beq_iff_eq]

/-- The matches with their places, the highest scores first. -/
def placed (hits : List Match) : List (Match × Nat) := hits.zipIdx.mergeSort fun a b => a.1.notBelow b.1

theorem placed_perm (hits : List Match) : (placed hits).Perm hits.zipIdx := List.mergeSort_perm ..

theorem length_placed (hits : List Match) : (placed hits).length = hits.length := by
  rw [(placed_perm hits).length_eq, List.length_zipIdx]

theorem map_fst_placed (hits : List Match) : (placed hits).map Prod.fst = hits.mergeSort Match.notBelow := by
  rw [placed, List.map_mergeSort (s := Match.notBelow) fun _ _ _ _ => rfl, List.zipIdx_map_fst]

theorem zipIdx_nodup {α : Type} (l : List α) : l.zipIdx.Nodup :=
  (zipIdx_pairwise l).imp fun earlier same => absurd (same ▸ earlier) (Nat.lt_irrefl _)

section Choosing

variable {hits : List Match} {cap : Int} {kept others : List (Match × Nat)} {a b : Match × Nat}

/-- With a cap that is not below their number, the best of the matches are all of them. -/
theorem Best.whole (best : Best hits cap kept) (enough : (hits.length : Int) ≤ cap) : (kept.map Prod.fst).Perm hits := by
  have count := best.count
  have all : hits.zipIdx.length ≤ kept.length := by
    rw [List.length_zipIdx]
    omega
  have perm := (best.among.perm_of_length_le all).map Prod.fst
  rwa [List.zipIdx_map_fst] at perm

theorem Best.once (best : Best hits cap kept) : kept.Nodup := by
  obtain ⟨some, perm, within⟩ := best.among
  exact perm.nodup_iff.mp ((zipIdx_nodup hits).sublist within)

theorem Best.perm_of_subset (best : Best hits cap kept) (best' : Best hits cap others) (within : others ⊆ kept) :
    others.Perm kept := by
  have count := best.count.trans best'.count.symm
  exact (List.subperm_of_subset best'.once within).perm_of_length_le (by omega)

theorem fst_mem (there : a ∈ hits.zipIdx) : a.1 ∈ hits := List.fst_mem_of_mem_zipIdx there

theorem score_mem (there : a ∈ hits.zipIdx) : a.1.score ∈ hits.map (·.score) := List.mem_map_of_mem (fst_mem there)

variable (ordered : TotallyOrdered (hits.map (·.score)))

include ordered

theorem Precedes.of_notBelow (first : a ∈ hits.zipIdx) (second : b ∈ hits.zipIdx) (notBelow : a.1.notBelow b.1)
    (tie : b.1.notBelow a.1 → a.2 < b.2) : Precedes a b := by
  refine ⟨(Match.notBelow_iff ordered (fst_mem first) (fst_mem second)).mp notBelow, fun same => tie ?_⟩
  have level := (ordered.same_iff (score_mem first) (score_mem second)).mp same
  exact (Match.notBelow_iff ordered (fst_mem second) (fst_mem first)).mpr level.2

theorem Precedes.asymm (first : a ∈ hits.zipIdx) (second : b ∈ hits.zipIdx) (precedes : Precedes a b) : ¬Precedes b a := by
  intro back
  have same := (ordered.same_iff (score_mem first) (score_mem second)).mpr ⟨precedes.1, back.1⟩
  have same' := (ordered.same_iff (score_mem second) (score_mem first)).mpr ⟨back.1, precedes.1⟩
  exact Nat.lt_asymm (precedes.2 same) (back.2 same')

/-- The places stay in their order where the scores are the same. -/
theorem placed_ranked : (placed hits).Pairwise Precedes := by
  have stable : (placed hits).Pairwise fun a b => a.1.notBelow b.1 ∧ (b.1.notBelow a.1 → a.2 < b.2) :=
    mergeSort_stable
      (fun a ha b hb c hc => ordered.notBelow_trans a.1 (fst_mem ha) b.1 (fst_mem hb) c.1 (fst_mem hc))
      (fun a ha b hb => ordered.notBelow_total a.1 (fst_mem ha) b.1 (fst_mem hb)) (zipIdx_pairwise hits)
  refine stable.imp_of_mem fun first second ⟨notBelow, tie⟩ => ?_
  have there := (placed_perm hits).mem_iff.mp first
  have there' := (placed_perm hits).mem_iff.mp second
  exact .of_notBelow ordered there there' notBelow tie

/-- The first of the ranked matches are the best. -/
theorem take_placed_best (cap : Int) : Best hits cap ((placed hits).take cap.toNat) where
  among := (List.take_sublist ..).subperm.trans (placed_perm hits).subperm
  count := by
    rw [List.length_take, length_placed]
    omega
  ranked := (placed_ranked ordered).sublist (List.take_sublist ..)
  better _ taken _ there left := taken_before (placed_ranked ordered) taken ((placed_perm hits).mem_iff.mpr there) left

/-- A match that is among the best once is so in every other list of the best. -/
theorem Best.subset (best : Best hits cap kept) (best' : Best hits cap others) : kept ⊆ others := by
  intro a chosen
  by_contra passed
  -- as many are in the other list, so one of them is missing here, and each of the two would have to be the better one
  obtain ⟨b, chosen', passed'⟩ : ∃ b ∈ others, b ∉ kept := by
    by_contra none
    have within : others ⊆ kept := fun b there => by_contra fun missing => none ⟨b, there, missing⟩
    exact passed ((best.perm_of_subset best' within).mem_iff.mpr chosen)
  have there := best.among.subset chosen
  have there' := best'.among.subset chosen'
  have precedes := best.better a chosen b there' passed'
  exact precedes.asymm ordered there there' (best'.better b chosen' a there passed)

theorem Best.unique (best : Best hits cap kept) (best' : Best hits cap others) : others = kept := by
  have perm := best.perm_of_subset best' (best'.subset ordered best)
  refine perm.eq_of_pairwise (fun a b first second precedes back => absurd back ?_) best'.ranked best.ranked
  exact precedes.asymm ordered (best'.among.subset first) (best.among.subset second)

theorem rankAndCap_ordered (cap : Int) : rankAndCap hits (.int cap) = .ok (((placed hits).take cap.toNat).map Prod.fst) := by
  have ranks := rank_ordered ordered
  rw [List.map_take, map_fst_placed]
  by_cases negative : cap < 0
  · rw [rankAndCap_negative ranks negative, Int.toNat_of_nonpos (by omega), List.take_zero]
  · exact rankAndCap_of_rank ranks (by omega)

end Choosing

/-- Matches whose scores are totally ordered are cut to the best of them, whatever the cap: to all of them, in another order, when
the cap is not below their number. No other list of their matches and places is one of the best. What is kept is told apart by
kind without a loss. -/
theorem rankAndCap_chooses {hits : List Match} (ordered : TotallyOrdered (hits.map (·.score))) (cap : Int) :
    ∃ kept, rankAndCap hits (.int cap) = .ok (kept.map Prod.fst) ∧ Best hits cap kept ∧
      (∀ others, Best hits cap others → others = kept) ∧ (hits.length ≤ cap → (kept.map Prod.fst).Perm hits) ∧
      ToldApart (kept.map Prod.fst) (partitionByKind (kept.map Prod.fst)) := by
  have best := take_placed_best ordered cap
  exact ⟨_, rankAndCap_ordered ordered cap, best, fun _ => best.unique ordered, best.whole, partitionByKind_toldApart _⟩

/-- Matches of both kinds, with a tie between three of them where the cut is made. -/
def tiedMatches : List Match :=
  [.bare (.str "total") (.int 1) .methods, .bare (.str "Order") (.int 2) .classes, .bare (.str "Cart") (.bool true) .classes,
    .bare (.str "total") (.int 1) .methods]

theorem rankAndCap_chooses_tied : TotallyOrdered (tiedMatches.map (·.score)) ∧
    ∃ kept, rankAndCap tiedMatches (.int 2) = .ok (kept.map Prod.fst) ∧ Best tiedMatches 2 kept ∧
      kept.map Prod.snd = [1, 0] := by
  have ordered : TotallyOrdered (tiedMatches.map (·.score)) :=
    .of_scored (by simp [tiedMatches, Match.bare, Match.Scored, Value.magnitude?])
  obtain ⟨kept, cut, best, only, -⟩ := rankAndCap_chooses ordered 2
  refine ⟨ordered, kept, cut, best, ?_⟩
  rw [← only _ (take_placed_best ordered 2)]
  simp +decide [placed, tiedMatches, List.mergeSort]

end CodeAtlas
