import CodeAtlas.Entity
import Mathlib.Data.List.Basic

namespace CodeAtlas

/-- The letters A to Z, by code point. -/
def IsPlainCapital (n : Nat) : Prop := 0x41 ≤ n ∧ n ≤ 0x5A

/-- The characters other than A to Z whose capital forms are made of A to Z, in runs by code point. -/
def smallForms : List (Nat × Nat) := [(0x61, 0x7A), (0xDF, 0xDF), (0x131, 0x131), (0x17F, 0x17F), (0xFB00, 0xFB06)]

def IsSmallForm (n : Nat) : Prop := ∃ form ∈ smallForms, form.1 ≤ n ∧ n ≤ form.2

/-- Only small forms are shifted to A to Z, and nothing is shifted to a small form. -/
theorem capitalRuns_apart : ∀ run ∈ capitalRuns,
    (run.2.1 + run.2.2.2 < 0x41 ∨ 0x5A < run.1 + run.2.2.2 ∨ ∃ form ∈ smallForms, form.1 ≤ run.1 ∧ run.2.1 ≤ form.2) ∧
      ∀ form ∈ smallForms, run.2.1 + run.2.2.2 < form.1 ∨ form.2 < run.1 + run.2.2.2 := by
  decide +kernel

theorem capitalExpansions_apart : ∀ expansion ∈ capitalExpansions,
    ((∀ n ∈ expansion.2, 0x41 ≤ n ∧ n ≤ 0x5A) → ∃ form ∈ smallForms, form.1 ≤ expansion.1 ∧ expansion.1 ≤ form.2) ∧
      ∀ n ∈ expansion.2, n < 0xD800 ∧ ∀ form ∈ smallForms, n < form.1 ∨ form.2 < n := by
  decide +kernel

theorem toNat_ofNat_of_valid {n : Nat} (valid : n.isValidChar) : (Char.ofNat n).toNat = n := by
  unfold Char.ofNat
  rw [dif_pos valid]
  rfl

/-- What is no character becomes the first one. -/
theorem toNat_ofNat (n : Nat) : (Char.ofNat n).toNat = n ∨ (Char.ofNat n).toNat = 0 := by
  by_cases valid : n.isValidChar
  · exact .inl (toNat_ofNat_of_valid valid)
  · right
    unfold Char.ofNat
    rw [dif_neg valid]
    rfl

theorem capitalShift?_some {n : Nat} {shift : Int} (found : capitalShift? n = some shift) :
    ∃ run ∈ capitalRuns, run.1 ≤ n ∧ n ≤ run.2.1 ∧ run.2.2.2 = shift := by
  obtain ⟨run, sought, rfl⟩ := Option.map_eq_some_iff.mp found
  have within := List.find?_some sought
  simp only [Bool.and_eq_true, decide_eq_true_eq] at within
  exact ⟨run, List.mem_of_find?_eq_some sought, within.1.1, within.1.2, rfl⟩

theorem smallForms_above : ∀ form ∈ smallForms, 0x61 ≤ form.1 := by decide

theorem isSmallForm_of_small {n : Nat} (above : 0x61 ≤ n) (below : n ≤ 0x7A) : IsSmallForm n :=
  ⟨(0x61, 0x7A), by decide, above, below⟩

theorem toUpper_eq {c : Char} (other : ¬ IsSmallForm c.toNat) : c.toUpper = c := by
  unfold Char.toUpper
  refine dif_neg fun small => other (isSmallForm_of_small ?_ ?_)
  · exact UInt32.le_iff_toNat_le.mp small.1
  · exact UInt32.le_iff_toNat_le.mp small.2

theorem toUpper_not_small {c : Char} (first : c.toNat < 0x80) : ¬ IsSmallForm c.toUpper.toNat := by
  have all : ∀ n < 0x80, ¬ IsSmallForm (Char.ofNat n).toUpper.toNat := by
    unfold IsSmallForm
    decide +kernel
  simpa only [Char.ofNat_toNat] using all c.toNat first

/-- A capital form holds no small form, unless the character is its own capital form. -/
theorem not_smallForm_of_capital {c d : Char} (inside : d ∈ capital c) : capital d = [d] ∨ ¬ IsSmallForm d.toNat := by
  unfold capital at inside
  split at inside
  next first =>
    obtain rfl := List.mem_singleton.mp inside
    exact .inr (toUpper_not_small first)
  next rest =>
    split at inside
    next shift found =>
      obtain rfl := List.mem_singleton.mp inside
      obtain ⟨run, known, above, below, rfl⟩ := capitalShift?_some found
      have apart := (capitalRuns_apart run known).2
      refine .inr ?_
      rintro ⟨form, listed, within⟩
      have lower := smallForms_above form listed
      have apart := apart form listed
      rcases toNat_ofNat ((c.toNat : Int) + run.2.2.2).toNat with same | none
      · omega
      · omega
    next absent =>
      split at inside
      next number expanded found =>
        obtain ⟨n, listed, rfl⟩ := List.mem_map.mp inside
        obtain ⟨valid, apart⟩ := (capitalExpansions_apart _ (List.mem_of_find?_eq_some found)).2 n listed
        refine .inr ?_
        rintro ⟨form, known, within⟩
        rw [toNat_ofNat_of_valid (.inl valid)] at within
        have apart := apart form known
        omega
      next none =>
        obtain rfl := List.mem_singleton.mp inside
        left
        simp only [capital, rest, absent, none, if_false]

/-- A character whose capital form is made of A to Z is such a letter itself, or a small form. -/
theorem capital_of_plain {d : Char} (plain : ∀ u ∈ capital d, IsPlainCapital u.toNat) (other : ¬ IsSmallForm d.toNat) :
    capital d = [d] := by
  unfold capital at plain ⊢
  split at plain
  next first => rw [if_pos first, toUpper_eq other]
  next rest =>
    rw [if_neg rest]
    split at plain
    next shift found =>
      obtain ⟨run, known, above, below, rfl⟩ := capitalShift?_some found
      have small := (capitalRuns_apart run known).1
      have image := plain _ (List.mem_singleton.mpr rfl)
      exfalso
      unfold IsPlainCapital at image
      rcases toNat_ofNat ((d.toNat : Int) + run.2.2.2).toNat with same | none
      · rcases small with first | last | ⟨form, listed, from_first, to_last⟩
        · omega
        · omega
        · exact other ⟨form, listed, by omega, by omega⟩
      · omega
    next absent =>
      split at plain
      next number expanded found =>
        have small := (capitalExpansions_apart _ (List.mem_of_find?_eq_some found)).1
        have same : number = d.toNat := by simpa using List.find?_some found
        refine absurd (small fun n listed => ?_) (same ▸ other)
        have valid := ((capitalExpansions_apart _ (List.mem_of_find?_eq_some found)).2 n listed).1
        rw [← toNat_ofNat_of_valid (.inl valid)]
        exact plain _ (List.mem_map_of_mem listed)
      next => rfl

/-- A text in capitals that turn into A to Z when they are taken again is made of A to Z. -/
theorem capitals_of_plain {s name : String} (plain : ∀ c ∈ name.toList, IsPlainCapital c.toNat)
    (again : capitals (capitals s) = name) : capitals s = name := by
  have letters : (s.toList.flatMap capital).flatMap capital = name.toList := by
    simpa only [capitals, String.toList_ofList] using congrArg String.toList again
  have fixed : ∀ d ∈ s.toList.flatMap capital, capital d = [d] := by
    intro d inside
    obtain ⟨c, _, of_c⟩ := List.mem_flatMap.mp inside
    rcases not_smallForm_of_capital of_c with own | other
    · exact own
    · refine capital_of_plain (fun u of_d => plain u ?_) other
      exact letters ▸ List.mem_flatMap_of_mem inside of_d
  have same : (s.toList.flatMap capital).flatMap capital = s.toList.flatMap capital :=
    (List.flatMap_congr fixed).trans (List.flatMap_singleton' _)
  rw [capitals, ← same, letters, String.ofList_toList]

/-- The sort that a text in capitals names is the one it names when it is taken in capitals again. -/
theorem ClassSort.ofName?_capitals (s : String) : ofName? (capitals (capitals s)) = ofName? (capitals s) := by
  have plain : ∀ sort : ClassSort, ∀ c ∈ sort.name.toList, IsPlainCapital c.toNat := by
    intro sort
    unfold IsPlainCapital
    cases sort <;> simp [name]
  have settled : ∀ sort : ClassSort, capitals sort.name = sort.name := by
    intro sort
    cases sort <;> decide +kernel
  have same : ∀ sort : ClassSort, (sort.name == capitals (capitals s)) = (sort.name == capitals s) := by
    intro sort
    refine Bool.eq_iff_iff.mpr ⟨fun again => ?_, fun once => ?_⟩
    · exact beq_iff_eq.mpr (capitals_of_plain (plain sort) (beq_iff_eq.mp again).symm).symm
    · rw [← beq_iff_eq.mp once, settled]
      exact beq_self_eq_true _
  simp only [ofName?, same]

theorem capital_ne_nil (c : Char) : capital c ≠ [] := by
  have forms : ∀ expansion ∈ capitalExpansions, expansion.2 ≠ [] := by decide +kernel
  unfold capital
  split
  · exact List.cons_ne_nil _ _
  · split
    · exact List.cons_ne_nil _ _
    · split
      next found => exact fun none => forms _ (List.mem_of_find?_eq_some found) (List.map_eq_nil_iff.mp none)
      next => exact List.cons_ne_nil _ _

theorem capitals_ne_empty {s : String} (given : s ≠ "") : capitals s ≠ "" := by
  intro none
  have letters : s.toList.flatMap capital = [] := by
    rw [← String.toList_ofList (l := s.toList.flatMap capital)]
    exact String.toList_eq_nil_iff.mpr none
  cases chars : s.toList with
  | nil => exact given (String.toList_eq_nil_iff.mp chars)
  | cons c rest =>
    rw [chars] at letters
    exact capital_ne_nil c (List.append_eq_nil_iff.mp letters).1

/-- A sort that is written in capitals is read back. -/
theorem sortOfRecord_capitals {kind : String} (given : kind ≠ "") :
    sortOfRecord (.str (capitals kind)) = .ok ((ClassSort.ofName? (capitals kind)).getD .plain) := by
  have whole : (Value.str (capitals kind)).orElse (.str "CLASS") = .str (capitals kind) := by
    have truthy : (Value.str (capitals kind)).truthy = true := by
      simpa [Value.truthy] using capitals_ne_empty given
    rw [Value.orElse, if_pos truthy]
  have named : (Value.str (capitals kind)).text "upper" = .ok (capitals kind) := rfl
  simp only [sortOfRecord, whole, named, bind, Except.bind, ClassSort.ofName?_capitals]
  rfl

end CodeAtlas
