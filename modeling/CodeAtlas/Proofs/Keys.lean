import CodeAtlas.Value.Access

namespace CodeAtlas

def Value.IsText (v : Value) : Prop := ∃ s, v = .str s

theorem Value.IsText.asKey {v : Value} (text : v.IsText) : v.asKey = .ok v := by
  obtain ⟨s, rfl⟩ := text
  rfl

theorem Value.IsText.same_iff {v w : Value} (text : v.IsText) (text' : w.IsText) : v.same w = true ↔ v = w := by
  obtain ⟨s, rfl⟩ := text
  obtain ⟨t, rfl⟩ := text'
  simp [Value.same]

theorem Magnitude.same_comm (a b : Magnitude) : a.same b = b.same a := by
  cases a <;> cases b <;> first | rfl | exact Bool.beq_comm

theorem Magnitude.same_trans {a b c : Magnitude} (first : a.same b) (second : b.same c) : a.same c := by
  cases a <;> cases b <;> cases c <;> simp_all [same]

namespace Value

variable {u v w : Value}

theorem asKey_eq_ok : v.asKey = .ok w ↔ v.isKey ∧ v = w := by
  unfold asKey
  split <;> simp_all

theorem asKey_of_isKey (key : v.isKey) : v.asKey = .ok v := asKey_eq_ok.mpr ⟨key, rfl⟩

theorem IsText.isKey (text : v.IsText) : v.isKey := by
  obtain ⟨s, rfl⟩ := text
  rfl

/-- Equality with a key holds both ways round. -/
theorem same_comm (key : v.isKey) : v.same w = w.same v := by
  cases v <;> cases w <;> simp_all [same, magnitude?, isKey, Magnitude.same_comm, Bool.beq_comm]

theorem same_trans (key : v.isKey) (first : u.same v) (second : v.same w) : u.same w := by
  cases v <;> cases u <;> cases w <;> simp_all [same, magnitude?, isKey]
  all_goals exact Magnitude.same_trans first second

/-- Only keys equal a key. -/
theorem isKey_of_same (key : w.isKey) (same : w.same v) : v.isKey := by
  cases v <;> cases w <;> simp_all [Value.same, magnitude?, isKey]

/-- What equals a key is as good as that key in a comparison. -/
theorem same_congr (key : w.isKey) (same : v.same w) (u : Value) : u.same v = u.same w := by
  have back : w.same v := by rwa [same_comm key]
  have key' : v.isKey := isKey_of_same key back
  exact Bool.eq_iff_iff.mpr ⟨fun other => same_trans key' other same, fun other => same_trans key other back⟩

/-- What equals a key equals itself: it is not one of the numbers that equal nothing. -/
theorem same_self (key : w.isKey) (same : v.same w) : v.same v := by
  rwa [same_congr key same]

end Value

end CodeAtlas
