import CodeAtlas.Magnitude
import Mathlib.Algebra.Ring.Rat

namespace CodeAtlas

open Float.Model (Format UnpackedFloat)

namespace Magnitude

theorem ofBinary_eq_zero {negative : Bool} {m : Nat} {q : Int} : ofBinary (.finite negative m q) = .finite 0 ↔ m = 0 := by
  have power (n : Nat) : Nat.pow 2 n ≠ 0 := Nat.ne_of_gt (Nat.two_pow_pos n)
  have size : (if 0 ≤ q then mkRat (m * Nat.pow 2 q.toNat : Nat) 1 else mkRat m (Nat.pow 2 (-q).toNat)) = 0 ↔ m = 0 := by
    split
    · rw [Rat.mkRat_eq_zero Nat.one_ne_zero, Int.natCast_eq_zero, Nat.mul_eq_zero, or_iff_left (power _)]
    · rw [Rat.mkRat_eq_zero (power _), Int.natCast_eq_zero]
  cases negative with
  | false => exact Magnitude.finite.injEq .. ▸ size
  | true => exact Magnitude.finite.injEq .. ▸ neg_eq_zero.trans size

theorem ofFields_eq_zero {negative : Bool} {biased fraction : Nat} :
    ofBinary (.ofFields negative biased fraction) = .finite 0 ↔ biased = 0 ∧ fraction = 0 := by
  have leads : Binary.leadingBit ≠ 0 := by decide
  unfold Binary.ofFields
  split
  next special => split <;> cases negative <;> simp [ofBinary, special]
  next => split <;> simp_all [ofBinary_eq_zero]

end Magnitude

theorem zero_unpack : (0.0 : Float).toModel.unpack = .zero .positive := by
  have bits : (0.0 : Float).toModel.toBits = 0 := by decide +kernel
  rw [Float.Model.unpack, bits]
  rfl

/-- Nothing but a zero of either sign is equal to zero. -/
theorem compare_zero_iff (x : UnpackedFloat) : (x.compare (.zero .positive) == some .eq) = true ↔ ∃ sign, x = .zero sign := by
  constructor
  · intro equal
    cases x with
    | zero sign => exact ⟨sign, rfl⟩
    | infinity sign | finite sign => cases sign <;> cases equal
    | notANumber => cases equal
  · rintro ⟨sign, rfl⟩
    rfl

theorem beq_zero_iff_unpack (x : Float) : (x == 0.0) = true ↔ ∃ sign, x.toModel.unpack = .zero sign := by
  change (x.toModel.unpack.compare (0.0 : Float).toModel.unpack == some .eq) = true ↔ _
  rw [zero_unpack]
  exact compare_zero_iff _

theorem unpack_eq_zero_iff (bits : BitVec Format.binary64.numBits) :
    (∃ sign, UnpackedFloat.unpack Format.binary64 bits = .zero sign) ↔
      UnpackedFloat.unpackExponent bits = 0#11 ∧ UnpackedFloat.unpackMantissa bits = 0#52 := by
  delta UnpackedFloat.unpack
  dsimp only
  constructor
  · rintro ⟨sign, zero⟩
    by_cases special : UnpackedFloat.unpackExponent bits = -1#11
    · rw [if_pos special] at zero
      by_cases infinite : UnpackedFloat.unpackMantissa bits = 0#52
      · rw [if_pos infinite] at zero
        cases zero
      · rw [if_neg infinite] at zero
        cases zero
    rw [if_neg special] at zero
    by_cases small : UnpackedFloat.unpackExponent bits = 0#11
    · rw [if_pos small] at zero
      by_cases none : UnpackedFloat.unpackMantissa bits = 0#52
      · exact ⟨small, none⟩
      · rw [dif_neg none] at zero
        cases zero
    · rw [if_neg small] at zero
      cases zero
  · rintro ⟨exponent, mantissa⟩
    have small : ¬UnpackedFloat.unpackExponent bits = -1#11 := exponent ▸ by decide
    rw [if_neg small, if_pos exponent, dif_pos mantissa]
    exact ⟨_, rfl⟩

theorem beq_zero_iff_ofFloat (x : Float) : (x == 0.0) = true ↔ Magnitude.ofFloat x = .finite 0 := by
  have bits : x.toBits = x.toModel.toBits := rfl
  have exponent : (@UnpackedFloat.unpackExponent Format.binary64 x.toModel.toBits.toBitVec).toNat =
      x.toBits.toNat / Binary.leadingBit % 2048 := by
    simp [UnpackedFloat.unpackExponent, Binary.leadingBit, bits, Nat.shiftRight_eq_div_pow]
  have mantissa : (@UnpackedFloat.unpackMantissa Format.binary64 x.toModel.toBits.toBitVec).toNat =
      x.toBits.toNat % Binary.leadingBit := by
    simp [UnpackedFloat.unpackMantissa, Binary.leadingBit, bits]
  rw [beq_zero_iff_unpack, Float.Model.unpack, unpack_eq_zero_iff, ← BitVec.toNat_inj, ← BitVec.toNat_inj, exponent, mantissa]
  exact Magnitude.ofFields_eq_zero.symm

namespace Value

/-- A number counts as true unless it is zero. -/
theorem truthy_of_magnitude {v : Value} {a : Magnitude} (number : v.magnitude? = some a) :
    v.truthy = !decide (a = .finite 0) := by
  cases v with
  | bool b => cases b <;> cases number <;> rfl
  | int n =>
    cases number
    simp [truthy, bne, Bool.beq_eq_decide_eq]
  | float x =>
    cases number
    have zero := beq_zero_iff_ofFloat x
    cases equal : x == 0.0 <;> simp_all [truthy, bne]
  | null | str | stamp | list | dict => cases number

/-- Values that are the same count alike. -/
theorem truthy_eq_of_same {v w : Value} (same : v.same w = true) : v.truthy = w.truthy := by
  have numbers {v w : Value} {a b : Magnitude} (left : v.magnitude? = some a) (right : w.magnitude? = some b)
      (same : a.same b = true) : v.truthy = w.truthy := by
    rw [truthy_of_magnitude left, truthy_of_magnitude right]
    cases a <;> cases b <;> simp_all [Magnitude.same]
  unfold Value.same at same
  split at same
  · rfl
  · rw [beq_iff_eq.mp same]
  · rfl
  next items others =>
    cases items <;> cases others <;> simp_all [sameItems, truthy]
  next entries others =>
    cases entries <;> cases others <;> simp_all [truthy]
  · split at same
    next left right => exact numbers left right same
    · cases same

end Value

end CodeAtlas
