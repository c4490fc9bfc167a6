import CodeAtlas.Decimal.Shortest

namespace CodeAtlas

/-- Mantissa and exponent of the double nearest to a quotient. The mantissa has fifty-three bits, and
fewer only where the exponent is the least that doubles have. -/
def nearestParts (num den : Nat) : Nat × Int :=
  let r : Quotient := ⟨num, den⟩
  let guess : Int := (Nat.log2 num : Int) - Nat.log2 den - 52
  let fitted := if (r.scale 2 (-guess)).floor < Binary.leadingBit then guess - 1 else guess
  let exponent := max fitted (-1074)
  let scaled := r.scale 2 (-exponent)
  (roundDiv scaled.num scaled.den, exponent)

/-- The double nearest to the quotient of two integers; infinite when it is out of range. -/
def ratio (a b : Int) : Float :=
  let (m, q) := nearestParts a.natAbs b.natAbs
  let size := (Float.ofNat m).scaleB q
  if decide (a < 0) == decide (b < 0) then size else -size

end CodeAtlas
