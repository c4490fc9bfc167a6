namespace CodeAtlas

/-- A double taken apart: the value of `finite s m q` is `m · 2 ^ q`, negated when `s` holds. -/
inductive Binary where
  | nan
  | infinite (negative : Bool)
  | finite (negative : Bool) (mantissa : Nat) (exponent : Int)
  deriving DecidableEq, Inhabited, Repr

namespace Binary

/-- The first bit of a mantissa, which only the fields of the smallest doubles leave at zero. -/
def leadingBit : Nat := Nat.pow 2 52

/-- The fields of the sixty-four bits, without the sign. -/
def ofFields (negative : Bool) (biased fraction : Nat) : Binary :=
  if biased = 2047 then
    if fraction = 0 then .infinite negative else .nan
  else if biased = 0 then .finite negative fraction (-1074)
  else .finite negative (leadingBit + fraction) ((biased : Int) - 1075)

def ofBits (bits : Nat) : Binary :=
  ofFields (bits / Nat.pow 2 63 % 2 == 1) (bits / leadingBit % 2048) (bits % leadingBit)

def ofFloat (x : Float) : Binary :=
  ofBits x.toBits.toNat

/-- The mantissa of a finite double has at most fifty-three bits. -/
theorem ofBits_mantissa_lt {bits mantissa : Nat} {negative : Bool} {exponent : Int}
    (parts : ofBits bits = .finite negative mantissa exponent) : mantissa < 2 * leadingBit := by
  have fraction : bits % leadingBit < leadingBit := Nat.mod_lt _ (by decide)
  unfold ofBits ofFields at parts
  split at parts
  · split at parts <;> cases parts
  · split at parts <;> cases parts <;> omega

end Binary

/-- The double nearest to `digits · 10 ^ exponent`; what is out of range becomes infinite or zero. -/
def decimalToFloat (digits : Nat) (exponent : Int) : Float :=
  let size : Int := (toString digits).length
  if digits = 0 then 0.0
  else if exponent + size > 320 then 1.0 / 0.0
  else if exponent + size < -340 then 0.0
  else Float.ofScientific digits (exponent < 0) exponent.natAbs

/-- The double nearest to an integer, or nothing when it is out of range. -/
def intToFloat? (n : Int) : Option Float :=
  let x := decimalToFloat n.natAbs 0
  match Binary.ofFloat x with
  | .finite .. => some (if n < 0 then -x else x)
  | _ => none

end CodeAtlas
