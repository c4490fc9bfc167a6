import CodeAtlas.Decimal.Binary

namespace CodeAtlas

/-- A positive decimal: the value of `⟨d, e⟩` is `d · 10 ^ e`. -/
structure Decimal where
  digits : Nat
  exponent : Int
  deriving DecidableEq, Inhabited, Repr

/-- A quotient of natural numbers, kept as a pair so that every comparison is exact. -/
structure Quotient where
  num : Nat
  den : Nat

namespace Quotient

def scale (r : Quotient) (base : Nat) (power : Int) : Quotient :=
  if 0 ≤ power then ⟨r.num * Nat.pow base power.toNat, r.den⟩
  else ⟨r.num, r.den * Nat.pow base (-power).toNat⟩

def le (r s : Quotient) : Bool := r.num * s.den ≤ s.num * r.den

def lt (r s : Quotient) : Bool := r.num * s.den < s.num * r.den

def floor (r : Quotient) : Nat := r.num / r.den

/-- The distance between two quotients. -/
def dist (r s : Quotient) : Quotient :=
  ⟨(r.num * s.den - s.num * r.den) + (s.num * r.den - r.num * s.den), r.den * s.den⟩

end Quotient

/-- The nearest whole number to a quotient; a tie goes to the even one. -/
def roundDiv (num den : Nat) : Nat :=
  let q := num / den
  let r := num % den
  if 2 * r < den then q
  else if den < 2 * r then q + 1
  else if q % 2 = 0 then q else q + 1

/-- The reals that round to `m · 2 ^ q`, with both ends. The lower gap is halved where a power of
two starts a new binade. The ends belong to the interval exactly when `m` is even. -/
structure RoundingInterval where
  low : Quotient
  high : Quotient
  closed : Bool

def RoundingInterval.of (m : Nat) (q : Int) : RoundingInterval :=
  let lowered := m = Binary.leadingBit ∧ -1074 < q
  { low := if lowered then (⟨4 * m - 1, 4⟩ : Quotient).scale 2 q else (⟨2 * m - 1, 2⟩ : Quotient).scale 2 q
    high := (⟨2 * m + 1, 2⟩ : Quotient).scale 2 q
    closed := m % 2 = 0 }

def RoundingInterval.contains (i : RoundingInterval) (r : Quotient) : Bool :=
  if i.closed then i.low.le r && r.le i.high else i.low.lt r && r.lt i.high

/-- The least `e` between `low` and `low + fuel` with `r < 10 ^ e`. -/
def decadeFrom (r : Quotient) (low : Int) : Nat → Int
  | 0 => low
  | fuel + 1 =>
    if r.lt ((⟨1, 1⟩ : Quotient).scale 10 low) then low else decadeFrom r (low + 1) fuel

/-- The `e` with `10 ^ (e - 1) ≤ m · 2 ^ q < 10 ^ e`, for the mantissas and exponents of doubles. -/
def decade (m : Nat) (q : Int) : Int :=
  let estimate : Int := ((Nat.log2 m : Int) + q) * 30103 / 100000 - 1
  decadeFrom ((⟨m, 1⟩ : Quotient).scale 2 q) estimate 4

/-- Of the two neighbours of `r` on the grid of step `10 ^ step`, those inside the interval; the
nearer one when both are, the even one on a tie. -/
def gridPoint? (i : RoundingInterval) (r : Quotient) (step : Int) : Option Nat :=
  let below := (r.scale 10 (-step)).floor
  let at_ (d : Nat) : Quotient := (⟨d, 1⟩ : Quotient).scale 10 step
  let belowIn := 0 < below ∧ i.contains (at_ below)
  let aboveIn := i.contains (at_ (below + 1))
  if belowIn then
    if aboveIn then
      let down := r.dist (at_ below)
      let up := r.dist (at_ (below + 1))
      if down.lt up then some below
      else if up.lt down then some (below + 1)
      else if below % 2 = 0 then some below else some (below + 1)
    else some below
  else if aboveIn then some (below + 1) else none

/-- The first grid, from coarse to fine, with a point inside the interval. -/
def firstGridPoint (i : RoundingInterval) (r : Quotient) (top : Int) (digits : Nat) : Nat → Decimal
  | 0 => ⟨(r.scale 10 (digits - top)).floor, top - digits⟩
  | fuel + 1 =>
    match gridPoint? i r (top - digits) with
    | some d => ⟨d, top - digits⟩
    | none => firstGridPoint i r top (digits + 1) fuel

/-- Drops the zeros at the end of the digits. -/
def Decimal.trim (d : Decimal) : Decimal :=
  if h : d.digits ≠ 0 ∧ d.digits % 10 = 0 then
    Decimal.trim ⟨d.digits / 10, d.exponent + 1⟩
  else d
termination_by d.digits
decreasing_by omega

/-- The decimal of fewest digits that reads back as the double `m · 2 ^ q`, the nearest to it of
those that do. -/
def shortest (m : Nat) (q : Int) : Decimal :=
  let r := (⟨m, 1⟩ : Quotient).scale 2 q
  (firstGridPoint (RoundingInterval.of m q) r (decade m q) 1 17).trim

/-- A result of `roundDiv` is within half a unit of the quotient. -/
theorem roundDiv_near (num den : Nat) (positive : 0 < den) :
    2 * num ≤ den * (2 * roundDiv num den + 1) ∧ den * (2 * roundDiv num den) ≤ 2 * num + den := by
  have split := Nat.div_add_mod num den
  have small := Nat.mod_lt num positive
  have expand : ∀ k, den * (2 * k) = 2 * (den * k) := fun k => Nat.mul_left_comm ..
  have step : den * (num / den + 1) = den * (num / den) + den := Nat.mul_succ ..
  simp only [roundDiv, Nat.mul_add, Nat.mul_one, expand]
  split
  · omega
  · split
    · omega
    · split <;> omega

end CodeAtlas
