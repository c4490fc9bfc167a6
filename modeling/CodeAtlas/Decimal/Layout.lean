import CodeAtlas.Decimal.Shortest

namespace CodeAtlas

/-- Where a number text is positional and how its exponent is written otherwise. -/
structure Layout where
  positionalFrom : Int
  positionalTo : Int
  exponentDigits : Nat
  nan : String
  infinity : String

/-- Number text is positional while the point stands between four places before the first digit and
sixteen places after it; elsewhere the exponent has a sign and at least two digits. -/
def Layout.plain : Layout := ⟨-3, 16, 2, "nan", "inf"⟩

/-- The same layout with the names that the data format has for what is not finite. -/
def Layout.data : Layout := { Layout.plain with nan := "NaN", infinity := "Infinity" }

def zeros (n : Nat) : String := "".pushn '0' n

/-- Digits with a point after the first `point` of them, padded with zeros on either side. -/
def placePoint (digits : String) (point : Int) : String :=
  if point ≤ 0 then "0." ++ zeros (-point).toNat ++ digits
  else
    let size := digits.length
    if size ≤ point.toNat then digits ++ zeros (point.toNat - size) ++ ".0"
    else String.ofList (digits.toList.take point.toNat) ++ "." ++ String.ofList (digits.toList.drop point.toNat)

/-- An exponent with its sign, of at least `width` digits. -/
def exponentText (width : Nat) (e : Int) : String :=
  let body := toString e.natAbs
  (if e < 0 then "e-" else "e+") ++ zeros (width - body.length) ++ body

def scientific (width : Nat) (digits : String) (e : Int) : String :=
  match digits.toList with
  | [] => exponentText width e
  | [c] => String.singleton c ++ exponentText width e
  | c :: rest => String.singleton c ++ "." ++ String.ofList rest ++ exponentText width e

def Layout.decimal (layout : Layout) (d : Decimal) : String :=
  let digits := toString d.digits
  let point : Int := d.exponent + digits.length
  if layout.positionalFrom ≤ point ∧ point ≤ layout.positionalTo then placePoint digits point
  else scientific layout.exponentDigits digits (point - 1)

def signed (negative : Bool) (text : String) : String :=
  if negative then "-" ++ text else text

/-- The text of a double: the shortest digits that read back, laid out. -/
def Layout.float (layout : Layout) (x : Float) : String :=
  match Binary.ofFloat x with
  | .nan => layout.nan
  | .infinite negative => signed negative layout.infinity
  | .finite negative 0 _ => signed negative "0.0"
  | .finite negative m q => signed negative (layout.decimal (shortest m q))

/-- `m · 2 ^ q` with a fixed number of places; a tie goes to the even neighbour. -/
def fixedPlaces (places m : Nat) (q : Int) : String :=
  let r := (⟨m * Nat.pow 10 places, 1⟩ : Quotient).scale 2 q
  let digits := toString (roundDiv r.num r.den)
  let padded := zeros (places + 1 - digits.length) ++ digits
  let whole := padded.length - places
  if places = 0 then padded
  else String.ofList (padded.toList.take whole) ++ "." ++ String.ofList (padded.toList.drop whole)

/-- A double with a fixed number of places, rounded from its exact binary value. -/
def fixedFloat (places : Nat) (x : Float) : String :=
  match Binary.ofFloat x with
  | .nan => "nan"
  | .infinite negative => signed negative "inf"
  | .finite negative m q => signed negative (fixedPlaces places m q)

end CodeAtlas
