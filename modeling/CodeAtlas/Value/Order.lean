import CodeAtlas.Fault

namespace CodeAtlas

inductive Comparison where
  | below
  | atMost
  | above
  | atLeast
  deriving DecidableEq, Inhabited, Repr

namespace Comparison

def sign : Comparison → String
  | .below => "<"
  | .atMost => "<="
  | .above => ">"
  | .atLeast => ">="

/-- Whether the comparison holds of equal things. -/
def ofEqual : Comparison → Bool
  | .atMost => true
  | .atLeast => true
  | _ => false

/-- Whether the comparison holds of a thing that stands before the other. -/
def ofEarlier : Comparison → Bool
  | .below => true
  | .atMost => true
  | _ => false

def magnitudes : Comparison → Magnitude → Magnitude → Bool
  | .below, a, b => a.lt b
  | .atMost, a, b => a.le b
  | .above, a, b => b.lt a
  | .atLeast, a, b => b.le a

def texts (c : Comparison) (s t : String) : Bool :=
  if s = t then c.ofEqual else if s < t then c.ofEarlier else !c.ofEarlier

end Comparison

mutual

/-- Numbers compare by magnitude, texts and lists by their first difference; nothing else compares. -/
def Value.compare (c : Comparison) : Value → Value → Except Fault Bool
  | .str s, .str t => .ok (c.texts s t)
  | .list items, .list others => Value.compareItems c items others
  | v, w =>
    match v.magnitude?, w.magnitude? with
    | some a, some b => .ok (c.magnitudes a b)
    | _, _ => .error (.mismatch (.order c.sign v.kind w.kind))

def Value.compareItems (c : Comparison) : List Value → List Value → Except Fault Bool
  | [], [] => .ok c.ofEqual
  | [], _ :: _ => .ok c.ofEarlier
  | _ :: _, [] => .ok (!c.ofEarlier)
  | v :: rest, w :: others => if v.same w then Value.compareItems c rest others else Value.compare c v w

end

/-- Two numbers always compare. -/
theorem Value.compare_of_magnitudes {c : Comparison} {v w : Value} {a b : Magnitude}
    (left : v.magnitude? = some a) (right : w.magnitude? = some b) :
    Value.compare c v w = .ok (c.magnitudes a b) := by
  cases v <;> cases w <;> simp_all [Value.compare, Value.magnitude?]

end CodeAtlas
