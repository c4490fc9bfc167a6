import CodeAtlas.Value

namespace CodeAtlas

/-- A number as a point of the extended rationals, or no number at all. -/
inductive Magnitude where
  | nan
  | below
  | finite (q : Rat)
  | above
  deriving DecidableEq, Inhabited, Repr

namespace Magnitude

def ofBinary : Binary → Magnitude
  | .nan => .nan
  | .infinite negative => if negative then .below else .above
  | .finite negative m q =>
    let size : Rat := if 0 ≤ q then mkRat (m * Nat.pow 2 q.toNat : Nat) 1 else mkRat m (Nat.pow 2 (-q).toNat)
    .finite (if negative then -size else size)

def ofFloat (x : Float) : Magnitude :=
  ofBinary (Binary.ofFloat x)

/-- The strict order; what is no number is neither below nor above anything. -/
def lt : Magnitude → Magnitude → Bool
  | .nan, _ => false
  | _, .nan => false
  | .below, .below => false
  | .below, _ => true
  | .finite _, .below => false
  | .finite q, .finite r => q < r
  | .finite _, .above => true
  | .above, _ => false

def same : Magnitude → Magnitude → Bool
  | .nan, _ => false
  | _, .nan => false
  | a, b => a == b

def le (a b : Magnitude) : Bool := a.lt b || a.same b

theorem lt_irrefl (a : Magnitude) : a.lt a = false := by
  cases a with
  | finite q => exact decide_eq_false Rat.lt_irrefl
  | _ => rfl

theorem not_lt_of_lt {a b : Magnitude} (less : a.lt b) : b.lt a = false := by
  cases a <;> cases b <;>
    first
    | rfl
    | exact absurd less Bool.false_ne_true
    | exact decide_eq_false (Rat.not_lt.mpr (Rat.le_of_lt (of_decide_eq_true less)))

end Magnitude

/-- The magnitude of a number; truth values count as one and zero. -/
def Value.magnitude? : Value → Option Magnitude
  | .bool b => some (.finite (if b then 1 else 0))
  | .int n => some (.finite n)
  | .float x => some (.ofFloat x)
  | _ => none

mutual

/-- Equality of values: numbers by magnitude, dictionaries without regard to order. -/
def Value.same : Value → Value → Bool
  | .null, .null => true
  | .str s, .str t => s == t
  | .stamp s, .stamp t => s == t
  | .list items, .list others => Value.sameItems items others
  | .dict entries, .dict others => entries.length == others.length && Value.sameEntries entries others
  | v, w =>
    match v.magnitude?, w.magnitude? with
    | some a, some b => a.same b
    | _, _ => false

def Value.sameItems : List Value → List Value → Bool
  | [], [] => true
  | v :: rest, w :: others => Value.same v w && Value.sameItems rest others
  | _, _ => false

def Value.sameEntries : List (Value × Value) → List (Value × Value) → Bool
  | [], _ => true
  | (k, v) :: rest, others =>
    (match others.find? fun e => Value.same k e.1 with
      | some e => Value.same v e.2
      | none => false) && Value.sameEntries rest others

end

/-- Whether a value can be a key: lists and dictionaries cannot. -/
def Value.isKey : Value → Bool
  | .list _ => false
  | .dict _ => false
  | _ => true

end CodeAtlas
