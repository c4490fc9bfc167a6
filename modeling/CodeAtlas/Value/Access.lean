import CodeAtlas.Text.Numeral
import CodeAtlas.Value.Order

namespace CodeAtlas

/-- The whole part of a rational, toward zero. -/
def towardZero (q : Rat) : Int := q.num.tdiv q.den

namespace Value

/-- The integer that a value stands for: numbers lose their fraction, texts are read. -/
def toInt : Value → Except Fault Int
  | .bool b => .ok (if b then 1 else 0)
  | .int n => .ok n
  | .float x =>
    match Magnitude.ofFloat x with
    | .finite q => .ok (towardZero q)
    | .nan => .error (.invalid .nanAsInteger)
    | _ => .error .overflow
  | .str s => readInt s
  | v => .error (.mismatch (.notIntegral v.kind))

/-- The double that a value stands for. -/
def toFloat : Value → Except Fault Float
  | .bool b => .ok (if b then 1.0 else 0.0)
  | .int n =>
    match intToFloat? n with
    | some x => .ok x
    | none => .error .overflow
  | .float x => .ok x
  | .str s => readFloat s
  | v => .error (.mismatch (.notReal v.kind))

/-- A whole number that counts something, which nothing is rounded to. -/
def toIndex : Value → Except Fault Int
  | .bool b => .ok (if b then 1 else 0)
  | .int n => .ok n
  | v => .error (.mismatch (.notIndex v.kind))

/-- What a value yields one by one: items, characters, keys. -/
def elements : Value → Except Fault (List Value)
  | .list items => .ok items
  | .str s => .ok (s.toList.map fun c => .str (String.singleton c))
  | .dict entries => .ok (entries.map (·.1))
  | v => .error (.mismatch (.notIterable v.kind))

/-- How many elements a value has. -/
def length : Value → Except Fault Nat
  | .list items => .ok items.length
  | .str s => .ok s.length
  | .dict entries => .ok entries.length
  | v => .error (.mismatch (.noLength v.kind))

end Value

/-- The first `n` elements; a negative `n` leaves out that many at the end. -/
def takeBound {α : Type} (n : Int) (l : List α) : List α :=
  if 0 ≤ n then l.take n.toNat else l.take (l.length - n.natAbs)

theorem takeBound_prefix {α : Type} (n : Int) (l : List α) : takeBound n l <+: l := by
  unfold takeBound
  split <;> exact List.take_prefix ..

/-- The elements before a bound; a null bound leaves them all. -/
def cutTo {α : Type} (bound : Value) (l : List α) : Except Fault (List α) :=
  match bound with
  | .null => .ok l
  | .bool b => .ok (takeBound (if b then 1 else 0) l)
  | .int n => .ok (takeBound n l)
  | _ => .error (.mismatch .sliceBound)

/-- Consecutive groups of `size` elements, the last one perhaps smaller. -/
def groupsOf {α : Type} (size : Nat) (l : List α) : List (List α) :=
  if size = 0 ∨ l = [] then []
  else l.take size :: groupsOf size (l.drop size)
termination_by l.length
decreasing_by
  rename_i nonempty
  have pos : l.length ≠ 0 := by simpa using fun h => nonempty (Or.inr h)
  have positive : size ≠ 0 := fun h => nonempty (Or.inl h)
  simp only [List.length_drop]
  omega

theorem groupsOf_flatten {α : Type} {size : Nat} (positive : 0 < size) (l : List α) :
    (groupsOf size l).flatten = l := by
  fun_induction groupsOf size l with
  | case1 l stop =>
    rcases stop with zero | rfl
    · omega
    · rfl
  | case2 l _ ih => simp [ih]

theorem mem_groupsOf {α : Type} {size : Nat} {l group : List α} (member : group ∈ groupsOf size l) :
    group ≠ [] ∧ group.length ≤ size := by
  fun_induction groupsOf size l with
  | case1 => simp at member
  | case2 l more ih =>
    rcases List.mem_cons.mp member with rfl | later
    · simp only [not_or] at more
      constructor
      · simp [more.1, more.2]
      · simp only [List.length_take]
        omega
    · exact ih later

/-- Groups of a size given as a value: it has to be a whole number, and not zero. A negative size
makes no group. -/
def groupsBy {α : Type} (size : Value) (l : List α) : Except Fault (List (List α)) := do
  let n ← size.toIndex
  if n = 0 then .error (.invalid .zeroStep)
  else .ok (groupsOf n.toNat l)

/-- Whether one list occurs inside another. -/
def occursIn {α : Type} [BEq α] (part : List α) : List α → Bool
  | [] => part.isEmpty
  | c :: rest => part.isPrefixOf (c :: rest) || occursIn part rest

namespace Value

/-- The start of a text or of a list. -/
def start (v bound : Value) : Except Fault Value :=
  match v with
  | .list items => (cutTo bound items).map .list
  | .str s => (cutTo bound s.toList).map fun cs => .str (String.ofList cs)
  | .dict _ => .error (.mismatch (.notKey "slice"))
  | v => .error (.mismatch (.notIndexable v.kind))

/-- Whether a text is among the keys of a dictionary, the items of a list, the parts of a text. -/
def has (key : String) : Value → Except Fault Bool
  | .dict entries => .ok (lookup key entries).isSome
  | .list items => .ok (items.any (·.same (.str key)))
  | .str s => .ok (occursIn key.toList s.toList)
  | v => .error (.mismatch (.notContainer v.kind))

/-- The entry of a key that has to be there. -/
def entry (key : String) : Value → Except Fault Value
  | .dict entries =>
    match lookup key entries with
    | some v => .ok v
    | none => .error (.noKey (.str key))
  | .list _ => .error (.mismatch (.listIndex "str"))
  | .str _ => .error (.mismatch (.textIndex "str"))
  | v => .error (.mismatch (.notIndexable v.kind))

/-- The field of a value that has to be a dictionary, or the given one when it is absent. -/
def getD (v : Value) (key : String) (other : Value) : Except Fault Value :=
  match v with
  | .dict entries => .ok ((lookup key entries).getD other)
  | v => .error (.noMember v.kind "get")

def get (key : String) (v : Value) : Except Fault Value :=
  v.getD key .null

/-- The text itself; `member` names what was asked of the value. -/
def text (member : String) : Value → Except Fault String
  | .str s => .ok s
  | v => .error (.noMember v.kind member)

/-- A value that is going to be looked up has to be one that can be a key. -/
def asKey (v : Value) : Except Fault Value :=
  if v.isKey then .ok v else .error (.mismatch (.notKey v.kind))

/-- A number with a fixed number of places. -/
def fixed (places : Nat) : Value → Except Fault String
  | .bool b => .ok (fixedFloat places (if b then 1.0 else 0.0))
  | .int n =>
    match intToFloat? n with
    | some x => .ok (fixedFloat places x)
    | none => .error .overflow
  | .float x => .ok (fixedFloat places x)
  | .str _ => .error (.invalid .placesOfText)
  | v => .error (.mismatch (.places v.kind))

/-- The product of two numbers, whole when both are. -/
def times (v w : Value) : Except Fault Value :=
  match v.magnitude?, w.magnitude? with
  | some _, some _ =>
    match v, w with
    | .float x, _ => w.toFloat.map fun y => .float (x * y)
    | _, .float y => v.toFloat.map fun x => .float (x * y)
    | _, _ => do return .int ((← v.toInt) * (← w.toInt))
  | _, _ => .error (.mismatch (.operands "*" v.kind w.kind))

/-- Texts joined; every item has to be a text. -/
def joined (separator : String) (items : List Value) : Except Fault String :=
  go 0 items |>.map separator.intercalate
where
  go (position : Nat) : List Value → Except Fault (List String)
    | [] => .ok []
    | .str s :: rest => (go (position + 1) rest).map (s :: ·)
    | v :: _ => .error (.mismatch (.joinItem position v.kind))

end Value

end CodeAtlas
