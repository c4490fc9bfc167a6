import CodeAtlas.Text.Capital
import CodeAtlas.Value.Access

namespace CodeAtlas

/-- The variables of the process that are set. -/
structure Environment where
  assignments : List (String × String)
  deriving Inhabited, Repr

namespace Environment

def get? (env : Environment) (name : String) : Option String :=
  (env.assignments.find? (·.1 == name)).map (·.2)

/-- The same variables with one of them set. -/
def set (env : Environment) (name value : String) : Environment :=
  ⟨(name, value) :: env.assignments⟩

theorem get?_set (env : Environment) (name value : String) :
    (env.set name value).get? name = some value := by
  simp [get?, set]

end Environment

/-- The words that switch something on, in letters of any case and with blanks around them. -/
def isOn (s : String) : Bool :=
  ["1", "true", "yes", "on"].contains (smallLetters (strip s))

/-- Where the value of an entry comes from when none is given: a variable of the process, or else
the value named beside it. -/
inductive Initial where
  | always (v : Value)
  | text (name : String) (other : String)
  | optionalText (name : String)
  | int (name : String) (other : Int)
  | float (name : String) (other : Float)
  | flag (name : String) (other : Bool)
  deriving Inhabited

/-- An optional text counts as missing when it is empty. -/
def Initial.read (env : Environment) : Initial → Except Fault Value
  | .always v => .ok v
  | .text name other => .ok (.str ((env.get? name).getD other))
  | .optionalText name => .ok ((Value.ofText? (env.get? name)).orElse .null)
  | .int name other =>
    match env.get? name with
    | some s => (readInt s).map .int
    | none => .ok (.int other)
  | .float name other =>
    match env.get? name with
    | some s => (readFloat s).map .float
    | none => .ok (.float other)
  | .flag name other => .ok (.bool (((env.get? name).map isOn).getD other))

/-- One entry of a settings section: its key, its place, and its value where none is given. -/
structure Entry (σ : Type) where
  key : String
  get : σ → Value
  put : Value → σ → σ
  initial : Initial

/-- A settings section: the name that messages give it, its entries, and what its values must meet. -/
structure Section (σ : Type) where
  owner : String
  blank : σ
  entries : List (Entry σ)
  check : σ → Except Fault Unit

namespace Section

variable {σ : Type}

/-- The first of the given keys that is not an entry of the section. -/
def strayKey? (s : Section σ) (given : List (Value × Value)) : Option Value :=
  (given.find? fun (k, _) =>
    match k with
    | .str key => !s.entries.any (·.key == key)
    | _ => true).map (·.1)

/-- Refuses keys that are not entries of the section. -/
def checkKeys (s : Section σ) (given : List (Value × Value)) : Except Fault Unit :=
  if given.all fun (k, _) => match k with | .str _ => true | _ => false then
    match s.strayKey? given with
    | none => .ok ()
    | some k => .error (.mismatch (.unexpectedKey s.owner k.display))
  else .error (.mismatch .keyNotText)

/-- Fills the entries in their order, each with the given value or else with what `other` says. -/
def fill (given : List (Value × Value)) (other : Entry σ → Except Fault Value) :
    List (Entry σ) → σ → Except Fault σ
  | [], current => .ok current
  | e :: rest, current => do
    let v ← match Value.lookup e.key given with
      | some v => .ok v
      | none => other e
    fill given other rest (e.put v current)

/-- The section with the given values; variables are read only for the entries that are not given. -/
def build (s : Section σ) (env : Environment) (given : List (Value × Value)) : Except Fault σ := do
  s.checkKeys given
  let filled ← fill given (fun e => e.initial.read env) s.entries s.blank
  s.check filled
  return filled

/-- The section with some values replaced; the others stay. -/
def replace (s : Section σ) (current : σ) (given : List (Value × Value)) : Except Fault σ := do
  s.checkKeys given
  let filled ← fill given (fun e => .ok (e.get current)) s.entries current
  s.check filled
  return filled

/-- The keys and values of a section, in order. -/
def toFields (s : Section σ) (current : σ) : List (String × Value) :=
  s.entries.map fun e => (e.key, e.get current)

end Section

/-- Refuses a value below one. -/
def atLeastOne (field : String) (v : Value) : Except Fault Unit := do
  if ← Value.compare .below v (.int 1) then .error (.invalid (.belowOne field v)) else .ok ()

/-- Refuses a value outside the interval from `low` to `high`. -/
def withinUnit (field : String) (low high : Value) (shown : Nat) (v : Value) : Except Fault Unit := do
  if ← Value.compare .atMost low v then
    if ← Value.compare .atMost v high then .ok () else .error (.invalid (.outsideUnit field shown v))
  else .error (.invalid (.outsideUnit field shown v))

end CodeAtlas
