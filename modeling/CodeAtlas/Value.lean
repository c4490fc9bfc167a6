import CodeAtlas.Calendar
import CodeAtlas.Decimal.Layout

namespace CodeAtlas

/-- A datum of the formats that the program reads: graph cells, service answers, settings. The
entries of a dictionary keep their order and their keys differ from each other. -/
inductive Value where
  | null
  | bool (b : Bool)
  | int (n : Int)
  | float (x : Float)
  | str (s : String)
  | stamp (s : Stamp)
  | list (items : List Value)
  | dict (entries : List (Value × Value))
  deriving Inhabited, Repr

namespace Value

/-- The name by which messages call the kind of a value. -/
def kind : Value → String
  | .null => "NoneType"
  | .bool _ => "bool"
  | .int _ => "int"
  | .float _ => "float"
  | .str _ => "str"
  | .stamp s => if s.time.isSome then "datetime.datetime" else "datetime.date"
  | .list _ => "list"
  | .dict _ => "dict"

/-- Zero, the empty and the absent value do not count as given. -/
def truthy : Value → Bool
  | .null => false
  | .bool b => b
  | .int n => n != 0
  | .float x => x != 0.0
  | .str s => !s.isEmpty
  | .stamp _ => true
  | .list items => !items.isEmpty
  | .dict entries => !entries.isEmpty

/-- The value itself when it counts as given, the other one otherwise. -/
def orElse (v other : Value) : Value :=
  if v.truthy then v else other

def isNull : Value → Bool
  | .null => true
  | _ => false

/-- The entry of a text key. -/
def lookup (key : String) : List (Value × Value) → Option Value
  | [] => none
  | (.str k, v) :: rest => if k = key then some v else lookup key rest
  | _ :: rest => lookup key rest

/-- The field of a dictionary; nothing in a value of another kind. -/
def field? (v : Value) (key : String) : Option Value :=
  match v with
  | .dict entries => lookup key entries
  | _ => none

/-- The field of a dictionary, null when it is absent. -/
def field (v : Value) (key : String) : Value :=
  (v.field? key).getD .null

/-- A dictionary with text keys. -/
def record (fields : List (String × Value)) : Value :=
  .dict (fields.map fun (k, v) => (.str k, v))

def ofOption : Option Value → Value
  | some v => v
  | none => .null

def ofText? : Option String → Value
  | some s => .str s
  | none => .null

theorem lookup_record_cons (key : String) (v : Value) (rest : List (String × Value)) :
    (record ((key, v) :: rest)).field? key = some v := by
  simp [record, field?, lookup]

end Value

end CodeAtlas
