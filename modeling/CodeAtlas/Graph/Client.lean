import CodeAtlas.Routine
import CodeAtlas.Value.Access

namespace CodeAtlas

/-- The name of a column: the second part of its header, or its number where there is none. -/
def columnName (position : Nat) (header : Value) : Except Fault Value := do
  if (← header.length) ≤ 1 then return .str ("col_" ++ toString position)
  else match header with
    | .list items => return items[1]?.getD .null
    | .str s => return .str (String.ofList (s.toList.drop 1 |>.take 1))
    | _ => .error (.noKey (.int 1))

def Row.cell (row : Row) (position : Nat) : Except Fault Cell :=
  match row with
  | .cells cs =>
    match cs[position]? with
    | some c => .ok c
    | none => .error (.noIndex "list")
  | .other (.str s) =>
    match s.toList[position]? with
    | some c => .ok (.plain (.str (String.singleton c)))
    | none => .error (.noIndex "string")
  | .other (.dict _) => .error (.noKey (.int position))
  | .other v => .error (.mismatch (.notIndexable v.kind))

/-- A node becomes a dictionary of its properties, labels and identity. -/
def Cell.value : Cell → Value
  | .plain v => v
  | .node n => .record [("properties", n.properties), ("labels", n.labels.getD (.list [])), ("id", n.id.getD .null)]

/-- Puts a value under a key; a key that is there already keeps its place. -/
def putUnder (key v : Value) : List (Value × Value) → List (Value × Value)
  | [] => [(key, v)]
  | (k, w) :: rest => if k.same key then (k, v) :: rest else (k, w) :: putUnder key v rest

/-- The entries of a record from the given column on. -/
def recordFrom (row : Row) : Nat → List Value → List (Value × Value) → Except Fault Value
  | _, [], entries => .ok (.dict entries)
  | position, header :: rest, entries => do
    let name ← columnName position header
    let cell ← row.cell position
    let name ← name.asKey
    recordFrom row (position + 1) rest (putUnder name cell.value entries)

/-- The rows of an answer as records under the names of the columns. -/
def Table.records (t : Table) : Except Fault (List Value) :=
  t.rows.mapM fun row => do recordFrom row 0 (← t.header.elements) []

namespace GraphClient

/-- Connects unless it is connected already. A failed attempt leaves it as it was. -/
def connect (n : Nat) : Routine Unit := do
  let client ← Routine.view (·.graph n)
  if client.connected then return
  Routine.query (.openGraph client.settings.host client.settings.port client.settings.password)
  Routine.query (.selectGraph client.settings.graphName)
  Routine.change (Memory.onGraph n fun c => { c with connected := true })

def close (n : Nat) : Routine Unit :=
  Routine.change (Memory.onGraph n fun c => { c with connected := false })

/-- What the journal of a query needs: a text that can be cut short and named parameters. -/
def journal (statement : Statement) (parameters : Value) : Except Fault Unit := do
  let _ ← statement.text.start (.int 100)
  match parameters with
  | .dict _ => return
  | v => throw (.noMember v.kind "keys")

/-- Sends a statement and reads the records of the answer. -/
def send (n : Nat) (statement : Statement) (parameters : Value) : Routine (List Value) := do
  let client ← Routine.view (·.graph n)
  if !client.connected then Routine.fail (.failure .graphClosed)
  else
    let parameters := parameters.orElse (.dict [])
    let table ← Routine.query (.query statement parameters)
    let records ← table.records
    journal statement parameters
    return records

/-- Sends a statement without parameters. -/
def run (n : Nat) (statement : Statement) : Routine (List Value) :=
  send n statement .null

/-- Sends a statement once for each group of rows, until one fails; counts the rows sent. -/
def sendGroups (n : Nat) (statement : Statement) (parameter : Value) : Nat → List (List Value) → Routine Nat
  | sent, [] => return sent
  | sent, group :: rest => do
    let _ ← send n statement (.dict [(parameter, .list group)])
    sendGroups n statement parameter (sent + group.length) rest

/-- Sends rows in groups of at most the given size. -/
def sendBatched (n : Nat) (statement : Statement) (rows : List Value) (size parameter : Value) : Routine Nat := do
  let groups ← groupsBy size rows
  sendGroups n statement parameter 0 groups

/-- Whether the server answers, after connecting where needed. -/
def healthCheck (n : Nat) : Routine Bool :=
  Routine.rescue (do
    if !(← Routine.view (·.graph n)).connected then connect n
    let _ ← run n .probe
    return true) fun _ => return false

end GraphClient

end CodeAtlas
