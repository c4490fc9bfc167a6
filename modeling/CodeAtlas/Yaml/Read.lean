import CodeAtlas.Magnitude
import CodeAtlas.Yaml.Node.Reader

namespace CodeAtlas

namespace Node

/-- A fault of a document whose name is filled in later. -/
def fault (context : Option (String × Option Mark)) (problem : String) (mark : Mark) : Fault :=
  .document "" ⟨context, problem, some mark⟩

def wrongShape (expected : String) (n : Node) : Fault :=
  fault none ("expected a " ++ expected ++ " node, but found " ++ n.shape) n.mark

/-- What a mapping gives for an equals sign as its key. -/
def equalsEntry? : List (Node × Node) → Option Node
  | [] => none
  | (k, v) :: rest => if k.tag = standardTag "value" then some v else equalsEntry? rest

/-- The text of a node. -/
def text : Nat → Node → Except Fault String
  | 0, n => .error (wrongShape "scalar" n)
  | fuel + 1, n =>
    match n with
    | .scalar _ s _ => .ok s
    | .mapping _ entries _ =>
      match equalsEntry? entries with
      | some v => text fuel v
      | none => .error (wrongShape "scalar" n)
    | _ => .error (wrongShape "scalar" n)

def mappingContext (mark : Mark) : Option (String × Option Mark) :=
  some ("while constructing a mapping", some mark)

/-- The entries of a mapping, those of the mappings that it merges in front. -/
def merged : Nat → Mark → List (Node × Node) → Except Fault (List (Node × Node))
  | 0, _, entries => .ok entries
  | fuel + 1, mark, entries => do
    let isMerge (e : Node × Node) : Bool := e.1.tag == standardTag "merge"
    let taken ← (entries.filter isMerge).mapM fun e => mergedValue fuel mark e.2
    return taken.flatten ++ entries.filter fun e => !isMerge e
where
  /-- What a merge brings in: a mapping, or a list of mappings of which the last one comes first. -/
  mergedValue (fuel : Nat) (mark : Mark) : Node → Except Fault (List (Node × Node))
    | .mapping _ entries inner => merged fuel inner entries
    | .sequence _ items _ => do
      let parts ← items.mapM fun
        | .mapping _ entries inner => merged fuel inner entries
        | n => .error (fault (mappingContext mark) ("expected a mapping for merging, but found " ++ n.shape) n.mark)
      return parts.reverse.flatten
    | n => .error (fault (mappingContext mark)
        ("expected a mapping or list of mappings for merging, but found " ++ n.shape) n.mark)

/-- How deep nodes can lie in each other while they are read. -/
def deepest : Nat := 100000

/-- The value of a node that holds a text. -/
def textValue (tag : String) (n : Node) : Except Fault Value := do
  let s ← n.text deepest
  if tag = standardTag "null" then return .null
  else if tag = standardTag "bool" then return .bool (← documentSwitch s)
  else if tag = standardTag "int" then return .int (← documentInt s)
  else if tag = standardTag "float" then return .float (← documentFloat s)
  else if tag = standardTag "timestamp" then return .stamp (← documentStamp s)
  else return .str s

def textTags : List String :=
  ["null", "bool", "int", "float", "timestamp", "str", "binary"].map standardTag

/-- How a tag makes a value of a node. -/
inductive Making where
  | text
  | list
  | pairs
  | keys
  | mapping
  deriving DecidableEq, Inhabited, Repr

def makings : List (String × Making) :=
  [("seq", .list), ("omap", .pairs), ("pairs", .pairs), ("set", .keys), ("map", .mapping)]

def making? (n : Node) : Option Making :=
  if textTags.contains n.tag then some .text
  else (makings.find? fun (name, _) => standardTag name = n.tag).map (·.2)

def unknownTag (n : Node) : Fault :=
  fault none ("could not determine a constructor for the tag " ++ quoted n.tag) n.mark

/-- The items of a node that makes a list. -/
def items : Node → Except Fault (List Node)
  | .sequence _ items _ => .ok items
  | n => .error (wrongShape "sequence" n)

/-- The keys and values of a node that makes a list of pairs: each item is a mapping of one entry. -/
def pairs : Node → Except Fault (List (Node × Node))
  | .sequence _ items mark =>
    let context : Option (String × Option Mark) := some ("while constructing an ordered map", some mark)
    items.mapM fun
      | .mapping _ [entry] _ => .ok entry
      | .mapping _ entries inner =>
        .error (fault context
          ("expected a single mapping item, but found " ++ toString entries.length ++ " items") inner)
      | n => .error (fault context ("expected a mapping of length 1, but found " ++ n.shape) n.mark)
  | n => .error (wrongShape "sequence" n)

/-- The entries of a node that makes a mapping. -/
def entries : Node → Except Fault (List (Node × Node))
  | .mapping _ entries mark => merged deepest mark entries
  | n => .error (wrongShape "mapping" n)

/-- An equals sign as a key stands for itself. -/
def asKey : Node → Node
  | .scalar tag s mark =>
    .scalar (if tag = standardTag "value" then standardTag "str" else tag) s mark
  | n => n

/-- What shows on the outside of a node: the fault of its text or of its tag. -/
def checkOutside (n : Node) : Except Fault Unit :=
  match n with
  | .loop mark => .error (fault none "found unconstructable recursive node" mark)
  | _ =>
    match making? n with
    | none => .error (unknownTag n)
    | some .text => (textValue n.tag n).map fun _ => ()
    | some _ => .ok ()

/-- A key has to be a text. -/
def checkKey (mark : Mark) (key : Node) : Except Fault Unit := do
  checkOutside key
  match making? key with
  | some .text => .ok ()
  | _ => .error (fault (mappingContext mark) "found unhashable key" key.mark)

/-- The nodes inside of a node, after their outsides are checked in order. -/
def inside (n : Node) : Except Fault (List Node) :=
  match making? n with
  | some .list => do
    let items ← n.items
    for item in items do checkOutside item
    return items
  | some .pairs => do
    let parts := (← n.pairs).flatMap fun (key, v) => [key, v]
    for part in parts do checkOutside part
    return parts
  | some .text => .ok []
  | some _ => do
    let entries ← n.entries
    for (key, v) in entries do
      checkKey n.mark key.asKey
      checkOutside v
    return entries.map (·.2)
  | none => .ok []

/-- Checks nodes level by level: a fault further outside shows before one further inside. -/
def checkLevels : Nat → List Node → Except Fault Unit
  | 0, _ => .ok ()
  | fuel + 1, level => do
    if level.isEmpty then return ()
    let next ← level.mapM inside
    checkLevels fuel next.flatten

/-- Puts a value under a key of a document. A key that was there before keeps its place. -/
def putValue (key v : Value) : List (Value × Value) → List (Value × Value)
  | [] => [(key, v)]
  | (k, w) :: rest => if k.same key then (k, v) :: rest else (k, w) :: putValue key v rest

/-- The value of a node. -/
def value : Nat → Node → Except Fault Value
  | 0, _ => .ok .null
  | fuel + 1, n =>
    match making? n with
    | none => .error (unknownTag n)
    | some .text => textValue n.tag n
    | some .list => do return .list (← (← n.items).mapM (value fuel))
    | some .pairs => do
      return .list (← (← n.pairs).mapM fun (k, v) => do return .list [← value fuel k, ← value fuel v])
    | some making => do
      let entries ← (← n.entries).mapM fun (k, v) => do
        let key ← value fuel k.asKey
        let v ← value fuel v
        return (key, v)
      let entries := entries.foldl (fun d (k, v) => putValue k v d) []
      return if making = .keys then .list (entries.map (·.1)) else .dict entries

end Node

/-- The characters that a document may hold. -/
def isDocumentChar (c : Char) : Bool :=
  let n := c.toNat
  n == 0x09 || n == 0x0A || n == 0x0D || (0x20 ≤ n && n ≤ 0x7E) || n == 0x85 || (0xA0 ≤ n && n ≤ 0xD7FF) ||
    (0xE000 ≤ n && n ≤ 0xFFFD) || 0x10000 ≤ n

/-- The number of a character in at least four hexadecimal digits. -/
def charNumber (c : Char) : String :=
  String.ofList (hexText (if c.toNat < 0x10000 then 4 else if c.toNat < 0x100000 then 5 else 6) c.toNat)

/-- Refuses a document with a character that may not stand in it. -/
def checkChars (source : String) (cs : List Char) : Except DocumentFault Unit :=
  match cs.zipIdx.find? fun (c, _) => !isDocumentChar c with
  | none => .ok ()
  | some (c, place) =>
    .error ⟨none, "unacceptable character #x" ++ charNumber c ++ ": special characters are not allowed\n" ++
      "  in \"" ++ source ++ "\", position " ++ toString place, none⟩

namespace Compose

/-- Takes the lines with a percent sign before a document. -/
def directives (versioned : Bool) : Nat → List (String × String) → Compose (List (String × String))
  | 0, handles => return handles
  | fuel + 1, handles => do
    let t ← peek
    match t.sort with
    | .directive (.version major _) =>
      let _ ← take
      if versioned then throw ⟨none, "found duplicate YAML directive", some t.start⟩
      if major ≠ 1 then
        throw ⟨none, "found incompatible YAML document (version 1.* is required)", some t.start⟩
      directives true fuel handles
    | .directive (.tagPrefix handle text) =>
      let _ ← take
      if (handles.lookup handle).isSome then
        throw ⟨none, "duplicate tag handle " ++ quoted handle, some t.start⟩
      directives versioned fuel (handles ++ [(handle, text)])
    | .directive .other =>
      let _ ← take
      directives versioned fuel handles
    | _ => return handles

/-- The handles that need no declaration. -/
def standardHandles : List (String × String) := [("!", "!"), ("!!", tagSpace)]

def skipDocumentEnds : Nat → Compose Unit
  | 0 => return
  | fuel + 1 => do
    if (← sort) = .documentEnd then
      let _ ← take
      skipDocumentEnds fuel

/-- The start of a document that is announced; nothing at the end of the stream. -/
def documentStart? (fuel : Nat) : Compose (Option Mark) := do
  skipDocumentEnds fuel
  let t ← peek
  if t.sort = .streamEnd then return none
  let declared ← directives false fuel []
  modify fun s => { s with handles := declared ++ standardHandles }
  let marker ← peek
  if marker.sort ≠ .documentStart then
    throw ⟨none, "expected '<document start>', but found " ++ quoted marker.sort.label, some marker.start⟩
  let _ ← take
  return some t.start

def isDirective : TokenSort → Bool
  | .directive _ => true
  | _ => false

/-- The content of a document that is announced, which may be empty. -/
def content (fuel : Nat) : Compose Node := do
  let t ← peek
  if isDirective t.sort || [.documentStart, .documentEnd, .streamEnd].contains t.sort then return emptyNode t.start
  node fuel true false

/-- The only document of a stream; nothing when the stream is empty. -/
def document? (fuel : Nat) : Compose (Option Node) := do
  let t ← peek
  if t.sort = .streamEnd then return none
  let found ← if isDirective t.sort || t.sort = .documentStart then do
      let _ ← documentStart? fuel
      content fuel
    else node fuel true false
  if (← sort) = .documentEnd then let _ ← take
  match ← documentStart? fuel with
  | none => return some found
  | some mark =>
    failure "expected a single document in the stream" found.mark "but found another document" mark

end Compose

/-- The nodes of the only document of a stream; none when the stream is empty. -/
def readNode (source text : String) : Except DocumentFault (Option Node) := do
  checkChars source text.toList
  let stream := TokenStream.ofText text
  let fuel := 8 * stream.tokens.length + 8
  let (found, _) ← (Compose.document? fuel).run ⟨stream, Compose.standardHandles, []⟩
  return found

/-- Fills in the name of the document that a fault is about. -/
def Fault.inDocument (source : String) : Fault → Fault
  | .document _ why => .document source why
  | fault => fault

/-- The value of a whole document, checked from the outside to the inside. -/
def Node.toValue (n : Node) : Except Fault Value := do
  n.checkOutside
  Node.checkLevels Node.deepest [n]
  n.value Node.deepest

/-- Reads a document, which `source` names; an empty one holds null. -/
def readDocument (source text : String) : Except Fault Value :=
  match readNode source text with
  | .error why => .error (.document source why)
  | .ok none => .ok .null
  | .ok (some n) => n.toValue.mapError (Fault.inDocument source)

end CodeAtlas
