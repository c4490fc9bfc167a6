import CodeAtlas.Yaml.Scalar
import CodeAtlas.Yaml.Token.Lexer

namespace CodeAtlas

/-- A node that was given a name; nothing as long as it is being read. -/
structure Anchored where
  name : String
  mark : Mark
  node : Option Node
  deriving Inhabited

/-- Where the reading of nodes stands. -/
structure NodeReader where
  stream : TokenStream
  handles : List (String × String)
  anchors : List Anchored
  deriving Inhabited

/-- A step in the reading of nodes. -/
abbrev Compose := StateT NodeReader (Except DocumentFault)

/-- What stands before a node: its name and its tag. -/
structure NodeHead where
  start : Mark
  anchor : Option String
  tag : Option String
  deriving Inhabited

namespace Compose

/-- The next token. A fault in the text shows when the token after it is asked for. -/
def peek : Compose Token := do
  let s ← get
  match s.stream.tokens with
  | t :: _ => return t
  | [] =>
    match s.stream.fault with
    | some fault => throw fault
    | none => return ⟨.streamEnd, ⟨0, 0⟩, ⟨0, 0⟩⟩

def take : Compose Token := do
  let t ← peek
  modify fun s => { s with stream := { s.stream with tokens := s.stream.tokens.tail } }
  return t

def sort : Compose TokenSort := do return (← peek).sort

def failure {α : Type} (context : String) (start : Mark) (problem : String) (mark : Mark) : Compose α := do
  throw ⟨some (context, some start), problem, some mark⟩

def anchor? : Compose (Option Token × Option String) := do
  let t ← peek
  match t.sort with
  | .anchor name =>
    let _ ← take
    return (some t, some name)
  | _ => return (none, none)

def tag? : Compose (Option (Token × Option String × String)) := do
  let t ← peek
  match t.sort with
  | .tag handle suffix =>
    let _ ← take
    return some (t, handle, suffix)
  | _ => return none

/-- The full tag for a handle and a suffix. -/
def fullTag (start : Mark) (t : Token) (handle : Option String) (suffix : String) : Compose String := do
  match handle with
  | none => return suffix
  | some handle =>
    match (← get).handles.lookup handle with
    | some text => return text ++ suffix
    | none => failure "while parsing a node" start ("found undefined tag handle " ++ quoted handle) t.start

/-- A name and a tag before a node, in either order. -/
def head : Compose NodeHead := do
  let first ← anchor?
  let tag ← tag?
  let (named, anchor) ← match first.1, tag with
    | none, some _ => anchor?
    | _, _ => pure first
  let start ← match first.1, tag, named with
    | some t, _, _ => pure t.start
    | none, some (t, _, _), _ => pure t.start
    | none, none, _ => pure (← peek).start
  let full ← match tag with
    | some (t, handle, suffix) => pure (some (← fullTag start t handle suffix))
    | none => pure none
  return { start, anchor, tag := full }

def NodeHead.openTag (h : NodeHead) : Bool := h.tag.isNone || h.tag = some "!"

/-- The tag of a list or a mapping. -/
def collectionTag (h : NodeHead) (name : String) : String :=
  match h.tag with
  | none => standardTag name
  | some "!" => standardTag name
  | some t => t

/-- The tag of a text: what it looks like where it is plain and has no tag of its own. -/
def textTag (h : NodeHead) (text : String) (plain : Bool) : String :=
  match h.tag with
  | none => if plain then plainTag text else standardTag "str"
  | some "!" => plainTag text
  | some t => t

/-- Refuses a name that was given before. -/
def declare (h : NodeHead) : Compose Unit := do
  match h.anchor with
  | none => return
  | some name =>
    match (← get).anchors.find? (·.name == name) with
    | some a =>
      failure ("found duplicate anchor " ++ quoted name ++ "; first occurrence") a.mark "second occurrence" h.start
    | none => modify fun s => { s with anchors := s.anchors ++ [⟨name, h.start, none⟩] }

/-- Keeps a node under its name. -/
def keep (h : NodeHead) (node : Node) : Compose Node := do
  match h.anchor with
  | none => return node
  | some name =>
    modify fun s => { s with
      anchors := s.anchors.map fun a => if a.name = name then { a with node := some node } else a }
    return node

/-- The node that a name stands for. -/
def resolveAlias (name : String) (mark : Mark) : Compose Node := do
  match (← get).anchors.find? (·.name == name) with
  | none => throw ⟨none, "found undefined alias " ++ quoted name, some mark⟩
  | some a => return a.node.getD (.loop a.mark)

def emptyNode (mark : Mark) : Node := .scalar (standardTag "null") "" mark

/-- What ends a list or a mapping without brackets: its last token, or a refusal. -/
def blockEnd (context : String) (start : Mark) : Compose Unit := do
  let t ← peek
  if t.sort = .blockEnd then let _ ← take
  else failure context start ("expected <block end>, but found " ++ quoted t.sort.label) t.start

/-- The comma before an entry between brackets; the first entry has none. -/
def comma (context : String) (start : Mark) (closing : String) (first : Bool) : Compose Unit := do
  if !first then
    let t ← peek
    if t.sort = .flowEntry then let _ ← take
    else
      failure context start ("expected ',' or '" ++ closing ++ "', but got " ++ quoted t.sort.label) t.start

mutual

/-- A node. `block` allows lists and mappings without brackets, `indentless` also a list that is not
indented. -/
def node (fuel : Nat) (block indentless : Bool) : Compose Node := do
  match fuel with
  | 0 => return emptyNode ⟨0, 0⟩
  | fuel + 1 =>
    let t ← peek
    match t.sort with
    | .alias name =>
      let _ ← take
      resolveAlias name t.start
    | _ =>
      let h ← head
      let t ← peek
      if indentless && t.sort = .blockEntry then
        declare h
        keep h (.sequence (collectionTag h "seq") (← indentlessItems fuel []) h.start)
      else match t.sort with
        | .scalar text plain =>
          let _ ← take
          declare h
          keep h (.scalar (textTag h text plain) text h.start)
        | .flowSequenceStart =>
          declare h
          let _ ← take
          keep h (.sequence (collectionTag h "seq") (← flowItems fuel t.start true []) h.start)
        | .flowMappingStart =>
          declare h
          let _ ← take
          keep h (.mapping (collectionTag h "map") (← flowEntries fuel t.start true []) h.start)
        | sort =>
          if block && sort = .blockSequenceStart then
            declare h
            let _ ← take
            keep h (.sequence (collectionTag h "seq") (← blockItems fuel t.start []) h.start)
          else if block && sort = .blockMappingStart then
            declare h
            let _ ← take
            keep h (.mapping (collectionTag h "map") (← blockEntries fuel t.start []) h.start)
          else if h.anchor.isSome || h.tag.isSome then
            declare h
            keep h (.scalar (textTag h "" true) "" h.start)
          else
            failure ("while parsing a " ++ (if block then "block" else "flow") ++ " node") h.start
              ("expected the node content, but found " ++ quoted t.sort.label) t.start

/-- The items of a list whose dashes are indented. -/
def blockItems (fuel : Nat) (start : Mark) (items : List Node) : Compose (List Node) := do
  match fuel with
  | 0 => return items
  | fuel + 1 =>
    let t ← peek
    if t.sort = .blockEntry then
      let _ ← take
      let next ← sort
      let item ← if next = .blockEntry || next = .blockEnd then pure (emptyNode t.stop) else node fuel true false
      blockItems fuel start (items ++ [item])
    else
      blockEnd "while parsing a block collection" start
      return items

/-- The items of a list whose dashes stand below the key of the list. -/
def indentlessItems (fuel : Nat) (items : List Node) : Compose (List Node) := do
  match fuel with
  | 0 => return items
  | fuel + 1 =>
    let t ← peek
    if t.sort = .blockEntry then
      let _ ← take
      let next ← sort
      let item ← if [.blockEntry, .key, .value, .blockEnd].contains next then pure (emptyNode t.stop)
        else node fuel true false
      indentlessItems fuel (items ++ [item])
    else return items

/-- The entries of a mapping without brackets. -/
def blockEntries (fuel : Nat) (start : Mark) (entries : List (Node × Node)) : Compose (List (Node × Node)) := do
  match fuel with
  | 0 => return entries
  | fuel + 1 =>
    let t ← peek
    if t.sort = .key then
      let _ ← take
      let key ← blockPart fuel t.stop
      let v ← blockValue fuel
      blockEntries fuel start (entries ++ [(key, v)])
    else
      blockEnd "while parsing a block mapping" start
      return entries

/-- A key or a value of a mapping without brackets, empty where the next entry follows at once. -/
def blockPart (fuel : Nat) (mark : Mark) : Compose Node := do
  match fuel with
  | 0 => return emptyNode mark
  | fuel + 1 =>
    if [.key, .value, .blockEnd].contains (← sort) then return emptyNode mark
    node fuel true true

def blockValue (fuel : Nat) : Compose Node := do
  match fuel with
  | 0 => return emptyNode ⟨0, 0⟩
  | fuel + 1 =>
    let t ← peek
    if t.sort = .value then
      let _ ← take
      blockPart fuel t.stop
    else return emptyNode t.start

/-- The items of a list in brackets. An item with a colon in it is a mapping of one entry. -/
def flowItems (fuel : Nat) (start : Mark) (first : Bool) (items : List Node) : Compose (List Node) := do
  match fuel with
  | 0 => return items
  | fuel + 1 =>
    if (← sort) = .flowSequenceEnd then
      let _ ← take
      return items
    comma "while parsing a flow sequence" start "]" first
    let t ← peek
    if t.sort = .key then
      let _ ← take
      let key ← flowPart fuel t.stop [.value, .flowEntry, .flowSequenceEnd]
      let v ← flowValue fuel [.flowEntry, .flowSequenceEnd]
      flowItems fuel start false (items ++ [.mapping (standardTag "map") [(key, v)] t.start])
    else if t.sort = .flowSequenceEnd then
      let _ ← take
      return items
    else
      let item ← node fuel false false
      flowItems fuel start false (items ++ [item])

/-- The entries of a mapping in braces. -/
def flowEntries (fuel : Nat) (start : Mark) (first : Bool) (entries : List (Node × Node)) :
    Compose (List (Node × Node)) := do
  match fuel with
  | 0 => return entries
  | fuel + 1 =>
    if (← sort) = .flowMappingEnd then
      let _ ← take
      return entries
    comma "while parsing a flow mapping" start "\x7d" first
    let t ← peek
    if t.sort = .key then
      let _ ← take
      let key ← flowPart fuel t.stop [.value, .flowEntry, .flowMappingEnd]
      let v ← flowValue fuel [.flowEntry, .flowMappingEnd]
      flowEntries fuel start false (entries ++ [(key, v)])
    else if t.sort = .flowMappingEnd then
      let _ ← take
      return entries
    else
      let key ← node fuel false false
      let after ← peek
      flowEntries fuel start false (entries ++ [(key, emptyNode after.start)])

/-- A key or a value between brackets, empty where one of the given tokens follows. -/
def flowPart (fuel : Nat) (mark : Mark) (enders : List TokenSort) : Compose Node := do
  match fuel with
  | 0 => return emptyNode mark
  | fuel + 1 =>
    if enders.contains (← sort) then return emptyNode mark
    node fuel false false

def flowValue (fuel : Nat) (enders : List TokenSort) : Compose Node := do
  match fuel with
  | 0 => return emptyNode ⟨0, 0⟩
  | fuel + 1 =>
    let t ← peek
    if t.sort = .value then
      let _ ← take
      flowPart fuel t.stop enders
    else return emptyNode t.start

end

end Compose

end CodeAtlas
