import CodeAtlas.Yaml.ScalarText
import CodeAtlas.Yaml.Token.Names

namespace CodeAtlas

/-- A token that may turn out to be a key: its number and its place. It has to be one where it stands
at the indentation of a block. -/
structure KeyCandidate where
  number : Nat
  required : Bool
  index : Nat
  mark : Mark
  deriving Inhabited

/-- Where the reading of tokens stands. -/
structure Lexer where
  cursor : Cursor
  /-- How many brackets are open. -/
  flow : Int
  indent : Int
  outerIndents : List Int
  keyAllowed : Bool
  /-- At most one candidate for each depth of brackets. -/
  candidates : List (Int × KeyCandidate)
  /-- Tokens that wait until it is clear whether a key starts before them. -/
  queue : List Token
  /-- How many tokens have left the queue. -/
  released : Nat
  finished : Bool
  deriving Inhabited

/-- A step in the reading of tokens. -/
abbrev Lex := StateT Lexer (Except DocumentFault)

namespace Lex

/-- A step through the text. -/
def scan {α : Type} (p : Scan α) : Lex α := do
  let s ← get
  let (a, cursor) ← p.run s.cursor
  set { s with cursor }
  return a

def markHere : Lex Mark := do return (← get).cursor.mark

def push (sort : TokenSort) (start stop : Mark) : Lex Unit :=
  modify fun s => { s with queue := s.queue ++ [⟨sort, start, stop⟩] }

/-- A token that takes up no text. -/
def pushHere (sort : TokenSort) : Lex Unit := do
  let mark ← markHere
  push sort mark mark

/-- A token of a fixed number of characters. -/
def pushChars (sort : TokenSort) (count : Nat) : Lex Unit := do
  let start ← markHere
  scan (Scan.advance count)
  push sort start (← markHere)

def inBlock : Lex Bool := do return (← get).flow == 0

def allowKey (allowed : Bool) : Lex Unit := modify fun s => { s with keyAllowed := allowed }

def missingColon (k : KeyCandidate) : Lex Unit := do
  throw ⟨some ("while scanning a simple key", some k.mark), "could not find expected ':'", some (← markHere)⟩

/-- Drops the candidates that lie too far back: on an earlier line, or more than 1024 characters. -/
def dropStale : Lex Unit := do
  let s ← get
  let isStale (k : KeyCandidate) : Bool := k.mark.line != s.cursor.line || 1024 < s.cursor.index - k.index
  match s.candidates.find? fun (_, k) => isStale k && k.required with
  | some (_, k) => missingColon k
  | none => set { s with candidates := s.candidates.filter fun (_, k) => !isStale k }

/-- Drops the candidate at the present depth. -/
def dropCandidate : Lex Unit := do
  let s ← get
  match s.candidates.lookup s.flow with
  | some k =>
    if k.required then missingColon k
    set { s with candidates := s.candidates.filter (·.1 != s.flow) }
  | none => return

/-- Notes that the next token may be a key. -/
def noteCandidate : Lex Unit := do
  let s ← get
  if s.keyAllowed then
    dropCandidate
    let s ← get
    let candidate : KeyCandidate := {
      number := s.released + s.queue.length
      required := s.flow == 0 && s.indent == s.cursor.column
      index := s.cursor.index
      mark := s.cursor.mark }
    set { s with candidates := s.candidates ++ [(s.flow, candidate)] }

/-- Ends the blocks that are indented more than a column. -/
def endBlocks (column : Int) : Nat → Lex Unit
  | 0 => return
  | fuel + 1 => do
    let s ← get
    if s.flow == 0 && column < s.indent then
      pushHere .blockEnd
      modify fun s => { s with indent := s.outerIndents.head?.getD (-1), outerIndents := s.outerIndents.tail }
      endBlocks column fuel

def unwind (column : Int) : Lex Unit := do endBlocks column ((← get).outerIndents.length + 1)

/-- Begins a block at a column if it is indented more than the present one, and tells whether it is. -/
def beginBlock (column : Int) : Lex Bool := do
  let s ← get
  if s.indent < column then
    set { s with outerIndents := s.indent :: s.outerIndents, indent := column }
    return true
  else return false

/-- Begins a block here where one is due; nothing but a place for a key will do. -/
def beginBlockHere (sort : TokenSort) (refusal : String) : Lex Unit := do
  if ← inBlock then
    if !(← get).keyAllowed then throw ⟨none, refusal, some (← markHere)⟩
    if ← beginBlock (← get).cursor.column then pushHere sort

/-- Skips spaces, comments and line ends; outside of brackets a new line may begin with a key. -/
def skipToToken : Nat → Lex Unit
  | 0 => return
  | fuel + 1 => do
    scan Scan.skipSpaces
    scan Scan.skipComment
    if (← scan Scan.lineBreak).isEmpty then return
    if ← inBlock then allowKey true
    skipToToken fuel

def skipByteOrderMark : Lex Unit := do
  let s ← get
  if s.cursor.index == 0 && s.cursor.rest.head? = some '\uFEFF' then scan (Scan.advance 1)

def endStream : Lex Unit := do
  unwind (-1)
  dropCandidate
  allowKey false
  modify fun s => { s with candidates := [], finished := true }
  pushHere .streamEnd

def directive : Lex Unit := do
  unwind (-1)
  dropCandidate
  allowKey false
  let start ← markHere
  let (found, stop) ← scan Scan.directive
  push (.directive found) start stop

def separator (sort : TokenSort) : Lex Unit := do
  unwind (-1)
  dropCandidate
  allowKey false
  pushChars sort 3

def openBracket (sort : TokenSort) : Lex Unit := do
  noteCandidate
  modify fun s => { s with flow := s.flow + 1 }
  allowKey true
  pushChars sort 1

def closeBracket (sort : TokenSort) : Lex Unit := do
  dropCandidate
  modify fun s => { s with flow := s.flow - 1 }
  allowKey false
  pushChars sort 1

def comma : Lex Unit := do
  allowKey true
  dropCandidate
  pushChars .flowEntry 1

def dash : Lex Unit := do
  beginBlockHere .blockSequenceStart "sequence entries are not allowed here"
  allowKey true
  dropCandidate
  pushChars .blockEntry 1

def questionMark : Lex Unit := do
  beginBlockHere .blockMappingStart "mapping keys are not allowed here"
  allowKey (← inBlock)
  dropCandidate
  pushChars .key 1

/-- Puts tokens into the queue before the one with a number. -/
def insertAt (number : Nat) (tokens : List Token) : Lex Unit :=
  modify fun s =>
    let place := number - s.released
    { s with queue := s.queue.take place ++ tokens ++ s.queue.drop place }

/-- A colon makes the candidate at the present depth a key; without one the key is empty. -/
def colon : Lex Unit := do
  let s ← get
  match s.candidates.lookup s.flow with
  | some k =>
    set { s with candidates := s.candidates.filter (·.1 != s.flow) }
    let begins ← if ← inBlock then beginBlock k.mark.column else pure false
    let opening : List Token := if begins then [⟨.blockMappingStart, k.mark, k.mark⟩] else []
    insertAt k.number (opening ++ [⟨.key, k.mark, k.mark⟩])
    allowKey false
  | none =>
    beginBlockHere .blockMappingStart "mapping values are not allowed here"
    allowKey (← inBlock)
    dropCandidate
  pushChars .value 1

/-- A token that may be a key and after which none may follow on the line. -/
def keyed (p : Lex TokenSort) : Lex Unit := do
  noteCandidate
  allowKey false
  let start ← markHere
  let sort ← p
  push sort start (← markHere)

def scalarSort (plain : Bool) (text : List Char) : TokenSort := .scalar (String.ofList text) plain

def blockText (folded : Bool) : Lex Unit := do
  allowKey true
  dropCandidate
  let start ← markHere
  let text ← scan (BlockText.scan folded (← get).indent)
  push (scalarSort false text) start (← markHere)

def plainText : Lex TokenSort := do
  let (text, broken) ← scan (PlainText.scan (!(← inBlock)) ((← get).indent + 1))
  allowKey broken
  return scalarSort true text

/-- Whether a plain text starts with the character. -/
def startsPlain (inBlock : Bool) (c : Char) (next : Option Char) : Bool :=
  !(atWideGap (some c) || "-?:,[]\x7b\x7d#&*!|>'\"%@\x60".contains c) ||
    (!atWideGap next && (c == '-' || (inBlock && (c == '?' || c == ':'))))

/-- The tokens that start with a character. -/
def dispatch (c : Char) (next : Option Char) : Lex Unit := do
  let block ← inBlock
  let gapFollows := atWideGap next
  let atLineStart := (← get).cursor.column == 0
  let separates ← scan Scan.atSeparator
  if c == '%' && atLineStart then directive
  else if c == '-' && atLineStart && separates then separator .documentStart
  else if c == '.' && atLineStart && separates then separator .documentEnd
  else if c == '[' then openBracket .flowSequenceStart
  else if c == '\x7b' then openBracket .flowMappingStart
  else if c == ']' then closeBracket .flowSequenceEnd
  else if c == '\x7d' then closeBracket .flowMappingEnd
  else if c == ',' then comma
  else if c == '-' && gapFollows then dash
  else if c == '?' && (!block || gapFollows) then questionMark
  else if c == ':' && (!block || gapFollows) then colon
  else if c == '*' then keyed (return .alias (← scan (Scan.anchorName "alias")))
  else if c == '&' then keyed (return .anchor (← scan (Scan.anchorName "anchor")))
  else if c == '!' then keyed do
    let (handle, suffix) ← scan Scan.tag
    return .tag handle suffix
  else if c == '|' && block then blockText false
  else if c == '>' && block then blockText true
  else if c == '\'' || c == '"' then keyed (return scalarSort false (← scan (QuotedText.scan c)))
  else if startsPlain block c next then keyed plainText
  else
    throw ⟨some ("while scanning for the next token", none),
      "found character " ++ shownHere (some c) ++ " that cannot start any token", some (← markHere)⟩

/-- Reads the next tokens into the queue. -/
def fetch : Lex Unit := do
  skipByteOrderMark
  skipToToken ((← get).cursor.rest.length + 1)
  dropStale
  unwind (← get).cursor.column
  match (← get).cursor.rest with
  | [] => endStream
  | c :: rest => dispatch c rest.head?

end Lex

namespace Lexer

def start (text : String) : Lexer where
  cursor := ⟨text.toList, 0, 0, 0⟩
  flow := 0
  indent := -1
  outerIndents := []
  keyAllowed := true
  candidates := []
  queue := []
  released := 0
  finished := false

/-- The tokens at the front of the queue before which no key can start any more. -/
def release (s : Lexer) : List Token × Lexer :=
  let bound := match (s.candidates.map fun (_, k) => k.number).min? with
    | some number => number - s.released
    | none => s.queue.length
  (s.queue.take bound, { s with queue := s.queue.drop bound, released := s.released + min bound s.queue.length })

/-- The tokens from here on. -/
def tokens : Nat → Lexer → TokenStream
  | 0, s => ⟨s.queue, none⟩
  | fuel + 1, s =>
    if s.finished then ⟨s.queue, none⟩
    else
      match (do Lex.fetch; Lex.dropStale).run s with
      | .error fault => ⟨[], some fault⟩
      | .ok ((), s) =>
        let (front, s) := s.release
        let further := tokens fuel s
        ⟨front ++ further.tokens, further.fault⟩

end Lexer

/-- The tokens of a document. -/
def TokenStream.ofText (text : String) : TokenStream :=
  (Lexer.start text).tokens (2 * text.length + 2)

end CodeAtlas
