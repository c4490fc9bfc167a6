import CodeAtlas.Json.Read
import CodeAtlas.Yaml.Cursor

namespace CodeAtlas

namespace PlainText

/-- The characters of a plain text up to a gap or an indicator. -/
def run (flow : Bool) : List Char → List Char
  | [] => []
  | c :: rest =>
    let next := rest.head?
    let colonEnds := c == ':' && (atWideGap next || (flow && next.any (",[]\x7b\x7d".contains ·)))
    if atWideGap (some c) || colonEnds || (flow && ",?[]\x7b\x7d".contains c) then []
    else c :: run flow rest

/-- The line ends after the first one inside a plain text, unless a separator of documents stops it. -/
def furtherBreaks : Nat → List Char → Scan (Option (List Char))
  | 0, breaks => return some breaks
  | fuel + 1, breaks => do
    match ← Scan.peek with
    | some ' ' =>
      Scan.advance 1
      furtherBreaks fuel breaks
    | some c =>
      if !isBreak c then return some breaks
      let found ← Scan.lineBreak
      if ← Scan.atSeparator then return none
      furtherBreaks fuel (breaks ++ found)
    | none => return some breaks

/-- Joins lines: a single line feed becomes a space, further line ends are kept. -/
def foldBreaks (first further : List Char) : List Char :=
  if first != ['\n'] then first ++ further
  else if further.isEmpty then [' '] else further

/-- What lies between two words of a plain text, and whether a line ended there. -/
def gap : Scan (List Char × Bool) := do
  let spaces ← Scan.takeRun (· == ' ')
  let c ← Scan.peek
  if c.isSome && atLineEnd c then
    let first ← Scan.lineBreak
    if ← Scan.atSeparator then return ([], true)
    match ← furtherBreaks (← get).rest.length [] with
    | none => return ([], true)
    | some further => return (foldBreaks first further, true)
  else return (spaces, false)

/-- The words of a plain text from here on, the last gap before them in front. -/
def words (flow : Bool) (indent : Int) : Nat → List Char → Bool → Scan (List Char × Bool)
  | 0, _, broken => return ([], broken)
  | fuel + 1, before, broken => do
    let word := run flow (← get).rest
    if (← Scan.peek) = some '#' || word.isEmpty then return ([], broken)
    Scan.advance word.length
    let (spaces, broken) ← gap
    if spaces.isEmpty || (← Scan.peek) = some '#' || (!flow && (← get).column < indent) then
      return (before ++ word, broken)
    let (further, broken) ← words flow indent fuel spaces broken
    return (before ++ word ++ further, broken)

/-- A plain text, and whether a line ended at its end. -/
def scan (flow : Bool) (indent : Int) : Scan (List Char × Bool) := do
  words flow indent ((← get).rest.length + 1) [] false

end PlainText

namespace QuotedText

/-- What a letter after a backslash stands for. -/
def replacement? (c : Char) : Option Char :=
  [('0', '\x00'), ('a', '\x07'), ('b', '\x08'), ('t', '\t'), ('\t', '\t'), ('n', '\n'), ('v', '\x0b'), ('f', '\x0c'),
    ('r', '\r'), ('e', '\x1b'), (' ', ' '), ('"', '"'), ('\\', '\\'), ('/', '/'), ('N', '\u0085'), ('_', '\u00a0'),
    ('L', '\u2028'), ('P', '\u2029')].lookup c

/-- How many hexadecimal digits follow a letter after a backslash. -/
def codeWidth? (c : Char) : Option Nat :=
  [('x', 2), ('u', 4), ('U', 8)].lookup c

/-- Hexadecimal digits, exactly as many as given. -/
def hexDigits (start : Mark) (width : Nat) : Nat → Nat → Scan Nat
  | 0, code => do
    Scan.advance width
    return code
  | left + 1, code => do
    let c ← Scan.peekAt (width - (left + 1))
    match c.bind hexValue? with
    | some d => hexDigits start width left (16 * code + d)
    | none =>
      Scan.failure "while scanning a double-quoted scalar" start
        ("expected escape sequence of " ++ toString width ++ " hexadecimal numbers, but found " ++ shownHere c)

/-- Line ends between quotes. Separators of documents may not stand there. -/
def breaks (start : Mark) : Nat → Scan (List Char)
  | 0 => return []
  | fuel + 1 => do
    if ← Scan.atSeparator then
      Scan.failure "while scanning a quoted scalar" start "found unexpected document separator"
    let _ ← Scan.takeRun fun c => c == ' ' || c == '\t'
    let c ← Scan.peek
    if c.isSome && atLineEnd c then
      let first ← Scan.lineBreak
      return first ++ (← breaks start fuel)
    else return []

/-- What a backslash begins. -/
def escape (start : Mark) : Scan (List Char) := do
  Scan.advance 1
  let c ← Scan.peek
  match c.bind replacement?, c.bind codeWidth? with
  | some ch, _ =>
    Scan.advance 1
    return [ch]
  | none, some width =>
    Scan.advance 1
    let code ← hexDigits start width width 0
    return [Char.ofNat code]
  | none, none =>
    if c.isSome && atLineEnd c then
      let _ ← Scan.lineBreak
      breaks start ((← get).rest.length + 1)
    else
      Scan.failure "while scanning a double-quoted scalar" start ("found unknown escape character " ++ shownHere c)

/-- The characters up to a blank or the closing quote. -/
def word (double : Bool) (start : Mark) : Nat → Scan (List Char)
  | 0 => return []
  | fuel + 1 => do
    let run ← Scan.takeRun fun c => !(c == '\'' || c == '"' || c == '\\' || atWideGap (some c))
    match (← get).rest with
    | '\'' :: rest =>
      if double then
        Scan.advance 1
        return run ++ '\'' :: (← word double start fuel)
      else if rest.head? = some '\'' then
        Scan.advance 2
        return run ++ '\'' :: (← word double start fuel)
      else return run
    | '"' :: _ =>
      if double then return run
      Scan.advance 1
      return run ++ '"' :: (← word double start fuel)
    | '\\' :: _ =>
      if double then
        let escaped ← escape start
        return run ++ escaped ++ (← word double start fuel)
      else
        Scan.advance 1
        return run ++ '\\' :: (← word double start fuel)
    | _ => return run

/-- The blanks between two words; lines are joined as in a plain text. -/
def gap (start : Mark) : Scan (List Char) := do
  let blanks ← Scan.takeRun fun c => c == ' ' || c == '\t'
  let c ← Scan.peek
  if c.isNone then Scan.failure "while scanning a quoted scalar" start "found unexpected end of stream"
  else if atLineEnd c then
    let first ← Scan.lineBreak
    let further ← breaks start ((← get).rest.length + 1)
    return PlainText.foldBreaks first further
  else return blanks

/-- Words and gaps up to the closing quote. -/
def wordsTo (quote : Char) (start : Mark) : Nat → Scan (List Char)
  | 0 => return []
  | fuel + 1 => do
    if (← Scan.peek) = some quote then return []
    let blanks ← gap start
    let w ← word (quote == '"') start ((← get).rest.length + 1)
    return blanks ++ w ++ (← wordsTo quote start fuel)

/-- A text between quotes. -/
def scan (quote : Char) : Scan (List Char) := do
  let start ← Scan.markHere
  Scan.advance 1
  let first ← word (quote == '"') start ((← get).rest.length + 1)
  let further ← wordsTo quote start ((← get).rest.length + 2)
  Scan.advance 1
  return first ++ further

end QuotedText

namespace BlockText

def context : String := "while scanning a block scalar"

/-- What becomes of the line ends at the end of a block text. -/
inductive Chomping where
  | clip
  | strip
  | keep
  deriving DecidableEq, Inhabited, Repr

def chomping? (c : Char) : Option Chomping :=
  if c == '+' then some .keep else if c == '-' then some .strip else none

/-- The digit that gives the indentation, which is not zero. -/
def indentation? (start : Mark) : Scan (Option Nat) := do
  match ← Scan.peek with
  | some c =>
    if !c.isDigit then return none
    if c == '0' then
      Scan.failure context start "expected indentation indicator in the range 1-9, but found 0"
    Scan.advance 1
    return some (c.toNat - '0'.toNat)
  | none => return none

def chompingHere : Scan (Option Chomping) := do
  match (← Scan.peek).bind chomping? with
  | some chomping =>
    Scan.advance 1
    return some chomping
  | none => return none

/-- The indicators of a block text, in either order. -/
def header (start : Mark) : Scan (Chomping × Option Nat) := do
  let found ← match ← chompingHere with
    | some chomping => do
      let indentation ← indentation? start
      pure (chomping, indentation)
    | none => do
      match ← indentation? start with
      | none => pure (.clip, none)
      | some n => do
        let chomping ← chompingHere
        pure (chomping.getD .clip, some n)
  let c ← Scan.peek
  if atGap c then return found
  Scan.failure context start ("expected chomping or indentation indicators, but found " ++ shownHere c)

/-- The empty lines at the start of a block text, and the deepest column among them. -/
def leading : Nat → List Char → Nat → Scan (List Char × Nat)
  | 0, breaks, deepest => return (breaks, deepest)
  | fuel + 1, breaks, deepest => do
    let c ← Scan.peek
    if c = some ' ' then
      Scan.advance 1
      leading fuel breaks (max deepest (← get).column)
    else if c.isSome && atLineEnd c then
      let found ← Scan.lineBreak
      leading fuel (breaks ++ found) deepest
    else return (breaks, deepest)

/-- Skips spaces up to the indentation. -/
def skipIndent (indent : Nat) : Scan Unit := do
  let c ← get
  Scan.advance (min (indent - c.column) (c.rest.takeWhile (· == ' ')).length)

/-- Empty lines, and the indentation of the line after them. -/
def emptyLines (indent : Nat) : Nat → Scan (List Char)
  | 0 => return []
  | fuel + 1 => do
    skipIndent indent
    let c ← Scan.peek
    if c.isSome && atLineEnd c then
      let found ← Scan.lineBreak
      return found ++ (← emptyLines indent fuel)
    else return []

def isIndented (indent : Nat) : Scan Bool := do
  return (← get).column == indent && (← Scan.peek).isSome

/-- The lines of a block text: their characters, the last line end, and the line ends after it. -/
def lines (folded : Bool) (indent : Nat) : Nat → List Char → Scan (List Char × List Char × List Char)
  | 0, breaks => return ([], [], breaks)
  | fuel + 1, breaks => do
    let bare := !((← Scan.peek).any fun c => c == ' ' || c == '\t')
    let line ← Scan.takeRun (!isBreak ·)
    let lineEnd ← Scan.lineBreak
    let after ← emptyLines indent ((← get).rest.length + 1)
    if ← isIndented indent then
      let nextBare := !((← Scan.peek).any fun c => c == ' ' || c == '\t')
      let joint := if folded && lineEnd == ['\n'] && bare && nextBare then (if after.isEmpty then [' '] else [])
        else lineEnd
      let (text, lastEnd, last) ← lines folded indent fuel after
      return (breaks ++ line ++ joint ++ text, lastEnd, last)
    else return (breaks ++ line, lineEnd, after)

/-- A block text; `parent` is the column of what it belongs to. -/
def scan (folded : Bool) (parent : Int) : Scan (List Char) := do
  let start ← Scan.markHere
  Scan.advance 1
  let (chomping, indentation) ← header start
  Scan.skipRestOfLine context start
  let least := (max (parent + 1) 1).toNat
  let (breaks, indent) ← match indentation with
    | none => do
      let (breaks, deepest) ← leading ((← get).rest.length + 1) [] 0
      pure (breaks, max least deepest)
    | some n => do
      let indent := least + n - 1
      pure (← emptyLines indent ((← get).rest.length + 1), indent)
  let (text, lastEnd, last) ← if ← isIndented indent then lines folded indent ((← get).rest.length + 1) breaks
    else pure ([], [], breaks)
  return text ++ (if chomping = .strip then [] else lastEnd) ++ (if chomping = .keep then last else [])

end BlockText

end CodeAtlas
