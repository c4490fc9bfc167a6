import CodeAtlas.Fault

namespace CodeAtlas

/-- A place in a document, and what follows it. -/
structure Cursor where
  rest : List Char
  index : Nat
  line : Nat
  column : Nat
  deriving Inhabited

/-- The characters that end a line of a document. -/
def isBreak (c : Char) : Bool :=
  c == '\n' || c == '\r' || c.toNat == 0x85 || c.toNat == 0x2028 || c.toNat == 0x2029

/-- Whether a line is over here; the end of the document is the end of its last line. -/
def atLineEnd : Option Char → Bool
  | none => true
  | some c => isBreak c

/-- Whether a word is over here. -/
def atGap : Option Char → Bool
  | some ' ' => true
  | c => atLineEnd c

/-- Whether a word is over here, tabs included. -/
def atWideGap : Option Char → Bool
  | some '\t' => true
  | c => atGap c

/-- What stands here as messages show it; the end of the document shows as a null character. -/
def shownHere (c : Option Char) : String :=
  quoted (String.singleton (c.getD '\x00'))

namespace Cursor

def mark (c : Cursor) : Mark := ⟨c.line, c.column⟩

/-- A byte order mark takes no column, and a carriage return ends a line only by itself. -/
def forward (c : Cursor) : Cursor :=
  match c.rest with
  | [] => c
  | ch :: rest =>
    if isBreak ch && (ch != '\r' || rest.head? != some '\n') then ⟨rest, c.index + 1, c.line + 1, 0⟩
    else if ch.toNat == 0xFEFF then { c with rest, index := c.index + 1 }
    else { c with rest, index := c.index + 1, column := c.column + 1 }

def skip (c : Cursor) : Nat → Cursor
  | 0 => c
  | n + 1 => c.forward.skip n

end Cursor

/-- A step through a document. -/
abbrev Scan := StateT Cursor (Except DocumentFault)

namespace Scan

def markHere : Scan Mark := do return (← get).mark

def peek : Scan (Option Char) := do return (← get).rest.head?

def peekAt (n : Nat) : Scan (Option Char) := do return (← get).rest[n]?

def advance (n : Nat) : Scan Unit := modify (·.skip n)

/-- Takes the characters that satisfy `p`. -/
def takeRun (p : Char → Bool) : Scan (List Char) := do
  let run := (← get).rest.takeWhile p
  advance run.length
  return run

/-- Takes one line end: nothing where there is none, and a line feed for most of them. -/
def lineBreak : Scan (List Char) := do
  match (← get).rest with
  | '\r' :: '\n' :: _ =>
    advance 2
    return ['\n']
  | c :: _ =>
    if !isBreak c then return []
    advance 1
    return if c.toNat == 0x2028 || c.toNat == 0x2029 then [c] else ['\n']
  | [] => return []

/-- Whether a line starts here that separates documents. -/
def atSeparator : Scan Bool := do
  let rest := (← get).rest
  return (rest.take 3 == ['-', '-', '-'] || rest.take 3 == ['.', '.', '.']) && atWideGap rest[3]?

/-- What went wrong here, while something was read that began at a mark. -/
def failure {α : Type} (context : String) (start : Mark) (problem : String) : Scan α := do
  throw ⟨some (context, some start), problem, some (← markHere)⟩

def skipSpaces : Scan Unit := do
  let _ ← takeRun (· == ' ')

def skipComment : Scan Unit := do
  if (← peek) = some '#' then let _ ← takeRun (!isBreak ·)

/-- The rest of a line that may hold nothing but a comment. -/
def skipRestOfLine (context : String) (start : Mark) : Scan Unit := do
  skipSpaces
  skipComment
  let c ← peek
  if !atLineEnd c then
    failure context start ("expected a comment or a line break, but found " ++ shownHere c)
  let _ ← lineBreak

end Scan

end CodeAtlas
