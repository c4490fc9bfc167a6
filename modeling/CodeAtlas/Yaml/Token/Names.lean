import CodeAtlas.Json.Read
import CodeAtlas.Text.Utf8
import CodeAtlas.Yaml.Token

namespace CodeAtlas

/-- The characters of names in a document. -/
def isNameChar (c : Char) : Bool := c.isAlphanum || c == '-' || c == '_'

/-- The characters of a tag. -/
def isTagChar (c : Char) : Bool := c.isAlphanum || "-;/?:@&=+$,_.!~*'()[]%".contains c

namespace Scan

/-- A name, which is not empty and after which something else has to follow. -/
def name (context : String) (start : Mark) (mayFollow : Option Char → Bool) : Scan String := do
  let name ← takeRun isNameChar
  let c ← peek
  if name.isEmpty || !mayFollow c then
    failure context start ("expected alphabetic or numeric character, but found " ++ shownHere c)
  return String.ofList name

/-- An anchor or an alias, without the character that announces it. -/
def anchorName (word : String) : Scan String := do
  let start ← markHere
  advance 1
  name ("while scanning an " ++ word) start fun c => atWideGap c || c.any ("?:,]\x7d%@\x60".contains ·)

/-- The two hexadecimal digits of an escaped byte. -/
def escapedByte (context : String) (start : Mark) : Scan Nat := do
  advance 1
  let digit (n : Nat) : Scan Nat := do
    let c ← peekAt n
    match c.bind hexValue? with
    | some d => return d
    | none =>
      failure context start
        ("expected URI escape sequence of 2 hexadecimal numbers, but found " ++ shownHere c)
  let high ← digit 0
  let low ← digit 1
  advance 2
  return 16 * high + low

/-- Escaped bytes one after the other. -/
def escapedBytes (context : String) (start : Mark) : Nat → Scan (List Nat)
  | 0 => return []
  | fuel + 1 => do
    if (← peek) != some '%' then return []
    let b ← escapedByte context start
    return b :: (← escapedBytes context start fuel)

/-- The characters of a tag, escapes resolved. -/
def tagChars (context : String) (start : Mark) : Nat → Scan (List Char)
  | 0 => return []
  | fuel + 1 => do
    let run ← takeRun fun c => c != '%' && isTagChar c
    if (← peek) = some '%' then
      let bytes ← escapedBytes context start ((← get).rest.length + 1)
      return run ++ decodeUtf8 bytes ++ (← tagChars context start fuel)
    else return run

/-- The address in a tag, which is not empty. -/
def tagText (word : String) (start : Mark) : Scan String := do
  let text ← tagChars ("while scanning a " ++ word) start ((← get).rest.length + 1)
  if text.isEmpty then
    failure ("while parsing a " ++ word) start ("expected URI, but found " ++ shownHere (← peek))
  return String.ofList text

/-- The handle of a tag: one exclamation mark, or a name between two of them. -/
def tagHandle (word : String) (start : Mark) : Scan String := do
  let missing {α : Type} (c : Option Char) : Scan α :=
    failure ("while scanning a " ++ word) start ("expected '!', but found " ++ shownHere c)
  let first ← peek
  if first != some '!' then missing first
  if (← peekAt 1) = some ' ' then
    advance 1
    return "!"
  let name := ((← get).rest.drop 1).takeWhile isNameChar
  let last ← peekAt (name.length + 1)
  if last != some '!' then
    advance (name.length + 1)
    missing last
  advance (name.length + 2)
  return String.ofList ('!' :: name ++ ['!'])

/-- A tag: a full address in angle brackets, a lone exclamation mark, or a handle and a suffix. -/
def tag : Scan (Option String × String) := do
  let start ← markHere
  let next ← peekAt 1
  let found ← if next = some '<' then do
      advance 2
      let text ← tagText "tag" start
      let c ← peek
      if c != some '>' then failure "while parsing a tag" start ("expected '>', but found " ++ shownHere c)
      advance 1
      pure (none, text)
    else if atWideGap next then do
      advance 1
      pure (none, "!")
    else do
      let ahead := ((← get).rest.drop 1).takeWhile fun c => !atGap (some c)
      let handle ← if ahead.contains '!' then tagHandle "tag" start else do
        advance 1
        pure "!"
      pure (some handle, ← tagText "tag" start)
  let c ← peek
  if !atGap c then failure "while scanning a tag" start ("expected ' ', but found " ++ shownHere c)
  return found

def directiveContext : String := "while scanning a directive"

/-- A number of a version. -/
def versionNumber (start : Mark) : Scan Nat := do
  let digits ← takeRun Char.isDigit
  if digits.isEmpty then
    failure directiveContext start ("expected a digit, but found " ++ shownHere (← peek))
  return natOfDigits digits

def version (start : Mark) : Scan Directive := do
  skipSpaces
  let major ← versionNumber start
  let c ← peek
  if c != some '.' then
    failure directiveContext start ("expected a digit or '.', but found " ++ shownHere c)
  advance 1
  let minor ← versionNumber start
  let c ← peek
  if !atGap c then failure directiveContext start ("expected a digit or ' ', but found " ++ shownHere c)
  return .version major minor

def tagPrefix (start : Mark) : Scan Directive := do
  skipSpaces
  let handle ← tagHandle "directive" start
  let c ← peek
  if c != some ' ' then failure directiveContext start ("expected ' ', but found " ++ shownHere c)
  skipSpaces
  let text ← tagText "directive" start
  let c ← peek
  if !atGap c then failure directiveContext start ("expected ' ', but found " ++ shownHere c)
  return .tagPrefix handle text

/-- A line that starts with a percent sign, and where its words end. -/
def directive : Scan (Directive × Mark) := do
  let start ← markHere
  advance 1
  let name ← name directiveContext start atGap
  let found ← if name = "YAML" then version start
    else if name = "TAG" then tagPrefix start
    else pure .other
  let stop ← markHere
  if found = .other then let _ ← takeRun (!isBreak ·)
  skipRestOfLine directiveContext start
  return (found, stop)

end Scan

end CodeAtlas
