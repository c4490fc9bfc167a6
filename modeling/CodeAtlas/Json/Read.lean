import CodeAtlas.Decimal.Binary
import CodeAtlas.Value

namespace CodeAtlas

def isDataBlank (c : Char) : Bool :=
  c == ' ' || c == '\t' || c == '\n' || c == '\r'

def skipBlanks (cs : List Char) : List Char := cs.dropWhile isDataBlank

def hexValue? (c : Char) : Option Nat :=
  if c.isDigit then some (c.toNat - 0x30)
  else if 'a' ≤ c ∧ c ≤ 'f' then some (c.toNat - 0x57)
  else if 'A' ≤ c ∧ c ≤ 'F' then some (c.toNat - 0x37)
  else none

/-- A code unit of four hexadecimal digits. -/
def readUnit : List Char → Option (Nat × List Char)
  | a :: b :: c :: d :: rest => do
    return (((← hexValue? a) * 4096 + (← hexValue? b) * 256 + (← hexValue? c) * 16 + (← hexValue? d)), rest)
  | _ => none

/-- The character of a code unit and of the one that may follow it; half of a pair alone becomes the
replacement character. -/
def readEscapedUnit (cs : List Char) : Option (Char × List Char) := do
  let (unit, rest) ← readUnit cs
  if 0xD800 ≤ unit ∧ unit < 0xDC00 then
    match rest with
    | '\\' :: 'u' :: more =>
      let (low, after) ← readUnit more
      if 0xDC00 ≤ low ∧ low < 0xE000 then
        return (Char.ofNat (0x10000 + (unit - 0xD800) * 0x400 + (low - 0xDC00)), after)
      else return ('\ufffd', rest)
    | _ => return ('\ufffd', rest)
  else if 0xDC00 ≤ unit ∧ unit < 0xE000 then return ('\ufffd', rest)
  else return (Char.ofNat unit, rest)

def readEscape : List Char → Option (Char × List Char)
  | '"' :: rest => some ('"', rest)
  | '\\' :: rest => some ('\\', rest)
  | '/' :: rest => some ('/', rest)
  | 'b' :: rest => some ('\x08', rest)
  | 'f' :: rest => some ('\x0c', rest)
  | 'n' :: rest => some ('\n', rest)
  | 'r' :: rest => some ('\r', rest)
  | 't' :: rest => some ('\t', rest)
  | 'u' :: rest => readEscapedUnit rest
  | _ => none

/-- The rest of a text whose opening quote has been read; control characters are refused. -/
def readTextBody : Nat → List Char → List Char → Option (String × List Char)
  | 0, _, _ => none
  | fuel + 1, read, cs =>
    match cs with
    | [] => none
    | '"' :: rest => some (String.ofList read.reverse, rest)
    | '\\' :: rest =>
      match readEscape rest with
      | some (c, more) => readTextBody fuel (c :: read) more
      | none => none
    | c :: rest => if c.toNat < 0x20 then none else readTextBody fuel (c :: read) rest

/-- The digits at the front of a text. -/
def spanDigits (cs : List Char) : List Char × List Char :=
  (cs.takeWhile Char.isDigit, cs.dropWhile Char.isDigit)

def natOfDigits (cs : List Char) : Nat :=
  cs.foldl (fun n c => 10 * n + (c.toNat - 0x30)) 0

/-- A fraction, when a digit follows the point. -/
def readFraction (cs : List Char) : List Char × List Char :=
  match cs with
  | '.' :: rest =>
    match spanDigits rest with
    | ([], _) => ([], cs)
    | split => split
  | _ => ([], cs)

/-- An exponent, when a digit follows the letter and the sign. -/
def readPower (cs : List Char) : Option Int × List Char :=
  let digits (negative : Bool) (rest : List Char) : Option Int × List Char :=
    match spanDigits rest with
    | ([], _) => (none, cs)
    | (ds, more) => (some (if negative then -(natOfDigits ds : Int) else natOfDigits ds), more)
  match cs with
  | c :: rest =>
    if c == 'e' || c == 'E' then
      match rest with
      | '-' :: more => digits true more
      | '+' :: more => digits false more
      | _ => digits false rest
    else (none, cs)
  | [] => (none, cs)

/-- A number without sign: whole unless it has a fraction or an exponent. -/
def readUnsigned (negative : Bool) (cs : List Char) : Option (Value × List Char) :=
  let whole := match cs with
    | '0' :: rest => (['0'], rest)
    | _ => spanDigits cs
  match whole with
  | ([], _) => none
  | (ws, afterWhole) =>
    let (fs, afterFraction) := readFraction afterWhole
    let (power, rest) := readPower afterFraction
    if fs.isEmpty && power.isNone then
      if 4300 < ws.length then none
      else some (.int (if negative then -(natOfDigits ws : Int) else natOfDigits ws), rest)
    else
      let x := decimalToFloat (natOfDigits (ws ++ fs)) (power.getD 0 - fs.length)
      some (.float (if negative then -x else x), rest)

def dropWord? (word : String) (cs : List Char) : Option (List Char) :=
  if word.toList.isPrefixOf cs then some (cs.drop word.length) else none

/-- A word of the format, or a number. -/
def readScalar (cs : List Char) : Option (Value × List Char) :=
  let words : List (String × Value) :=
    [("null", .null), ("true", .bool true), ("false", .bool false), ("NaN", .float (0.0 / 0.0)),
      ("Infinity", .float (1.0 / 0.0)), ("-Infinity", .float (-1.0 / 0.0))]
  match words.findSome? fun (word, v) => (dropWord? word cs).map (v, ·) with
  | some found => some found
  | none =>
    match cs with
    | '-' :: rest => readUnsigned true rest
    | _ => readUnsigned false cs

/-- Puts an entry in its place: a key that is there already keeps its place and takes the value. -/
def putEntry (key : String) (v : Value) : List (Value × Value) → List (Value × Value)
  | [] => [(.str key, v)]
  | (.str k, w) :: rest => if k = key then (.str k, v) :: rest else (.str k, w) :: putEntry key v rest
  | e :: rest => e :: putEntry key v rest

mutual

def readValue : Nat → List Char → Option (Value × List Char)
  | 0, _ => none
  | fuel + 1, cs =>
    match cs with
    | '"' :: rest => (readTextBody (rest.length + 1) [] rest).map fun (s, more) => (.str s, more)
    | '[' :: rest =>
      match skipBlanks rest with
      | ']' :: more => some (.list [], more)
      | more => readItems fuel [] more
    | '{' :: rest =>
      match skipBlanks rest with
      | '}' :: more => some (.dict [], more)
      | more => readEntries fuel [] more
    | _ => readScalar cs

/-- The items of a list from the next one on. -/
def readItems : Nat → List Value → List Char → Option (Value × List Char)
  | 0, _, _ => none
  | fuel + 1, read, cs =>
    match readValue fuel cs with
    | none => none
    | some (v, rest) =>
      match skipBlanks rest with
      | ',' :: more => readItems fuel (v :: read) (skipBlanks more)
      | ']' :: more => some (.list (v :: read).reverse, more)
      | _ => none

/-- The entries of a dictionary from the next one on. -/
def readEntries : Nat → List (Value × Value) → List Char → Option (Value × List Char)
  | 0, _, _ => none
  | fuel + 1, read, cs =>
    match cs with
    | '"' :: rest =>
      match readTextBody (rest.length + 1) [] rest with
      | none => none
      | some (key, afterKey) =>
        match skipBlanks afterKey with
        | ':' :: more =>
          match readValue fuel (skipBlanks more) with
          | none => none
          | some (v, afterValue) =>
            let entries := putEntry key v read
            match skipBlanks afterValue with
            | ',' :: next => readEntries fuel entries (skipBlanks next)
            | '}' :: next => some (.dict entries, next)
            | _ => none
        | _ => none
    | _ => none

end

/-- Reads a text of the data format: one value with blanks around it and nothing else. -/
def readData (text : String) : Option Value :=
  let cs := skipBlanks text.toList
  match readValue (2 * cs.length + 2) cs with
  | some (v, rest) => if (skipBlanks rest).isEmpty then some v else none
  | none => none

end CodeAtlas
