import CodeAtlas.Text.Quoted

namespace CodeAtlas

/-- The escape of a character outside plain printable text: one or two code units. -/
def unitEscape (c : Char) : List Char :=
  let n := c.toNat
  if n < 0x10000 then '\\' :: 'u' :: hexText 4 n
  else
    let m := n - 0x10000
    '\\' :: 'u' :: hexText 4 (0xD800 + m / 0x400) ++ '\\' :: 'u' :: hexText 4 (0xDC00 + m % 0x400)

def escapedChar (c : Char) : List Char :=
  if c == '"' then ['\\', '"']
  else if c == '\\' then ['\\', '\\']
  else if c == '\n' then ['\\', 'n']
  else if c == '\r' then ['\\', 'r']
  else if c == '\t' then ['\\', 't']
  else if c == '\x0c' then ['\\', 'f']
  else if c == '\x08' then ['\\', 'b']
  else if 0x20 ≤ c.toNat && c.toNat ≤ 0x7E then [c]
  else unitEscape c

/-- A text in double quotes, in plain characters only. -/
def dataText (s : String) : String :=
  String.ofList ('"' :: (s.toList.flatMap escapedChar ++ ['"']))

/-- The text of a key that is no text itself. -/
def keyText : Value → String
  | .str s => s
  | .null => "null"
  | .bool b => if b then "true" else "false"
  | .float x => Layout.data.float x
  | v => v.display

/-- A new line with the indentation of a depth; nothing when the text goes on one line. -/
def newLine (indent : Option Nat) (depth : Nat) : String :=
  match indent with
  | none => ""
  | some n => "\n" ++ "".pushn ' ' (n * depth)

def itemGap (indent : Option Nat) (depth : Nat) : String :=
  "," ++ newLine indent depth

mutual

/-- Writes a value; with an indentation every item and entry has a line of its own. -/
def Value.write (indent : Option Nat) (depth : Nat) : Value → String
  | .null => "null"
  | .bool b => if b then "true" else "false"
  | .int n => toString n
  | .float x => Layout.data.float x
  | .str s => dataText s
  | .stamp s => dataText (s.text " ")
  | .list [] => "[]"
  | .list (v :: rest) =>
    "[" ++ newLine indent (depth + 1) ++ v.write indent (depth + 1) ++ Value.writeItems indent (depth + 1) rest ++
      newLine indent depth ++ "]"
  | .dict [] => "\x7b\x7d"
  | .dict ((k, v) :: rest) =>
    "\x7b" ++ newLine indent (depth + 1) ++ dataText (keyText k) ++ (if indent.isSome then ": " else ":") ++
      v.write indent (depth + 1) ++ Value.writeEntries indent (depth + 1) rest ++ newLine indent depth ++ "\x7d"

def Value.writeItems (indent : Option Nat) (depth : Nat) : List Value → String
  | [] => ""
  | v :: rest => itemGap indent depth ++ v.write indent depth ++ Value.writeItems indent depth rest

def Value.writeEntries (indent : Option Nat) (depth : Nat) : List (Value × Value) → String
  | [] => ""
  | (k, v) :: rest =>
    itemGap indent depth ++ dataText (keyText k) ++ (if indent.isSome then ": " else ":") ++
      v.write indent depth ++ Value.writeEntries indent depth rest

end

/-- The text of a value on one line. -/
def Value.compact (v : Value) : String := v.write none 0

/-- The text of a value with two blanks for each level. -/
def Value.indented (v : Value) : String := v.write (some 2) 0

end CodeAtlas
