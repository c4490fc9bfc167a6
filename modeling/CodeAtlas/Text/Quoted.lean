import CodeAtlas.Magnitude
import CodeAtlas.Text.Printable

namespace CodeAtlas

def hexDigit (n : Nat) : Char :=
  if n < 10 then Char.ofNat (0x30 + n) else Char.ofNat (0x57 + n)

/-- The lowest `width` hexadecimal digits of a number. -/
def hexText : Nat → Nat → List Char
  | 0, _ => []
  | width + 1, n => hexText width (n / 16) ++ [hexDigit (n % 16)]

/-- What stands for a character between quotes `quote`. -/
def quotedChar (quote c : Char) : List Char :=
  if c == quote || c == '\\' then ['\\', c]
  else if c == '\n' then ['\\', 'n']
  else if c == '\r' then ['\\', 'r']
  else if c == '\t' then ['\\', 't']
  else if isPrintable c then [c]
  else if c.toNat < 0x100 then '\\' :: 'x' :: hexText 2 c.toNat
  else if c.toNat < 0x10000 then '\\' :: 'u' :: hexText 4 c.toNat
  else '\\' :: 'U' :: hexText 8 c.toNat

/-- Single quotes, unless the text holds one and no double quote. -/
def quoteFor (cs : List Char) : Char :=
  if cs.contains '\'' && !cs.contains '"' then '"' else '\''

/-- A text as it is shown inside messages. -/
def quoted (s : String) : String :=
  let quote := quoteFor s.toList
  String.ofList (quote :: (s.toList.flatMap (quotedChar quote) ++ [quote]))

def stampCall (s : Stamp) : String :=
  let day := toString s.year ++ ", " ++ toString s.month ++ ", " ++ toString s.day
  match s.time with
  | none => "datetime.date(" ++ day ++ ")"
  | some t =>
    let seconds := if t.second = 0 && t.micro = 0 then "" else ", " ++ toString t.second
    let micros := if t.micro = 0 then "" else ", " ++ toString t.micro
    let zone := match t.zone with
      | none => ""
      | some 0 => ", tzinfo=datetime.timezone.utc"
      | some z => ", tzinfo=datetime.timezone(" ++ spanText z ++ ")"
    "datetime.datetime(" ++ day ++ ", " ++ toString t.hour ++ ", " ++ toString t.minute ++ seconds ++ micros ++
      zone ++ ")"

mutual

/-- A value as it is shown inside another one: texts are quoted. -/
def Value.shown : Value → String
  | .null => "None"
  | .bool b => if b then "True" else "False"
  | .int n => toString n
  | .float x => Layout.plain.float x
  | .str s => quoted s
  | .stamp s => stampCall s
  | .list items => "[" ++ Value.shownItems items ++ "]"
  | .dict entries => "\x7b" ++ Value.shownEntries entries ++ "\x7d"

def Value.shownItems : List Value → String
  | [] => ""
  | [v] => v.shown
  | v :: rest => v.shown ++ ", " ++ Value.shownItems rest

def Value.shownEntries : List (Value × Value) → String
  | [] => ""
  | [(k, v)] => k.shown ++ ": " ++ v.shown
  | (k, v) :: rest => k.shown ++ ": " ++ v.shown ++ ", " ++ Value.shownEntries rest

end

/-- A value as it is written into a text: a text stands for itself. -/
def Value.display : Value → String
  | .str s => s
  | .stamp s => s.text " "
  | v => v.shown

theorem Value.display_str (s : String) : (Value.str s).display = s := rfl

end CodeAtlas
