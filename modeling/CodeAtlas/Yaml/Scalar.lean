import CodeAtlas.Text.Capital
import CodeAtlas.Text.Numeral
import CodeAtlas.Yaml.Node

namespace CodeAtlas

/-- The plain words that switch something on or off. -/
def switchWords : List String :=
  ["yes", "Yes", "YES", "no", "No", "NO", "true", "True", "TRUE", "false", "False", "FALSE", "on", "On", "ON", "off",
    "Off", "OFF"]

/-- Drops one sign. -/
def unsigned (cs : List Char) : List Char :=
  match cs with
  | '-' :: rest => rest
  | '+' :: rest => rest
  | _ => cs

def isDigitOr_ (c : Char) : Bool := c.isDigit || c == '_'

/-- Whether a text is a run of digits, of digits and underscores from the second one on. -/
def isNumeral (cs : List Char) : Bool :=
  match cs with
  | c :: rest => c.isDigit && rest.all isDigitOr_
  | [] => false

/-- Whether every part is a number of minutes or seconds. -/
def areSixtieths (parts : List (List Char)) : Bool :=
  !parts.isEmpty && parts.all fun p =>
    match p with
    | [a] => a.isDigit
    | [a, b] => '0' ≤ a && a ≤ '5' && b.isDigit
    | _ => false

/-- Whether a plain text is a whole number: in base two, eight, ten, sixteen or sixty. -/
def isPlainInt (cs : List Char) : Bool :=
  match unsigned cs with
  | '0' :: 'b' :: rest => !rest.isEmpty && rest.all fun c => c == '0' || c == '1' || c == '_'
  | '0' :: 'x' :: rest => !rest.isEmpty && rest.all fun c => (hexDigitValue? c).isSome || c == '_'
  | '0' :: rest => rest.all fun c => ('0' ≤ c && c ≤ '7') || c == '_'
  | body =>
    match splitBy (· == ':') body with
    | whole :: parts => isNumeral whole && (parts.isEmpty || areSixtieths parts)
    | [] => false
where
  hexDigitValue? (c : Char) : Option Nat :=
    if c.isDigit then some (c.toNat - '0'.toNat)
    else if 'a' ≤ c.toLower && c.toLower ≤ 'f' then some (c.toLower.toNat - 'a'.toNat + 10)
    else none

/-- Whether a text is an exponent, which needs a sign; none at all will do. -/
def isExponent (cs : List Char) : Bool :=
  match cs with
  | [] => true
  | [_] => false
  | e :: sign :: digits =>
    (e == 'e' || e == 'E') && (sign == '+' || sign == '-') && !digits.isEmpty && digits.all Char.isDigit

/-- Whether a plain text is a number with a point in it. -/
def isPlainFloat (cs : List Char) : Bool :=
  let body := unsigned cs
  let (whole, rest) := cutAt (· == '.') body
  let (fraction, power) := cutAt (!isDigitOr_ ·) (rest.drop 1)
  if rest.isEmpty then false
  else if whole.isEmpty then
    (cs == body && isNumeral fraction && isExponent power) ||
      [".inf", ".Inf", ".INF"].contains (String.ofList body) ||
      (cs == body && [".nan", ".NaN", ".NAN"].contains (String.ofList body))
  else
    match splitBy (· == ':') whole with
    | first :: parts =>
      isNumeral first && (if parts.isEmpty then isExponent power else areSixtieths parts && power.isEmpty)
    | [] => false

/-- The parts of a date, and of a time where there is one. -/
structure StampParts where
  year : Nat
  month : List Char
  day : List Char
  time : Option TimeOfDay
  deriving Inhabited

def digitsValue (cs : List Char) : Nat := ofDigits (cs.map fun c => c.toNat - '0'.toNat)

/-- Takes as many digits as there are, within bounds. -/
def takeDigits? (least most : Nat) (cs : List Char) : Option (List Char × List Char) :=
  let digits := (cs.take most).takeWhile Char.isDigit
  if digits.length < least then none else some (digits, cs.drop digits.length)

def dropChar? (c : Char) : List Char → Option (List Char)
  | d :: rest => if c == d then some rest else none
  | [] => none

/-- The distance from universal time at the end of a time, after blanks. -/
def readZone? (cs : List Char) : Option (Option Int) :=
  match cs.dropWhile fun c => c == ' ' || c == '\t' with
  | [] => if cs.isEmpty then some none else none
  | ['Z'] => some (some 0)
  | sign :: rest =>
    if sign != '+' && sign != '-' then none
    else do
      let (hours, rest) ← takeDigits? 1 2 rest
      let minutes ← match rest with
        | [] => some []
        | _ => do
          let (minutes, rest) ← takeDigits? 2 2 (← dropChar? ':' rest)
          if rest.isEmpty then some minutes else none
      let seconds : Int := digitsValue hours * 3600 + digitsValue minutes * 60
      return some (if sign == '-' then -seconds else seconds)

/-- A time after a date: hour, minute and second, a fraction to the microsecond, a zone. -/
def readTime? (cs : List Char) : Option TimeOfDay := do
  let body ← match cs with
    | 'T' :: rest => some rest
    | 't' :: rest => some rest
    | c :: _ => if c == ' ' || c == '\t' then some (cs.dropWhile fun c => c == ' ' || c == '\t') else none
    | [] => none
  let (hour, rest) ← takeDigits? 1 2 body
  let (minute, rest) ← takeDigits? 2 2 (← dropChar? ':' rest)
  let (second, rest) ← takeDigits? 2 2 (← dropChar? ':' rest)
  let (fraction, rest) := match rest with
    | '.' :: rest => (rest.takeWhile Char.isDigit, rest.dropWhile Char.isDigit)
    | _ => ([], rest)
  let zone ← readZone? rest
  let micro := digitsValue ((fraction ++ List.replicate 6 '0').take 6)
  return ⟨digitsValue hour, digitsValue minute, digitsValue second, micro, zone⟩

/-- A date, alone or with a time. -/
def readStamp? (cs : List Char) : Option StampParts := do
  let (year, rest) ← takeDigits? 4 4 cs
  let (month, rest) ← takeDigits? 1 2 (← dropChar? '-' rest)
  let (day, rest) ← takeDigits? 1 2 (← dropChar? '-' rest)
  let time ← if rest.isEmpty then some none else (readTime? rest).map some
  return ⟨digitsValue year, month, day, time⟩

/-- Whether a plain text is a date. A date without a time has two digits for month and day. -/
def isPlainStamp (cs : List Char) : Bool :=
  match readStamp? cs with
  | some p => p.time.isSome || (p.month.length == 2 && p.day.length == 2)
  | none => false

/-- The tag of a plain text. -/
def plainTag (text : String) : String :=
  let cs := text.toList
  standardTag
    (if switchWords.contains text then "bool"
    else if isPlainFloat cs then "float"
    else if isPlainInt cs then "int"
    else if text = "<<" then "merge"
    else if ["", "~", "null", "Null", "NULL"].contains text then "null"
    else if isPlainStamp cs then "timestamp"
    else if text = "=" then "value"
    else "str")

/-- The digits of a number in a base up to sixteen, single underscores removed before. -/
def readBase (base : Nat) (cs : List Char) : Except Fault Int :=
  let value? (c : Char) : Option Nat := (isPlainInt.hexDigitValue? c).filter (· < base)
  if cs.isEmpty || !cs.all fun c => (value? c).isSome then
    .error (.invalid (.notInBase base (String.ofList cs)))
  else .ok (cs.foldl (fun n c => base * n + (value? c).getD 0) 0 : Nat)

def withoutUnderscores (text : String) : List Char := text.toList.filter (· != '_')

def signedAs (cs : List Char) (n : Int) : Int := if cs.head? = some '-' then -n else n

/-- The parts of a number in base sixty put together. -/
def readParts {α : Type} (read : String → Except Fault α) (cs : List Char) : Except Fault (List α) :=
  (splitBy (· == ':') cs).mapM fun p => read (String.ofList p)

def emptyNumber : Fault := .noIndex "string"

/-- A whole number as a document writes it. -/
def documentInt (text : String) : Except Fault Int := do
  let cs := withoutUnderscores text
  let body := unsigned cs
  let magnitude ← match cs, body with
    | [], _ => .error emptyNumber
    | _, [] => .error emptyNumber
    | _, ['0'] => .ok 0
    | _, '0' :: 'b' :: rest => readBase 2 rest
    | _, '0' :: 'x' :: rest => readBase 16 rest
    | _, '0' :: _ => readBase 8 body
    | _, _ =>
      if body.contains ':' then (readParts readInt body).map fun parts => parts.foldl (fun n d => 60 * n + d) 0
      else readInt (String.ofList body)
  return signedAs cs magnitude

/-- The sum of the parts of a number in base sixty, from the last one on. -/
def sumSixtieths (parts : List Float) : Float :=
  (parts.reverse.foldl (fun (sum, base) d => (sum + d * base, base * 60)) ((0.0, 1.0) : Float × Float)).1

/-- A number with a point as a document writes it. -/
def documentFloat (text : String) : Except Fault Float := do
  let cs := (withoutUnderscores (smallLetters text))
  let body := unsigned cs
  if cs.isEmpty then throw emptyNumber
  let magnitude ← if body == ".inf".toList then .ok infinity
    else if body == ".nan".toList then .ok notANumber
    else if body.contains ':' then (readParts readFloat body).map sumSixtieths
    else readFloat (String.ofList body)
  return if cs.head? = some '-' then -magnitude else magnitude

def documentSwitch (text : String) : Except Fault Bool :=
  let word := smallLetters text
  if ["yes", "true", "on"].contains word then .ok true
  else if ["no", "false", "off"].contains word then .ok false
  else .error (.noKey (.str word))

/-- A date as a document writes it; it has to be on the calendar. -/
def documentStamp (text : String) : Except Fault Stamp :=
  match readStamp? text.toList with
  | none => .error (.noMember "NoneType" "groupdict")
  | some p =>
    let stamp : Stamp := ⟨p.year, digitsValue p.month, digitsValue p.day, p.time⟩
    match stamp.flaw? with
    | some flaw => .error (.invalid (.notOnCalendar flaw))
    | none => .ok stamp

end CodeAtlas
