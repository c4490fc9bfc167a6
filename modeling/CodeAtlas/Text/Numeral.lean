import CodeAtlas.Fault
import CodeAtlas.Text.Blank
import CodeAtlas.Text.Digit

namespace CodeAtlas

/-- The blanks that may surround a number: all but the four separators of the control characters. -/
def isNumberBlank (c : Char) : Bool :=
  isBlank c && !(0x1C ≤ c.toNat && c.toNat ≤ 0x1F)

/-- The digits of a run in which single underscores may stand between two digits. -/
def digitRun? : List Char → Option (List Nat)
  | [] => none
  | c :: rest =>
    match decimalDigit? c with
    | none => none
    | some d =>
      match rest with
      | [] => some [d]
      | '_' :: more => (digitRun? more).map (d :: ·)
      | more => (digitRun? more).map (d :: ·)

def ofDigits (ds : List Nat) : Nat :=
  ds.foldl (fun n d => 10 * n + d) 0

/-- Takes a sign off the front of a text. -/
def takeSign : List Char → Bool × List Char
  | '-' :: rest => (true, rest)
  | '+' :: rest => (false, rest)
  | cs => (false, cs)

/-- A whole number: blanks around it, a sign, digits of any script. -/
def readInt (text : String) : Except Fault Int :=
  let (negative, body) := takeSign (trimBy isNumberBlank text.toList)
  match digitRun? body with
  | none => .error (.invalid (.notInteger text))
  | some ds =>
    if 4300 < ds.length then .error (.invalid (.manyDigits ds.length))
    else .ok (if negative then -(ofDigits ds : Int) else ofDigits ds)

/-- Cuts a list before its first element that satisfies `p`. -/
def cutAt {α : Type} (p : α → Bool) (l : List α) : List α × List α :=
  (l.takeWhile (!p ·), l.dropWhile (!p ·))

/-- Digits and exponent of an unsigned decimal: a run of digits on at least one side of the point,
then an optional exponent. -/
def readDecimal? (cs : List Char) : Option Decimal :=
  let (mantissa, power) := cutAt (fun c => c == 'e' || c == 'E') cs
  let (whole, fraction) := cutAt (· == '.') mantissa
  let part (l : List Char) : Option (List Nat) := if l.isEmpty then some [] else digitRun? l
  let exponent : Option Int := match power with
    | [] => some 0
    | _ :: rest =>
      let (negative, body) := takeSign rest
      (digitRun? body).map fun ds => if negative then -(ofDigits ds : Int) else ofDigits ds
  match part whole, part (fraction.drop 1), exponent with
  | some ws, some fs, some e =>
    if ws.isEmpty && fs.isEmpty then none else some ⟨ofDigits (ws ++ fs), e - fs.length⟩
  | _, _, _ => none

def notANumber : Float := 0.0 / 0.0

def infinity : Float := 1.0 / 0.0

/-- A double without sign: a decimal or one of the names for what is not finite. -/
def readMagnitude? (cs : List Char) : Option Float :=
  let word := String.ofList (cs.map Char.toLower)
  if word = "nan" then some notANumber
  else if word = "inf" ∨ word = "infinity" then some infinity
  else (readDecimal? cs).map fun d => decimalToFloat d.digits d.exponent

/-- A double: blanks around it, a sign, a decimal with digits of any script. -/
def readFloat (text : String) : Except Fault Float :=
  let (negative, body) := takeSign (trimBy isNumberBlank text.toList)
  match readMagnitude? body with
  | none => .error (.invalid (.notNumber text))
  | some x => .ok (if negative then -x else x)

end CodeAtlas
