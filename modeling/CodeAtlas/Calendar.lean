namespace CodeAtlas

structure TimeOfDay where
  hour : Nat
  minute : Nat
  second : Nat
  micro : Nat
  /-- The distance from universal time in seconds, when the text gave one. -/
  zone : Option Int
  deriving DecidableEq, Inhabited, Repr

/-- A day of the calendar, with or without a time. -/
structure Stamp where
  year : Nat
  month : Nat
  day : Nat
  time : Option TimeOfDay
  deriving DecidableEq, Inhabited, Repr

/-- A number with zeros before it up to the given width. -/
def padded (width n : Nat) : String :=
  let digits := toString n
  "".pushn '0' (width - digits.length) ++ digits

def zoneText (seconds : Int) : String :=
  let n := seconds.natAbs
  let whole := padded 2 (n / 3600) ++ ":" ++ padded 2 (n / 60 % 60)
  (if seconds < 0 then "-" else "+") ++ whole ++ (if n % 60 = 0 then "" else ":" ++ padded 2 (n % 60))

/-- Microseconds are written only when there are any. -/
def TimeOfDay.text (t : TimeOfDay) : String :=
  padded 2 t.hour ++ ":" ++ padded 2 t.minute ++ ":" ++ padded 2 t.second ++
    (if t.micro = 0 then "" else "." ++ padded 6 t.micro) ++ (t.zone.map zoneText).getD ""

def Stamp.dayText (s : Stamp) : String :=
  padded 4 s.year ++ "-" ++ padded 2 s.month ++ "-" ++ padded 2 s.day

/-- The day, and the time after the separator. -/
def Stamp.text (s : Stamp) (separator : String) : String :=
  s.dayText ++ (match s.time with | none => "" | some t => separator ++ t.text)

def isLeap (year : Nat) : Bool :=
  year % 4 == 0 && (year % 100 != 0 || year % 400 == 0)

def daysInMonth (year month : Nat) : Nat :=
  match month with
  | 2 => if isLeap year then 29 else 28
  | 4 | 6 | 9 | 11 => 30
  | _ => 31

/-- What is wrong with a date. -/
inductive StampFlaw where
  | zone (seconds : Int)
  | year (n : Nat)
  | month
  | day
  | hour
  | minute
  | second
  deriving DecidableEq, Inhabited, Repr

/-- A zone lies less than a day away from universal time. -/
def TimeOfDay.zoneFlaw? (t : TimeOfDay) : Option StampFlaw :=
  match t.zone with
  | some z => if z.natAbs < 86400 then none else some (.zone z)
  | none => none

def TimeOfDay.flaw? (t : TimeOfDay) : Option StampFlaw :=
  if 24 ≤ t.hour then some .hour
  else if 60 ≤ t.minute then some .minute
  else if 60 ≤ t.second then some .second
  else none

def Stamp.dayFlaw? (s : Stamp) : Option StampFlaw :=
  if s.year = 0 ∨ 9999 < s.year then some (.year s.year)
  else if s.month = 0 ∨ 12 < s.month then some .month
  else if s.day = 0 ∨ daysInMonth s.year s.month < s.day then some .day
  else none

/-- The first thing that is wrong with a date; nothing where the day and the time exist. -/
def Stamp.flaw? (s : Stamp) : Option StampFlaw :=
  (s.time.bind TimeOfDay.zoneFlaw?).or (s.dayFlaw?.or (s.time.bind TimeOfDay.flaw?))

/-- A span of time: its days, rounded down, and the seconds that are left; parts that are zero are left
out where others remain. -/
def spanText (seconds : Int) : String :=
  let days := seconds.fdiv 86400
  let rest := seconds.fmod 86400
  let parts := (if days = 0 then [] else ["days=" ++ toString days]) ++
    (if rest = 0 then [] else ["seconds=" ++ toString rest])
  "datetime.timedelta(" ++ (if parts.isEmpty then "0" else ", ".intercalate parts) ++ ")"

def StampFlaw.message : StampFlaw → String
  | .zone seconds =>
    "offset must be a timedelta strictly between -timedelta(hours=24) and timedelta(hours=24), not " ++
      spanText seconds
  | .year n => "year " ++ toString n ++ " is out of range"
  | .month => "month must be in 1..12"
  | .day => "day is out of range for month"
  | .hour => "hour must be in 0..23"
  | .minute => "minute must be in 0..59"
  | .second => "second must be in 0..59"

/-- The month and day that lie `days` days after the first of `month`. -/
def dateInYear (year month days : Nat) : Nat → Nat × Nat
  | 0 => (month, days + 1)
  | fuel + 1 =>
    if days < daysInMonth year month then (month, days + 1)
    else dateInYear year (month + 1) (days - daysInMonth year month) fuel

def daysInYear (year : Nat) : Nat :=
  if isLeap year then 366 else 365

theorem daysInYear_pos (year : Nat) : 0 < daysInYear year := by
  unfold daysInYear
  split <;> decide

/-- The day that lies `days` days after the first of January of `year`. -/
def dateFrom (year days : Nat) : Nat × Nat × Nat :=
  if days < daysInYear year then (year, dateInYear year 1 days 11)
  else dateFrom (year + 1) (days - daysInYear year)
termination_by days
decreasing_by have := daysInYear_pos year; omega

/-- The moment that lies so many microseconds after the start of 2026, in universal time. -/
def Stamp.ofMicros (micros : Nat) : Stamp :=
  let seconds := micros / 1000000
  let (year, month, day) := dateFrom 2026 (seconds / 86400)
  let rest := seconds % 86400
  ⟨year, month, day, some ⟨rest / 3600, rest / 60 % 60, rest % 60, micros % 1000000, some 0⟩⟩

end CodeAtlas
