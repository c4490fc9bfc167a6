namespace CodeAtlas

/-- The blank characters, by code point. -/
def isBlank (c : Char) : Bool :=
  let n := c.toNat
  (0x09 ≤ n && n ≤ 0x0D) || (0x1C ≤ n && n ≤ 0x20) || n == 0x85 || n == 0xA0 || n == 0x1680 ||
    (0x2000 ≤ n && n ≤ 0x200A) || n == 0x2028 || n == 0x2029 || n == 0x202F || n == 0x205F || n == 0x3000

theorem isBlank_of_isWhitespace {c : Char} (white : c.isWhitespace) : isBlank c := by
  simp only [Char.isWhitespace, Bool.or_eq_true, decide_eq_true_eq] at white
  rcases white with ((rfl | rfl) | rfl) | rfl <;> decide

/-- Drops the elements at both ends that satisfy `p`. -/
def trimBy {α : Type} (p : α → Bool) (l : List α) : List α :=
  ((l.dropWhile p).reverse.dropWhile p).reverse

/-- A text without the blanks at its two ends. -/
def strip (s : String) : String :=
  String.ofList (trimBy isBlank s.toList)

/-- A text without the characters `c` at its end. -/
def stripRight (c : Char) (s : String) : String :=
  String.ofList (s.toList.reverse.dropWhile (· == c)).reverse

/-- The pieces of a list between the elements that satisfy `p`; one piece more than there are such
elements. -/
def splitBy {α : Type} (p : α → Bool) : List α → List (List α)
  | [] => [[]]
  | a :: rest =>
    if p a then [] :: splitBy p rest
    else match splitBy p rest with
      | [] => [[a]]
      | piece :: pieces => (a :: piece) :: pieces

theorem splitBy_ne_nil {α : Type} (p : α → Bool) (l : List α) : splitBy p l ≠ [] := by
  cases l with
  | nil => simp [splitBy]
  | cons a rest =>
    simp only [splitBy]
    split
    · simp
    · split <;> simp

/-- The pieces of a text between its line feeds. -/
def pieces (s : String) : List String :=
  (splitBy (· == '\n') s.toList).map String.ofList

/-- Writes `\r\n` and a lone `\r` as `\n`. -/
def unifyNewlines : List Char → List Char
  | '\r' :: '\n' :: rest => '\n' :: unifyNewlines rest
  | '\r' :: rest => '\n' :: unifyNewlines rest
  | c :: rest => c :: unifyNewlines rest
  | [] => []

/-- The characters after which a new line of a source text starts, once newlines are unified. -/
def endsLine (c : Char) : Bool :=
  let n := c.toNat
  (0x0A ≤ n && n ≤ 0x0D) || (0x1C ≤ n && n ≤ 0x1E) || n == 0x85 || n == 0x2028 || n == 0x2029

/-- The lines of a text whose newlines are unified. An end at the very end starts no further line. -/
def linesOf (text : List Char) : List (List Char) :=
  match (splitBy endsLine text).reverse with
  | [] :: earlier => earlier.reverse
  | all => all.reverse

/-- The part of a text after its last point, the whole text when it has none. -/
def afterLastPoint (s : String) : String :=
  String.ofList (s.toList.reverse.takeWhile (· != '.')).reverse

def joinWith (separator : String) (parts : List String) : String :=
  separator.intercalate parts

end CodeAtlas
