import CodeAtlas.Text.Blank
import Mathlib.Data.List.Basic
import Mathlib.Data.List.DropRight

namespace CodeAtlas

section Trimming

variable {α : Type} {p : α → Bool} {l before after : List α}

theorem trimBy_eq (p : α → Bool) (l : List α) : trimBy p l = (l.dropWhile p).rdropWhile p := rfl

/-- What is dropped at the ends may as well not be there. -/
theorem trimBy_surrounded (first : ∀ a ∈ before, p a = true) (last : ∀ a ∈ after, p a = true) :
    trimBy p (before ++ (l ++ after)) = trimBy p l := by
  have nothing : after.dropWhile p = [] := List.dropWhile_eq_nil_iff.mpr last
  unfold trimBy
  rw [List.dropWhile_append_of_pos first, List.dropWhile_append]
  split
  next none => simp [nothing, List.isEmpty_iff.mp none]
  next =>
    rw [List.reverse_append, List.dropWhile_append_of_pos fun a inside => last a (List.mem_reverse.mp inside)]

/-- Nothing is dropped where both ends are to be kept. -/
theorem trimBy_of_ends (first : ∀ a ∈ l.head?, p a = false) (last : ∀ a ∈ l.getLast?, p a = false) : trimBy p l = l := by
  have front : l.dropWhile p = l := by
    cases l with
    | nil => rfl
    | cons a rest => exact List.dropWhile_cons_of_neg (Bool.eq_false_iff.mp (first a rfl))
  rw [trimBy_eq, front, List.rdropWhile_eq_self_iff]
  exact fun some => Bool.eq_false_iff.mp (last _ (List.getLast?_eq_getLast_of_ne_nil some))

theorem last_of_trimmed (trimmed : trimBy p l = l) : ∀ a ∈ l.getLast?, p a = false := by
  have kept : l.rdropWhile p = l := by
    rw [trimBy_eq] at trimmed
    rw [← trimmed, List.rdropWhile_idempotent]
  intro a ends
  have some : l ≠ [] := by
    rintro rfl
    cases ends
  have last := List.rdropWhile_eq_self_iff.mp kept some
  rw [List.getLast?_eq_getLast_of_ne_nil some] at ends
  cases ends
  exact Bool.eq_false_iff.mpr last

end Trimming

/-- Blanks and nothing else. -/
def Blanks (cs : List Char) : Prop := ∀ c ∈ cs, isBlank c = true

instance (cs : List Char) : Decidable (Blanks cs) := decidable_of_iff (cs.all isBlank = true) List.all_eq_true

theorem Blanks.none : Blanks [] := List.forall_mem_nil _

theorem strip_eq_self_iff {s : String} : strip s = s ↔ trimBy isBlank s.toList = s.toList := by
  rw [strip, ← String.toList_inj, String.toList_ofList]

theorem splitBy_eq {α : Type} (p : α → Bool) (l : List α) : splitBy p l = l.splitOnP p := by
  induction l with
  | nil => rfl
  | cons a rest ih =>
    rw [List.splitOnP_cons_eq_if_modifyHead, splitBy, ih]
    split
    · rfl
    · cases pieces : rest.splitOnP p with
      | nil => exact absurd pieces (List.splitOnP_ne_nil _ _)
      | cons => rfl

section Pieces

/-- A line feed starts a new piece. -/
theorem pieces_append (s t : String) : pieces (s ++ "\n" ++ t) = pieces s ++ pieces t := by
  have parts : (s ++ "\n" ++ t).toList = s.toList ++ '\n' :: t.toList := by simp
  have split : (s.toList ++ '\n' :: t.toList).splitOnP (· == '\n') = s.toList.splitOnP (· == '\n') ++ t.toList.splitOnP (· == '\n') :=
    List.splitOnP_append_cons _ _ (beq_self_eq_true _)
  rw [pieces, pieces, pieces, parts, splitBy_eq, splitBy_eq, splitBy_eq, split, List.map_append]

/-- A text without line feeds is one piece. -/
theorem pieces_single {s : String} (whole : '\n' ∉ s.toList) : pieces s = [s] := by
  have none : ∀ c ∈ s.toList, (c == '\n') = false := fun c inside => beq_eq_false_iff_ne.mpr fun same => whole (same ▸ inside)
  rw [pieces, splitBy_eq, List.splitOnP_eq_singleton none, List.map_singleton, String.ofList_toList]

theorem pieces_intercalate {lines : List String} (some : lines ≠ []) : pieces ("\n".intercalate lines) = lines.flatMap pieces := by
  induction lines with
  | nil => exact absurd rfl some
  | cons line rest ih =>
    cases rest with
    | nil => simp
    | cons next later =>
      rw [String.intercalate_cons_cons, pieces_append, ih (List.cons_ne_nil _ _)]
      rfl

/-- Lines that are put one below the other are found again as its pieces. -/
theorem pieces_lines {lines : List String} (some : lines ≠ []) (whole : ∀ line ∈ lines, '\n' ∉ line.toList) :
    pieces ("\n".intercalate lines) = lines := by
  rw [pieces_intercalate some, List.flatMap_congr fun line inside => pieces_single (whole line inside)]
  exact List.flatMap_singleton' lines

/-- There is one piece more than there are line feeds. -/
theorem length_pieces (s : String) : (pieces s).length = s.toList.count '\n' + 1 := by
  rw [pieces, List.length_map]
  induction s.toList with
  | nil => rfl
  | cons c rest ih =>
    rw [splitBy]
    split
    next feed =>
      rw [List.length_cons, ih, beq_iff_eq.mp feed, List.count_cons_self]
    next other =>
      have same : (splitBy (· == '\n') (c :: rest)).length = (splitBy (· == '\n') rest).length := by
        rw [splitBy, if_neg other]
        cases parts : splitBy (· == '\n') rest with
        | nil => exact absurd parts (splitBy_ne_nil _ _)
        | cons => rfl
      rw [List.count_cons_of_ne fun feed => other (beq_iff_eq.mpr feed), ← ih, ← same, splitBy, if_neg other]

end Pieces

/-- The lines of a text that starts with the given character, out of those of the rest. -/
def lineUp (ends : Char → Bool) (c : Char) (later : List (List Char)) : List (List Char) :=
  if ends c then [] :: later
  else match later with
    | [] => [[c]]
    | line :: lines => (c :: line) :: lines

/-- The lines of a text in which certain characters end a line, and a carriage return that is followed by a line feed ends one
together with it. An end at the very end starts no further line. -/
def linesEndedBy (ends : Char → Bool) : List Char → List (List Char)
  | [] => []
  | '\r' :: '\n' :: rest => [] :: linesEndedBy ends rest
  | c :: rest => lineUp ends c (linesEndedBy ends rest)

/-- The characters that end a line of source code. -/
def isNewline (c : Char) : Bool := c == '\n' || c == '\r'

section Lines

/-- Pieces are lines, except that nothing after the last end is none. -/
theorem linesOf_of_split {text : List Char} {lines : List (List Char)} {last : List Char} (split : splitBy endsLine text = lines ++ [last]) :
    linesOf text = if last = [] then lines else lines ++ [last] := by
  rw [linesOf, split, List.reverse_append]
  cases last with
  | nil => simp
  | cons => simp

theorem exists_split (text : List Char) : ∃ lines last, splitBy endsLine text = lines ++ [last] :=
  ⟨_, _, (List.dropLast_concat_getLast (splitBy_ne_nil endsLine text)).symm⟩

theorem linesOf_cons (c : Char) (rest : List Char) : linesOf (c :: rest) = lineUp endsLine c (linesOf rest) := by
  obtain ⟨lines, last, parts⟩ := exists_split rest
  rw [linesOf_of_split parts, lineUp.eq_def]
  by_cases ended : endsLine c = true
  · have whole : splitBy endsLine (c :: rest) = ([] :: lines) ++ [last] := by rw [splitBy, if_pos ended, parts]; rfl
    rw [linesOf_of_split whole, if_pos ended]
    cases last <;> rfl
  · rw [if_neg ended]
    cases lines with
    | nil =>
      have whole : splitBy endsLine (c :: rest) = [] ++ [c :: last] := by rw [splitBy, if_neg ended, parts]; rfl
      rw [linesOf_of_split whole, if_neg (List.cons_ne_nil _ _)]
      cases last <;> rfl
    | cons line lines =>
      have whole : splitBy endsLine (c :: rest) = ((c :: line) :: lines) ++ [last] := by rw [splitBy, if_neg ended, parts]; rfl
      rw [linesOf_of_split whole]
      cases last <;> rfl

theorem unifyNewlines_cons {c : Char} {rest : List Char} (alone : ∀ more, c = '\r' → rest = '\n' :: more → False) :
    unifyNewlines (c :: rest) = (if c = '\r' then '\n' else c) :: unifyNewlines rest := by
  by_cases returns : c = '\r'
  · subst returns
    rw [if_pos rfl, unifyNewlines]
    exact fun more => alone more rfl
  · rw [if_neg returns, unifyNewlines]
    exacts [fun _ same => absurd same returns, returns]

/-- Once newlines are unified, the lines of a text are those that are ended by all these characters. -/
theorem linesOf_unifyNewlines (text : List Char) : linesOf (unifyNewlines text) = linesEndedBy endsLine text := by
  induction text using linesEndedBy.induct with
  | case1 => rfl
  | case2 rest ih => rw [unifyNewlines, linesEndedBy, linesOf_cons, ih]; rfl
  | case3 c rest alone ih =>
    rw [unifyNewlines_cons alone, linesOf_cons, ih, linesEndedBy.eq_3 _ _ _ alone]
    split
    next returns => subst returns; rfl
    next => rfl

variable {p q : Char → Bool} {text : List Char}

theorem linesEndedBy_congr (same : ∀ c ∈ text, p c = q c) : linesEndedBy p text = linesEndedBy q text := by
  induction text using linesEndedBy.induct with
  | case1 => rfl
  | case2 rest ih => rw [linesEndedBy, linesEndedBy, ih fun c inside => same c (.tail _ (.tail _ inside))]
  | case3 c rest alone ih =>
    rw [linesEndedBy.eq_3 _ _ _ alone, linesEndedBy.eq_3 _ _ _ alone, ih fun c inside => same c (.tail _ inside), lineUp.eq_def,
      lineUp.eq_def, same c (.head _)]

theorem mem_lineUp {c d : Char} {later : List (List Char)} : d ∈ (lineUp p c later).flatten ↔ (d = c ∧ p c = false) ∨ d ∈ later.flatten := by
  rw [lineUp.eq_def]
  split
  next ended => simp [ended]
  next kept =>
    have kept := Bool.eq_false_iff.mpr kept
    cases later with
    | nil => simp [kept]
    | cons line lines => simp [kept]

/-- What ends lines is in none of them, and nothing else is left out. -/
theorem mem_linesEndedBy (feeds : p '\n' = true) (returns : p '\r' = true) {d : Char} :
    d ∈ (linesEndedBy p text).flatten ↔ d ∈ text ∧ p d = false := by
  induction text using linesEndedBy.induct with
  | case1 => simp [linesEndedBy]
  | case2 rest ih =>
    rw [linesEndedBy, List.flatten_cons, List.nil_append, ih]
    grind
  | case3 c rest alone ih =>
    rw [linesEndedBy.eq_3 _ _ _ alone, mem_lineUp, ih]
    grind

end Lines

end CodeAtlas
