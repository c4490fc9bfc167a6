import CodeAtlas.Answer
import CodeAtlas.Proofs.Texts

namespace CodeAtlas

section Joining

/-- A list that holds what is in two others, one after the other. -/
def Value.Joins (v w joined : Value) : Prop := ∃ items others, v = .list items ∧ w = .list others ∧ joined = .list (items ++ others)

/-- A selection that joins two others in each of its fields. -/
structure Selection.Joins (s t joined : Selection) : Prop where
  classes : s.classes.Joins t.classes joined.classes
  methods : s.methods.Joins t.methods joined.methods
  packages : s.packages.Joins t.packages joined.packages
  terms : s.terms.Joins t.terms joined.terms

theorem answerItems_append (a b : String) : answerItems (a ++ "\n" ++ b) = answerItems a ++ answerItems b := by
  rw [answerItems, pieces_append, List.filterMap_append, answerItems, answerItems]

theorem namesOf_append (kind : Kind) (items others : List (Kind × String)) :
    namesOf kind (items ++ others) = namesOf kind items ++ namesOf kind others := by
  rw [namesOf, List.filter_append, List.map_append, namesOf, namesOf]

/-- What an answer that is a text selects. -/
def Selection.ofItems (items : List (Kind × String)) : Selection := .ofNames (namesOf .classes items) (namesOf .methods items)

theorem Selection.ofAnswer_str (text : String) : ofAnswer (.str text) = .ok (.ofItems (answerItems text)) := rfl

theorem Selection.ofItems_append (items others : List (Kind × String)) :
    (ofItems items).Joins (ofItems others) (ofItems (items ++ others)) := by
  refine ⟨⟨_, _, rfl, rfl, ?_⟩, ⟨_, _, rfl, rfl, ?_⟩, ⟨[], [], rfl, rfl, rfl⟩, ⟨[], [], rfl, rfl, rfl⟩⟩
  · rw [← List.map_append, ← namesOf_append]
    rfl
  · rw [← List.map_append, ← namesOf_append]
    rfl

end Joining

section Reading

/-- Blanks that stay on a line. -/
def Gap (s : String) : Prop := Blanks s.toList ∧ '\n' ∉ s.toList

/-- A line of an answer: one that names an entity after the word of its kind, with whatever blanks around both, or another one. -/
inductive AnswerLine where
  | naming (kind : Kind) (name before between after : String)
  | idle (text : String)

namespace AnswerLine

def text : AnswerLine → String
  | naming kind name before between after => before ++ kind.tag ++ between ++ name ++ after
  | idle text => text

/-- The entity that a line is meant to name. -/
def item? : AnswerLine → Option (Kind × String)
  | naming kind name .. => some (kind, name)
  | idle _ => none

/-- A line is one line; a name that it gives is a name without blanks around it, and a line that gives none has nothing after a
word that it starts with. -/
def Proper : AnswerLine → Prop
  | naming _ name before between after =>
    name ≠ "" ∧ strip name = name ∧ '\n' ∉ name.toList ∧ Gap before ∧ Gap between ∧ Gap after
  | idle text => '\n' ∉ text.toList ∧ ∀ kind : Kind, ∀ rest, strip text = kind.tag ++ rest → strip rest = ""

/-- The names of a kind that the lines are meant to give. -/
def names (kind : Kind) (lines : List AnswerLine) : List String :=
  lines.filterMap fun
    | naming other name .. => if other = kind then some name else none
    | idle _ => none

end AnswerLine

theorem Kind.tag_head (kind : Kind) : ∀ c ∈ kind.tag.toList.head?, isBlank c = false := by
  cases kind <;> (rintro c ⟨⟩; rfl)

theorem Kind.tag_toList_ne_nil (kind : Kind) : kind.tag.toList ≠ [] := by
  cases kind <;> decide

/-- No line starts with the words of both kinds. -/
theorem Kind.tag_apart : ¬Kind.classes.tag.toList <+: Kind.methods.tag.toList := by decide

section Names

variable {kind : Kind} {tag name before between after : String}

theorem strip_named (some : name ≠ "") (stripped : strip name = name) (front : Blanks before.toList) (back : Blanks after.toList) :
    strip (before ++ kind.tag ++ between ++ name ++ after) = kind.tag ++ between ++ name := by
  have parts : (before ++ kind.tag ++ between ++ name ++ after).toList =
      before.toList ++ ((kind.tag ++ between ++ name).toList ++ after.toList) := by simp only [String.toList_append, List.append_assoc]
  rw [strip, parts, trimBy_surrounded front back, trimBy_of_ends, String.ofList_toList]
  · rw [String.append_assoc, String.toList_append, List.head?_append_of_ne_nil _ kind.tag_toList_ne_nil]
    exact kind.tag_head
  · have ends : name.toList ≠ [] := fun empty => some (String.toList_eq_nil_iff.mp empty)
    rw [String.toList_append, List.getLast?_append_of_ne_nil _ ends]
    exact last_of_trimmed (strip_eq_self_iff.mp stripped)

theorem prefix_tagged (tag rest : String) : tag.toList <+: (tag ++ rest).toList := by
  rw [String.toList_append]
  exact List.prefix_append _ _

theorem taggedName?_of_tagged (some : name ≠ "") (stripped : strip name = name) (middle : Blanks between.toList) :
    taggedName? tag (tag ++ between ++ name) = .some name := by
  have starts : tag.toList.isPrefixOf (tag ++ between ++ name).toList = true := by
    rw [List.isPrefixOf_iff_prefix, String.append_assoc]
    exact prefix_tagged _ _
  have rest : strip (.ofList ((tag ++ between ++ name).toList.drop tag.length)) = name := by
    rw [String.append_assoc, String.toList_append, ← String.length_toList, List.drop_left, strip, String.toList_ofList, String.toList_append]
    have ends : between.toList ++ name.toList = between.toList ++ (name.toList ++ []) := by rw [List.append_nil]
    rw [ends, trimBy_surrounded middle Blanks.none, strip_eq_self_iff.mp stripped, String.ofList_toList]
  rw [taggedName?, if_pos starts]
  dsimp only
  rw [rest, String.isEmpty_eq_false_iff.mpr some]
  rfl

theorem answerItem?_named (some : name ≠ "") (stripped : strip name = name) (front : Blanks before.toList)
    (middle : Blanks between.toList) (back : Blanks after.toList) :
    answerItem? (before ++ kind.tag ++ between ++ name ++ after) = .some (kind, name) := by
  have tagged : taggedName? kind.tag (kind.tag ++ between ++ name) = .some name := taggedName?_of_tagged some stripped middle
  have starts : kind.tag.toList <+: (kind.tag ++ between ++ name).toList := by
    rw [String.append_assoc]
    exact prefix_tagged _ _
  rw [answerItem?, strip_named some stripped front back]
  cases kind with
  | classes =>
    rw [if_pos (List.isPrefixOf_iff_prefix.mpr starts), tagged]
    rfl
  | methods =>
    have apart : ¬Kind.classes.tag.toList <+: (Kind.methods.tag ++ between ++ name).toList :=
      fun other => Kind.tag_apart (List.prefix_of_prefix_length_le other starts (by decide))
    rw [if_neg (mt List.isPrefixOf_iff_prefix.mp apart), tagged]
    rfl

end Names

theorem taggedName?_of_idle {tag line : String} (idle : ∀ rest, line = tag ++ rest → strip rest = "") : taggedName? tag line = none := by
  rw [taggedName?]
  split
  next starts =>
    obtain ⟨rest, parts⟩ := List.isPrefixOf_iff_prefix.mp starts
    have whole : line = tag ++ .ofList rest := by rw [← String.toList_inj, String.toList_append, String.toList_ofList, parts]
    have after : line.toList.drop tag.length = rest := by rw [← parts, ← String.length_toList, List.drop_left]
    dsimp only
    rw [after, idle _ whole]
    rfl
  next => rfl

theorem AnswerLine.Proper.read {line : AnswerLine} (proper : line.Proper) : answerItem? line.text = line.item? := by
  cases line with
  | naming kind name before between after =>
    obtain ⟨some, stripped, -, front, middle, back⟩ := proper
    exact answerItem?_named some stripped front.1 middle.1 back.1
  | idle text =>
    have none : ∀ kind : Kind, taggedName? kind.tag (strip text) = none := fun kind => taggedName?_of_idle (proper.2 kind)
    rw [AnswerLine.text, answerItem?, none, none]
    exact ite_self _

theorem AnswerLine.Proper.whole {line : AnswerLine} (proper : line.Proper) : '\n' ∉ line.text.toList := by
  cases line with
  | naming kind name before between after =>
    obtain ⟨-, -, name, front, middle, back⟩ := proper
    have tag : '\n' ∉ kind.tag.toList := by cases kind <;> decide
    simp only [AnswerLine.text, String.toList_append, List.mem_append, not_or]
    exact ⟨⟨⟨⟨front.2, tag⟩, middle.2⟩, name⟩, back.2⟩
  | idle text => exact proper.1

theorem answerItems_lines {lines : List AnswerLine} (proper : ∀ line ∈ lines, line.Proper) :
    answerItems ("\n".intercalate (lines.map AnswerLine.text)) = lines.filterMap AnswerLine.item? := by
  by_cases empty : lines = []
  · subst empty
    rfl
  · have whole : ∀ text ∈ lines.map AnswerLine.text, '\n' ∉ text.toList := by
      intro text inside
      obtain ⟨line, listed, rfl⟩ := List.mem_map.mp inside
      exact (proper line listed).whole
    have some : lines.map AnswerLine.text ≠ [] := fun none => empty (List.map_eq_nil_iff.mp none)
    rw [answerItems, pieces_lines some whole, List.filterMap_map]
    refine List.filterMap_congr fun line inside => ?_
    rw [Function.comp_apply]
    exact (proper line inside).read

theorem namesOf_lines (kind : Kind) (lines : List AnswerLine) : namesOf kind (lines.filterMap AnswerLine.item?) = AnswerLine.names kind lines := by
  rw [namesOf]
  induction lines with
  | nil => rfl
  | cons line rest ih =>
    rw [AnswerLine.names] at ih ⊢
    rw [List.filterMap_cons, List.filterMap_cons]
    cases line with
    | idle => exact ih
    | naming other name =>
      by_cases same : other = kind
      · simp [AnswerLine.item?, same, ih]
      · simp [AnswerLine.item?, same, ih]

/-- Answers are read line by line: what two of them on top of each other select is what they select, joined, and the lines of an
answer select exactly the names that they are meant to give, in their order. -/
theorem Selection.ofAnswer_reads :
    (∀ a b : String, ∃ s t joined, ofAnswer (.str a) = .ok s ∧ ofAnswer (.str b) = .ok t ∧
      ofAnswer (.str (a ++ "\n" ++ b)) = .ok joined ∧ s.Joins t joined) ∧
    ∀ lines : List AnswerLine, (∀ line ∈ lines, line.Proper) →
      ofAnswer (.str ("\n".intercalate (lines.map AnswerLine.text))) = .ok
        ⟨.list ((AnswerLine.names .classes lines).map .str), .list ((AnswerLine.names .methods lines).map .str), .list [], .list []⟩ := by
  refine ⟨fun a b => ⟨_, _, _, ofAnswer_str a, ofAnswer_str b, ofAnswer_str _, ?_⟩, fun lines proper => ?_⟩
  · rw [answerItems_append]
    exact ofItems_append _ _
  · rw [ofAnswer_str, answerItems_lines proper, ofItems, namesOf_lines, namesOf_lines]
    rfl

/-- Lines of all sorts: a name in blanks, one that looks like a line of the other kind, a repeated one, and two that name nothing. -/
def AnswerLine.samples : List AnswerLine := [.idle "Found:", .naming .classes "Order" " " "\t" "\r", .naming .methods "CLASS: x" "" " " "",
  .idle "METHOD: ", .naming .classes "Order" "" "" ""]

theorem AnswerLine.samples_proper : ∀ line ∈ samples, line.Proper := by
  have apart : ∀ kind : Kind, ¬kind.tag.toList <+: "Found:".toList := by
    intro kind
    cases kind <;> decide
  have found : (AnswerLine.idle "Found:").Proper := by
    refine ⟨by decide, fun kind rest same => absurd ?_ (apart kind)⟩
    rw [show "Found:" = strip "Found:" by decide +kernel, same]
    exact prefix_tagged _ _
  have bare : (AnswerLine.idle "METHOD: ").Proper := by
    refine ⟨by decide, fun kind rest same => ?_⟩
    have shown : Kind.methods.tag = kind.tag ++ rest := (show Kind.methods.tag = strip "METHOD: " by decide +kernel).trans same
    cases kind with
    | classes =>
      have starts := prefix_tagged Kind.classes.tag rest
      rw [← shown] at starts
      exact absurd starts Kind.tag_apart
    | methods =>
      have parts : Kind.methods.tag.toList ++ [] = Kind.methods.tag.toList ++ rest.toList := by
        rw [List.append_nil, ← String.toList_append, ← shown]
      rw [String.toList_eq_nil_iff.mp (List.append_cancel_left parts).symm]
      rfl
  simp only [samples, List.forall_mem_cons, List.not_mem_nil, false_implies, implies_true, and_true]
  refine ⟨found, ?_, ?_, bare, ?_⟩
  all_goals exact ⟨by decide, by decide +kernel, by decide, ⟨by decide, by decide⟩, ⟨by decide, by decide⟩, by decide, by decide⟩

theorem Selection.ofAnswer_reads_samples :
    ofAnswer (.str "Found:\n CLASS:\tOrder\r\nMETHOD: CLASS: x\nMETHOD: \nCLASS:Order") = .ok
      ⟨.list [.str "Order", .str "Order"], .list [.str "CLASS: x"], .list [], .list []⟩ :=
  ofAnswer_reads.2 AnswerLine.samples AnswerLine.samples_proper

end Reading

end CodeAtlas
